import Std.Data.ExtTreeMap
import Z80Atlas.Instruction

/-!
# Nodes and the flow graph

A node is a straight run of instructions up to a decision about the flow of control.  The flow graph
holds the nodes by their start.  Each edge is kept at both of its ends, and only `addBranch` and
`setCallee` touch edges.
-/

namespace Z80Atlas

/-- A straight run of instructions. -/
structure Node where
  /-- Where it starts. -/
  start : Address
  /-- How many bytes it has. -/
  length : Nat := 0
  instructions : Array Instruction := #[]
  label : Option String := none
  /-- The data that the instructions refer to. -/
  dataRefs : Array Address := #[]
  /-- Whether it belongs to a subroutine. -/
  isSubroutine : Bool := false
  /-- Whether control never goes on behind it. -/
  stop : Bool := false
  /-- Where control goes by branching or by going on. -/
  successors : Array Address := #[]
  /-- The nodes of which this is a successor. -/
  predecessors : Array Address := #[]
  /-- The node that is called from here. -/
  callee : Option Address := none
  /-- The nodes from which this one is called. -/
  callers : Array Address := #[]
deriving DecidableEq

namespace Node

/-- The first position behind the node. -/
def stopAt (n : Node) : Nat := n.start.toNat + n.length

/-- Whether the node covers an address. -/
def covers (n : Node) (a : Address) : Bool := n.start ≤ a && a.toNat < n.stopAt

/-- Whether the node stands for a target outside of the code. -/
def isPlaceholder (n : Node) : Bool := n.length == 0 && n.instructions.isEmpty

/-- Whether control goes on from this node into `next` without a jump. -/
def fallsInto (n next : Node) : Bool := !n.stop && n.stopAt == next.start.toNat

/-- Whether anything leads to the node. -/
def isReferenced (n : Node) : Bool := !n.callers.isEmpty || !n.predecessors.isEmpty

end Node

/-- Add an address at the end of a list of addresses, unless it is in it. -/
def addOnce (xs : Array Address) (a : Address) : Array Address :=
  if xs.contains a then xs else xs.push a

@[simp] theorem mem_addOnce {xs : Array Address} {a b : Address} :
    b ∈ addOnce xs a ↔ b ∈ xs ∨ b = a := by
  unfold addOnce
  split
  next h =>
    constructor
    · exact Or.inl
    · rintro (hb | rfl)
      · exact hb
      · exact Array.contains_iff_mem.mp h
  next => exact Array.mem_push

/-- The nodes, by their start. -/
structure FlowGraph where
  nodes : Std.ExtTreeMap Address Node := ∅

namespace FlowGraph

/-- The node that starts at an address. -/
def get? (g : FlowGraph) (a : Address) : Option Node := g.nodes[a]?

/-- Whether a node starts at an address. -/
def contains (g : FlowGraph) (a : Address) : Bool := g.nodes.contains a

/-- How many nodes there are. -/
def size (g : FlowGraph) : Nat := g.nodes.size

/-- The starts of the nodes, ascending. -/
def addresses (g : FlowGraph) : List Address := g.nodes.keys

/-- The nodes, ascending. -/
def toList (g : FlowGraph) : List Node := g.nodes.toList.map Prod.snd

/-- Change the node that starts at an address, if there is one. -/
def modify (g : FlowGraph) (a : Address) (f : Node → Node) : FlowGraph := ⟨g.nodes.modify a f⟩

/-- Change every node. -/
def mapNodes (g : FlowGraph) (f : Node → Node) : FlowGraph := ⟨g.nodes.map fun _ n => f n⟩

/-- Have an empty node start at an address, unless one starts there. -/
def ensure (g : FlowGraph) (a : Address) : FlowGraph :=
  if g.contains a then g else ⟨g.nodes.insert a { start := a }⟩

/-- Add the edge by which control goes from one node to another. -/
def addBranch (g : FlowGraph) (source target : Address) : FlowGraph :=
  (((g.ensure source).ensure target).modify source fun n =>
    { n with successors := addOnce n.successors target })
    |>.modify target fun n => { n with predecessors := addOnce n.predecessors source }

/-- Forget that `target` is called from `source`. -/
def dropCaller (g : FlowGraph) (source target : Address) : FlowGraph :=
  g.modify target fun n => { n with callers := n.callers.filter (· ≠ source) }

/-- Have `source` call `target` and nothing else. -/
def setCallee (g : FlowGraph) (source target : Address) : FlowGraph :=
  let g := (g.ensure source).ensure target
  let g := match (g.get? source).bind (·.callee) with
    | some former => if former = target then g else g.dropCaller source former
    | none => g
  (g.modify source fun n => { n with callee := some target })
    |>.modify target fun n => { n with callers := addOnce n.callers source }

theorem contains_iff {g : FlowGraph} {a : Address} :
    g.contains a = true ↔ ∃ n, g.get? a = some n := by
  rw [contains, get?, ← Option.isSome_iff_exists, Std.ExtTreeMap.isSome_getElem?_eq_contains]

theorem get?_modify (g : FlowGraph) (a b : Address) (f : Node → Node) :
    (g.modify a f).get? b = if a = b then (g.get? b).map f else g.get? b := by
  unfold modify get?
  rw [Std.ExtTreeMap.getElem?_modify]
  simp only [Std.compare_eq_iff_eq]
  split
  next hab => rw [hab]
  next => rfl

theorem get?_ensure (g : FlowGraph) (a b : Address) :
    (g.ensure a).get? b = if a = b then some ((g.get? b).getD { start := b }) else g.get? b := by
  unfold ensure
  split
  next h =>
    obtain ⟨n, hn⟩ := contains_iff.mp h
    split
    next hab => subst hab; simp [hn]
    next => rfl
  next h =>
    have hn : g.get? a = none := by
      cases hg : g.get? a with
      | none => rfl
      | some n => exact absurd (contains_iff.mpr ⟨n, hg⟩) h
    unfold get? at hn ⊢
    rw [Std.ExtTreeMap.getElem?_insert]
    simp only [Std.compare_eq_iff_eq]
    split
    next hab => subst hab; simp [hn]
    next => rfl

theorem contains_ensure {g : FlowGraph} {a b : Address} :
    (g.ensure a).contains b = true ↔ g.contains b = true ∨ b = a := by
  rw [contains_iff, contains_iff, get?_ensure]
  split
  next hab => simp [hab]
  next hab => simp [Ne.symm hab]

theorem mem_addresses {g : FlowGraph} {a : Address} : a ∈ g.addresses ↔ g.contains a = true := by
  unfold addresses contains
  rw [Std.ExtTreeMap.mem_keys, Std.ExtTreeMap.mem_iff_contains]

theorem mem_toList {g : FlowGraph} {n : Node} : n ∈ g.toList ↔ ∃ a, g.get? a = some n := by
  unfold toList
  rw [List.mem_map]
  constructor
  · intro ⟨p, hp, hn⟩
    exact ⟨p.1, Std.ExtTreeMap.mem_toList_iff_getElem?_eq_some.mp (hn ▸ hp)⟩
  · intro ⟨a, ha⟩
    exact ⟨(a, n), Std.ExtTreeMap.mem_toList_iff_getElem?_eq_some.mpr ha, rfl⟩

theorem ext {g h : FlowGraph} (e : ∀ a, g.get? a = h.get? a) : g = h := by
  obtain ⟨g⟩ := g
  obtain ⟨h⟩ := h
  congr 1
  exact Std.ExtTreeMap.ext_getElem? fun {k} => e k

end FlowGraph

end Z80Atlas
