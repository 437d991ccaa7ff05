import Z80Atlas.Session

/-!
# Naming changes names only

Marking subroutines and making up names go over the whole graph, and change nothing but the flag and
the label of a node.  What a listing says about the code of the program is therefore what the nodes
held before.
-/

namespace Z80Atlas

/-- A node without its name, and without the mark of a subroutine. -/
def Node.anonymous (n : Node) : Node := { n with label := none, isSubroutine := false }

namespace FlowGraph

variable {g h : FlowGraph} {f : Node → Node}

/-- The two graphs have the same nodes but for names and the marks of subroutines. -/
def SameButNames (g h : FlowGraph) : Prop :=
  ∀ a, (g.get? a).map Node.anonymous = (h.get? a).map Node.anonymous

theorem SameButNames.refl (g : FlowGraph) : SameButNames g g := fun _ => rfl

theorem SameButNames.trans {g' : FlowGraph} (hgh : SameButNames g h) (hh : SameButNames h g') :
    SameButNames g g' :=
  fun a => (hgh a).trans (hh a)

theorem SameButNames.exists_node (hgh : SameButNames g h) {a : Address} {n : Node}
    (hn : g.get? a = some n) :
    ∃ n', h.get? a = some n' ∧ n'.anonymous = n.anonymous := by
  have hsame := hgh a
  rw [hn, Option.map_some, eq_comm] at hsame
  exact Option.map_eq_some_iff.mp hsame

theorem SameButNames.symm (hgh : SameButNames g h) : SameButNames h g := fun a => (hgh a).symm

theorem sameButNames_modify (g : FlowGraph) (a : Address)
    (hf : ∀ n, (f n).anonymous = n.anonymous) :
    SameButNames g (g.modify a f) := by
  intro b
  rw [get?_modify]
  split
  · cases g.get? b with
    | none => rfl
    | some n => exact congrArg some (hf n).symm
  · rfl

theorem get?_mapNodes (g : FlowGraph) (f : Node → Node) (a : Address) :
    (g.mapNodes f).get? a = (g.get? a).map f := Std.ExtTreeMap.getElem?_map

theorem sameButNames_mapNodes (g : FlowGraph) (hf : ∀ n, (f n).anonymous = n.anonymous) :
    SameButNames g (g.mapNodes f) := by
  intro a
  rw [get?_mapNodes, Option.map_map]
  cases g.get? a with
  | none => rfl
  | some n => exact congrArg some (hf n).symm

theorem sameButNames_foldl {α : Type} (xs : List α) (step : FlowGraph → α → FlowGraph)
    (hs : ∀ g x, SameButNames g (step g x)) (g : FlowGraph) : SameButNames g (xs.foldl step g) := by
  induction xs generalizing g with
  | nil => exact .refl g
  | cons x rest ih => exact (hs g x).trans (ih (step g x))

theorem sameButNames_markSubroutines (g : FlowGraph) : SameButNames g g.markSubroutines :=
  sameButNames_mapNodes g fun _ => rfl

theorem anonymous_nameNode (stems : Stems) (n : Node) :
    (nameNode stems n).anonymous = n.anonymous := by
  unfold nameNode
  split <;> rfl

theorem sameButNames_nameLeaders (g : FlowGraph) (b : Blocks) (stems : Stems) :
    SameButNames g (g.nameLeaders b stems) :=
  sameButNames_foldl _ _ (fun g a => sameButNames_modify g a (anonymous_nameNode stems)) g

theorem sameButNames_nameInteriors (g : FlowGraph) (b : Blocks) (stems : Stems) :
    SameButNames g (g.nameInteriors b stems) := by
  refine sameButNames_foldl _ _ ?_ g
  intro g p
  exact sameButNames_modify g p.1 fun _ => rfl

theorem sameButNames_assignNames (g : FlowGraph) (b : Blocks) (m : Memory) (external : NameTable)
    (stems : Stems) (other : NameTable) :
    SameButNames g (g.assignNames b m external stems other).1 :=
  (sameButNames_nameLeaders g b stems).trans (sameButNames_nameInteriors _ b stems)

theorem toList_mapNodes (g : FlowGraph) (f : Node → Node) :
    (g.mapNodes f).toList = g.toList.map f := by
  unfold toList mapNodes
  rw [Std.ExtTreeMap.toList_map, List.map_map, List.map_map]
  rfl

theorem SameButNames.toList_eq (hgh : SameButNames g h) :
    g.toList.map Node.anonymous = h.toList.map Node.anonymous := by
  have heq : g.mapNodes Node.anonymous = h.mapNodes Node.anonymous := by
    apply FlowGraph.ext
    intro a
    rw [get?_mapNodes, get?_mapNodes]
    exact hgh a
  rw [← toList_mapNodes, ← toList_mapNodes, heq]

/-- The instructions of all nodes, in the order of the nodes. -/
def listed (g : FlowGraph) : List Instruction := g.toList.flatMap (·.instructions.toList)

theorem SameButNames.listed_eq (hgh : SameButNames g h) : g.listed = h.listed := by
  have hcode : ∀ g' : FlowGraph,
      g'.listed = (g'.toList.map Node.anonymous).flatMap (·.instructions.toList) := by
    intro g'
    rw [List.flatMap_map]
    rfl
  rw [hcode, hcode, hgh.toList_eq]

theorem SameButNames.isPlaceholder_eq (hgh : SameButNames g h) (a : Address) :
    (g.get? a).any (·.isPlaceholder) = (h.get? a).any (·.isPlaceholder) := by
  have hflag : ∀ o : Option Node,
      o.any (·.isPlaceholder) = (o.map Node.anonymous).any (·.isPlaceholder) := by
    intro o
    cases o <;> rfl
  rw [hflag, hflag (h.get? a), hgh a]

end FlowGraph

/-! ### Listings -/

/-- The code on a line: the address of the instruction and its bytes. -/
def Line.code? : Line → Option (Address × List Byte)
  | .label _ _ => none
  | .instruction address bytes _ => some (address, bytes)

theorem Names.code_nodeLines (ns : Names) (settings : Settings) (n : Node) :
    (ns.nodeLines settings n).filterMap Line.code? =
      n.instructions.toList.map fun i => (i.address, ns.memory.slice i.address i.length) := by
  have hlabel :
      ∀ o : Option String, ((o.map (Line.label n.start ·)).toList).filterMap Line.code? = [] := by
    intro o
    cases o <;> rfl
  unfold nodeLines
  rw [List.filterMap_append, hlabel, List.nil_append, List.filterMap_map, ← List.filterMap_eq_map]
  rfl

/-- The code of a listing is that of the nodes: those that are left out have none. -/
theorem Names.code_listing (ns : Names) (settings : Settings) :
    (ns.listing settings).filterMap Line.code? =
      ns.graph.listed.map fun i => (i.address, ns.memory.slice i.address i.length) := by
  unfold listing FlowGraph.listed
  rw [List.filterMap_flatMap]
  simp only [code_nodeLines]
  induction ns.graph.toList with
  | nil => rfl
  | cons n rest ih =>
    rw [List.filter_cons, List.flatMap_cons, List.map_append, ← ih]
    split
    · rw [List.flatMap_cons]
    next hempty =>
      have hnone : n.instructions = #[] := by
        simp [Node.isPlaceholder] at hempty
        exact hempty.2
      rw [hnone]
      rfl

end Z80Atlas
