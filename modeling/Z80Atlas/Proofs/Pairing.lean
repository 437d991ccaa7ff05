import Z80Atlas.Proofs.Bodies

/-!
# Both ends of an edge

Each edge is kept at the node that it leaves and at the node that it enters.  The two records agree
if a node is a successor of another one exactly if that is one of its predecessors, and is called
from another one exactly if it is the callee there.  Adding an edge changes both ends, so that they
go on to agree.
-/

namespace Z80Atlas

/-- Where control and calls go from a node, and where they come from. -/
def Node.edges (n : Node) : Array Address × Array Address × Option Address × Array Address :=
  (n.successors, n.predecessors, n.callee, n.callers)

namespace FlowGraph

variable {g h : FlowGraph} {a b x source target : Address} {f : Node → Node}

/-- The node at an address, an empty one if none starts there. -/
def nodeAt (g : FlowGraph) (a : Address) : Node := (g.get? a).getD { start := a }

theorem nodeAt_eq {n : Node} (hn : g.get? a = some n) : g.nodeAt a = n := by
  unfold nodeAt
  rw [hn, Option.getD_some]

@[simp] theorem nodeAt_ensure (g : FlowGraph) (x a : Address) :
    (g.ensure x).nodeAt a = g.nodeAt a := by
  unfold nodeAt
  rw [get?_ensure]
  split
  · rw [Option.getD_some]
  · rfl

theorem nodeAt_modify (hx : g.contains x = true) :
    (g.modify x f).nodeAt a = if x = a then f (g.nodeAt a) else g.nodeAt a := by
  unfold nodeAt
  rw [get?_modify]
  split
  next heq =>
    obtain ⟨n, hn⟩ := contains_iff.mp hx
    rw [heq] at hn
    rw [hn]
    rfl
  next => rfl

/-! ### What adding an edge changes -/

theorem nodeAt_addBranch (g : FlowGraph) (source target a : Address) :
    (g.addBranch source target).nodeAt a =
      { g.nodeAt a with
        successors :=
          if source = a then addOnce (g.nodeAt a).successors target else (g.nodeAt a).successors
        predecessors :=
          if target = a then addOnce (g.nodeAt a).predecessors source
          else (g.nodeAt a).predecessors } := by
  have hsource : ((g.ensure source).ensure target).contains source = true :=
    contains_ensure.mpr (.inl (contains_ensure.mpr (.inr rfl)))
  have htarget : ((g.ensure source).ensure target).contains target = true :=
    contains_ensure.mpr (.inr rfl)
  unfold addBranch
  rw [nodeAt_modify (by rw [contains_modify]; exact htarget), nodeAt_modify hsource, nodeAt_ensure,
    nodeAt_ensure]
  by_cases hs : source = a
  · by_cases ht : target = a
    · simp only [hs, ht, if_true]
    · simp only [hs, ht, if_true, if_false]
  · by_cases ht : target = a
    · simp only [hs, ht, if_true, if_false]
    · simp only [hs, ht, if_false]

theorem mem_successors_addBranch :
    b ∈ ((g.addBranch source target).nodeAt a).successors ↔
      b ∈ (g.nodeAt a).successors ∨ (a = source ∧ b = target) := by
  rw [nodeAt_addBranch]
  by_cases hs : source = a
  · simp [hs]
  · simp [hs, Ne.symm hs]

theorem mem_predecessors_addBranch :
    a ∈ ((g.addBranch source target).nodeAt b).predecessors ↔
      a ∈ (g.nodeAt b).predecessors ∨ (a = source ∧ b = target) := by
  rw [nodeAt_addBranch]
  by_cases ht : target = b
  · simp [ht]
  · simp [ht, Ne.symm ht]

/-- The graph in which `source` is no longer among the callers of what it called before, unless that
is `target`. -/
def detach (g : FlowGraph) (source target : Address) : FlowGraph :=
  match (g.get? source).bind (·.callee) with
  | some former => if former = target then g else g.dropCaller source former
  | none => g

theorem setCallee_eq (g : FlowGraph) (source target : Address) :
    g.setCallee source target =
      ((((g.ensure source).ensure target).detach source target).modify source fun n =>
        { n with callee := some target }).modify
        target fun n => { n with callers := addOnce n.callers source } := rfl

theorem contains_detach (g : FlowGraph) (source target a : Address) :
    (g.detach source target).contains a = g.contains a := by
  unfold detach
  split
  · split
    · rfl
    · exact contains_modify ..
  · rfl

theorem nodeAt_dropCaller (g : FlowGraph) (source former a : Address) :
    (g.dropCaller source former).nodeAt a =
      { g.nodeAt a with
        callers :=
          if former = a then (g.nodeAt a).callers.filter (· ≠ source)
          else (g.nodeAt a).callers } := by
  unfold dropCaller nodeAt
  rw [get?_modify]
  split
  · cases g.get? a with
    | none => rfl
    | some n => rfl
  · rfl

theorem nodeAt_detach (g : FlowGraph) (source target a : Address) :
    (g.detach source target).nodeAt a =
      { g.nodeAt a with
        callers :=
          if (g.nodeAt source).callee = some a ∧ a ≠ target then
            (g.nodeAt a).callers.filter (· ≠ source)
          else (g.nodeAt a).callers } := by
  have hformer : (g.get? source).bind (·.callee) = (g.nodeAt source).callee := by
    unfold nodeAt
    cases g.get? source <;> rfl
  unfold detach
  rw [hformer]
  cases hc : (g.nodeAt source).callee with
  | none => simp
  | some former =>
    dsimp only
    by_cases heq : former = target
    · rw [if_pos heq]
      by_cases ha : former = a
      · simp [← ha, heq]
      · simp [ha]
    · rw [if_neg heq, nodeAt_dropCaller]
      by_cases ha : former = a
      · simp [← ha, heq]
      · simp [ha]

theorem nodeAt_setCallee (g : FlowGraph) (source target a : Address) :
    (g.setCallee source target).nodeAt a =
      { (g.detach source target).nodeAt a with
        callee := if source = a then some target else (g.nodeAt a).callee
        callers := if target = a then addOnce ((g.detach source target).nodeAt a).callers source
          else ((g.detach source target).nodeAt a).callers } := by
  have hsource :
      (((g.ensure source).ensure target).detach source target).contains source = true := by
    rw [contains_detach]
    exact contains_ensure.mpr (.inl (contains_ensure.mpr (.inr rfl)))
  have htarget :
      (((g.ensure source).ensure target).detach source target).contains target = true := by
    rw [contains_detach]
    exact contains_ensure.mpr (.inr rfl)
  rw [setCallee_eq, nodeAt_modify (by rw [contains_modify]; exact htarget), nodeAt_modify hsource]
  simp only [nodeAt_detach, nodeAt_ensure]
  by_cases hs : source = a
  · by_cases ht : target = a
    · simp only [hs, ht, if_true]
    · simp only [hs, ht, if_true, if_false]
  · by_cases ht : target = a
    · simp only [hs, ht, if_true, if_false]
    · simp only [hs, ht, if_false]

/-! ### Pairs -/

/-- The records at both ends of each edge agree. -/
structure Paired (g : FlowGraph) : Prop where
  flow : ∀ a b, b ∈ (g.nodeAt a).successors ↔ a ∈ (g.nodeAt b).predecessors
  call : ∀ a b, (g.nodeAt a).callee = some b ↔ a ∈ (g.nodeAt b).callers

theorem Paired.addBranch (hg : g.Paired) (source target : Address) :
    (g.addBranch source target).Paired where
  flow a b := by rw [mem_successors_addBranch, mem_predecessors_addBranch, hg.flow]
  call a b := by
    rw [nodeAt_addBranch, nodeAt_addBranch]
    exact hg.call a b

theorem Paired.setCallee (hg : g.Paired) (source target : Address) :
    (g.setCallee source target).Paired where
  flow a b := by
    rw [nodeAt_setCallee, nodeAt_setCallee, nodeAt_detach, nodeAt_detach]
    exact hg.flow a b
  call a b := by
    have hold := hg.call a b
    simp only [nodeAt_setCallee, nodeAt_detach]
    by_cases hs : source = a
    · -- The source is now among the callers of the target only.
      subst hs
      rw [if_pos rfl, Option.some.injEq]
      by_cases ht : target = b
      · simp [ht]
      · by_cases hc : (g.nodeAt source).callee = some b
        · simp [ht, Ne.symm ht, hc]
        · rw [if_neg ht, if_neg fun h => hc h.1, ← hold]
          exact iff_of_false ht hc
    · rw [if_neg hs, hold]
      by_cases ht : target = b
      · simp [ht, Ne.symm hs]
      · by_cases hc : (g.nodeAt source).callee = some b
        · simp [ht, Ne.symm ht, hc, Ne.symm hs]
        · rw [if_neg ht, if_neg fun h => hc h.1]

theorem Paired.congr (hg : g.Paired) (hgh : ∀ a, (h.nodeAt a).edges = (g.nodeAt a).edges) :
    h.Paired := by
  have hfields : ∀ a, (h.nodeAt a).successors = (g.nodeAt a).successors ∧
      (h.nodeAt a).predecessors = (g.nodeAt a).predecessors ∧
      (h.nodeAt a).callee = (g.nodeAt a).callee ∧ (h.nodeAt a).callers = (g.nodeAt a).callers := by
    intro a
    have heq := hgh a
    simp only [Node.edges, Prod.mk.injEq] at heq
    exact heq
  constructor
  · intro a b
    rw [(hfields a).1, (hfields b).2.1]
    exact hg.flow a b
  · intro a b
    rw [(hfields a).2.2.1, (hfields b).2.2.2]
    exact hg.call a b

end FlowGraph

end Z80Atlas
