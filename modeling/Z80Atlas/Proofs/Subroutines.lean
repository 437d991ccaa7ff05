import Z80Atlas.Proofs.Operations
import Z80Atlas.Proofs.Reach

/-!
# Which nodes are marked

The search for the nodes of subroutines goes backwards: it starts from the nodes that are marked and
goes along their predecessors.  The two ends of every edge agree in a graph that is built, so what
it finds are the nodes from which control can go to a marked one.  Nodes that are called are marked
when the search is over, and have no part in it.
-/

namespace Z80Atlas.FlowGraph

variable {g : FlowGraph} {a b : Address} {n : Node}

/-! ### Going along edges -/

/-- Control can go from one node to another without a call, in any number of steps. -/
def Reaches (g : FlowGraph) : Address → Address → Prop :=
  Relation.ReflTransGen fun x y => y ∈ (g.nodeAt x).successors

theorem mem_predecessorsOf : b ∈ g.predecessorsOf a ↔ b ∈ (g.nodeAt a).predecessors := by
  unfold predecessorsOf nodeAt
  cases g.get? a <;> simp

/-- Going back along the predecessors undoes going along the successors. -/
theorem Paired.reaches_iff (hg : g.Paired) :
    Relation.ReflTransGen (fun x y => y ∈ g.predecessorsOf x) b a ↔ g.Reaches a b := by
  have hback : (fun x y => y ∈ g.predecessorsOf x) =
      Function.swap fun x y => y ∈ (g.nodeAt x).successors := by
    funext x y
    show (y ∈ g.predecessorsOf x) = (x ∈ (g.nodeAt y).successors)
    rw [mem_predecessorsOf]
    exact propext (hg.flow y x).symm
  rw [hback, Relation.reflTransGen_swap]
  rfl

/-! ### Marks -/

/-- A node that is marked can be reached. -/
def ReachesMark (g : FlowGraph) (a : Address) : Prop :=
  ∃ b n, g.get? b = some n ∧ n.isSubroutine = true ∧ g.Reaches a b

theorem mem_leadingToMarked (hg : g.Built) : a ∈ g.leadingToMarked ↔ g.ReachesMark a := by
  have hseed : ∀ b, b ∈ (g.toList.filter (·.isSubroutine)).map (·.start) ↔
      ∃ n, g.get? b = some n ∧ n.isSubroutine = true := by
    intro b
    rw [List.mem_map]
    constructor
    · intro ⟨n, hn, hstart⟩
      obtain ⟨hmem, hmark⟩ := List.mem_filter.mp hn
      obtain ⟨x, hx⟩ := mem_toList.mp hmem
      -- The search starts where the node says that it starts, which is its place.
      have hplace : x = b := (hg.synced.start hx).symm.trans hstart
      exact ⟨n, hplace ▸ hx, hmark⟩
    · intro ⟨n, hn, hmark⟩
      exact ⟨n, List.mem_filter.mpr ⟨mem_toList.mpr ⟨b, hn⟩, hmark⟩, hg.synced.start hn⟩
  unfold leadingToMarked
  rw [mem_reach]
  constructor
  · intro ⟨b, hb, hpath⟩
    obtain ⟨n, hn, hmark⟩ := (hseed b).mp hb
    exact ⟨b, n, hn, hmark, hg.paired.reaches_iff.mp hpath⟩
  · intro ⟨b, n, hn, hmark, hpath⟩
    exact ⟨b, (hseed b).mpr ⟨n, hn, hmark⟩, hg.paired.reaches_iff.mpr hpath⟩

theorem ReachesMark.of_marked (hn : g.get? a = some n) (hmark : n.isSubroutine = true) :
    g.ReachesMark a :=
  ⟨a, n, hn, hmark, .refl⟩

/-- The first step to a mark. -/
theorem reachesMark_iff (hn : g.get? a = some n) :
    g.ReachesMark a ↔ n.isSubroutine = true ∨ ∃ b ∈ n.successors, g.ReachesMark b := by
  constructor
  · intro ⟨c, n', hn', hmark, hpath⟩
    obtain heq | ⟨b, hstep, hrest⟩ := Relation.ReflTransGen.cases_head hpath
    · subst heq
      rw [hn, Option.some.injEq] at hn'
      exact .inl (hn' ▸ hmark)
    · rw [nodeAt_eq hn] at hstep
      exact .inr ⟨b, hstep, c, n', hn', hmark, hrest⟩
  · intro hor
    rcases hor with hmark | ⟨b, hb, c, n', hn', hmark, hpath⟩
    · exact .of_marked hn hmark
    · rw [← nodeAt_eq hn] at hb
      exact ⟨c, n', hn', hmark, .head hb hpath⟩

theorem get?_markSubroutines (g : FlowGraph) (a : Address) :
    g.markSubroutines.get? a = (g.get? a).map fun n =>
      { n with
        isSubroutine := n.isSubroutine || n.start ∈ g.leadingToMarked || !n.callers.isEmpty } :=
  get?_mapNodes g _ a

/-- The nodes of `h` are those of `g`, with a mark exactly on those that are called or from which a
marked node can be reached.  A node from which none can be reached makes no difference to the nodes
before it, whether it is called or not. -/
structure MarkedFrom (g h : FlowGraph) : Prop where
  nodes : ∀ a, h.contains a = true ↔ g.contains a = true
  marked : ∀ {a n n'}, g.get? a = some n → h.get? a = some n' →
    (n'.isSubroutine = true ↔ n.callers ≠ #[] ∨ g.ReachesMark a)
  kept : ∀ {a n n'}, g.get? a = some n → h.get? a = some n' →
    n' = { n with isSubroutine := n'.isSubroutine }
  bystander : ∀ {p a n n'}, g.get? p = some n → h.get? p = some n' → ¬g.ReachesMark a →
    (n'.isSubroutine = true ↔
      n.callers ≠ #[] ∨ n.isSubroutine = true ∨ ∃ b ∈ n.successors, b ≠ a ∧ g.ReachesMark b)

/-- Marking changes nothing but the marks.  Afterwards a node has one exactly if it is called, or if
a node that had one before can be reached from it. -/
theorem markSubroutines_exact (hg : g.Built) : g.MarkedFrom g.markSubroutines := by
  have hmarked : ∀ {a n n'}, g.get? a = some n → g.markSubroutines.get? a = some n' →
      (n'.isSubroutine = true ↔ n.callers ≠ #[] ∨ g.ReachesMark a) := by
    intro a n n' hn hn'
    rw [get?_markSubroutines, hn, Option.map_some, Option.some.injEq] at hn'
    subst hn'
    have hstart : n.start = a := hg.synced.start hn
    have hfound := mem_leadingToMarked (a := a) hg
    simp only [Bool.or_eq_true, decide_eq_true_eq, Bool.not_eq_true', Array.isEmpty_eq_false_iff,
      hstart, hfound]
    constructor
    · intro hor
      rcases hor with (hold | hpath) | hcalled
      · exact .inr (.of_marked hn hold)
      · exact .inr hpath
      · exact .inl hcalled
    · intro hor
      rcases hor with hcalled | hpath
      · exact .inr hcalled
      · exact .inl (.inr hpath)
  refine ⟨?_, hmarked, ?_, ?_⟩
  · intro a
    rw [contains_iff, contains_iff, get?_markSubroutines]
    cases g.get? a <;> simp
  · intro a n n' hn hn'
    rw [get?_markSubroutines, hn, Option.map_some, Option.some.injEq] at hn'
    rw [← hn']
  · intro p a n n' hn hn' ha
    rw [hmarked hn hn', reachesMark_iff hn]
    -- A successor that leads to a mark is another node than `a`.
    have hother : (∃ b ∈ n.successors, g.ReachesMark b) ↔
        ∃ b ∈ n.successors, b ≠ a ∧ g.ReachesMark b := by
      constructor
      · intro ⟨b, hb, hpath⟩
        exact ⟨b, hb, fun heq => ha (heq ▸ hpath), hpath⟩
      · intro ⟨b, hb, _, hpath⟩
        exact ⟨b, hb, hpath⟩
    rw [hother]

/-- A loop with a return in it, and a node that jumps to one which is called and does not return. -/
def jumpingToCalled : FlowGraph :=
  ([.addBranch 0x100 0x102, .addBranch 0x102 0x100, .addBranch 0x104 0x200, .addBranch 0x200 0x200,
    .setCallee 0x300 0x200] : List Operation).foldl operate {} |>.mapNodes fun n =>
      { n with isSubroutine := n.start == 0x102 }

theorem markSubroutines_exact_jumpingToCalled :
    jumpingToCalled.Built ∧ jumpingToCalled.MarkedFrom jumpingToCalled.markSubroutines ∧
      (jumpingToCalled.markSubroutines.get? 0x100).map (·.isSubroutine) = some true ∧
      (jumpingToCalled.markSubroutines.get? 0x200).map (·.isSubroutine) = some true ∧
      (jumpingToCalled.markSubroutines.get? 0x104).map (·.isSubroutine) = some false := by
  have hbuilt : jumpingToCalled.Built := (built_foldl_operate _ .empty).mapNodes fun _ => rfl
  have hexact := markSubroutines_exact hbuilt
  have hloop : jumpingToCalled.get? 0x100 =
      some { start := 0x100, successors := #[0x102], predecessors := #[0x102] } := by decide +kernel
  have hreturn : jumpingToCalled.get? 0x102 =
      some
        { start := 0x102
          successors := #[0x100]
          predecessors := #[0x100]
          isSubroutine := true } := by
    decide +kernel
  have hjump : jumpingToCalled.get? 0x104 =
      some { start := 0x104, successors := #[0x200] } := by decide +kernel
  have hcalled : jumpingToCalled.get? 0x200 =
      some
        { start := 0x200
          successors := #[0x200]
          predecessors := #[0x104, 0x200]
          callers := #[0x300] } := by
    decide +kernel
  have hnode : ∀ {a n}, jumpingToCalled.get? a = some n →
      ∃ n', jumpingToCalled.markSubroutines.get? a = some n' :=
    fun hn => contains_iff.mp ((hexact.nodes _).mpr (contains_iff.mpr ⟨_, hn⟩))
  -- The node that is called leads to itself only.
  have hstay : ∀ b, jumpingToCalled.Reaches 0x200 b → b = 0x200 := by
    intro b hb
    induction hb with
    | refl => rfl
    | tail _ hstep ih =>
      rw [ih, nodeAt_eq hcalled] at hstep
      simpa using hstep
  have hnone : ¬jumpingToCalled.ReachesMark 0x200 := by
    intro ⟨b, n, hn, hmark, hpath⟩
    rw [hstay b hpath, hcalled, Option.some.injEq] at hn
    rw [← hn] at hmark
    cases hmark
  refine ⟨hbuilt, hexact, ?_, ?_, ?_⟩
  · obtain ⟨n', hn'⟩ := hnode hloop
    have hpath : jumpingToCalled.ReachesMark 0x100 := by
      refine (reachesMark_iff hloop).mpr (.inr ⟨0x102, ?_, .of_marked hreturn rfl⟩)
      simp
    rw [hn', Option.map_some, (hexact.marked hloop hn').mpr (.inr hpath)]
  · obtain ⟨n', hn'⟩ := hnode hcalled
    rw [hn', Option.map_some, (hexact.marked hcalled hn').mpr (.inl (by simp))]
  · obtain ⟨n', hn'⟩ := hnode hjump
    have hnot : n'.isSubroutine ≠ true := by
      rw [ne_eq, hexact.bystander hjump hn' hnone]
      simp
    rw [hn', Option.map_some, Bool.eq_false_iff.mpr hnot]

end Z80Atlas.FlowGraph
