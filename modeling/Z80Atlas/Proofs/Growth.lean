import Z80Atlas.Proofs.Bodies

/-!
# What filling keeps

Filling touches the graph in four ways: it has nodes start, puts instructions into them, and adds
edges of two kinds.  A property of graphs that each of these keeps is true of the graph at the end
if it was true at the beginning.
-/

namespace Z80Atlas.FlowGraph

/-- The property is kept by all that filling does to a graph. -/
structure Kept (P : FlowGraph → Prop) : Prop where
  ensure : ∀ {g : FlowGraph} (a : Address), P g → P (g.ensure a)
  fill : ∀ {g : FlowGraph} (a : Address) (d : Draft), P g → P (g.modify a d.fill)
  addBranch : ∀ {g : FlowGraph} (source target : Address), P g → P (g.addBranch source target)
  setCallee : ∀ {g : FlowGraph} (source target : Address), P g → P (g.setCallee source target)

namespace Kept

variable {P : FlowGraph → Prop} {s : Survey}

theorem resolve (hk : Kept P) (h : P s.graph) (t : Address) : P (s.resolve t).1.graph := by
  unfold Survey.resolve
  split
  · exact h
  · split
    · exact hk.ensure t h
    · split
      · exact h
      · exact hk.ensure t h

theorem link (hk : Kept P) (h : P s.graph) (d : Draft) (t : Address) : P (s.link d t).1.graph := by
  unfold Survey.link
  dsimp only
  split <;> exact hk.resolve h t

theorem linkAll (hk : Kept P) (h : P s.graph) (d : Draft) (o : Option Address) :
    P (s.linkAll d o).1.graph := by
  cases o with
  | none => exact h
  | some t => exact hk.link h d t

theorem follow (hk : Kept P) (h : P s.graph) (d : Draft) (i : Instruction) :
    P (s.follow d i).1.1.graph := by
  unfold Survey.follow
  cases i.course with
  | onward => exact h
  | call t =>
    dsimp only
    split
    · split
      · exact hk.resolve h t
      · exact hk.link (hk.resolve h t) _ _
    · exact hk.resolve h t
  | branch t falls =>
    dsimp only
    split
    · exact hk.linkAll (hk.link h d t) _ _
    · exact hk.link h d t
  | ret falls =>
    dsimp only
    split
    · refine hk.linkAll ?_ _ _
      exact h
    · exact h
  | stop => exact h

theorem collect (hk : Kept P) (h : P s.graph) (d : Draft) (i : Instruction) :
    P (s.collect d i).1.1.graph := by
  unfold Survey.collect
  refine hk.follow ?_ _ i
  unfold Survey.noteData
  split <;> exact h

theorem fillFrom (hk : Kept P) (h : P s.graph) (start a : Address) (d : Draft) :
    P (s.fillFrom start a d).1.graph := by
  fun_induction Survey.fillFrom s start a d with
  | case1 => exact h
  | case2 => exact h
  | case3 s a d _ _ _ => exact hk.ensure a h
  | case4 s a d _ _ _ r c _ _ ih => exact ih (hk.collect h d _)
  | case5 s a d _ _ _ r c _ _ => exact hk.collect h d _
  | case6 s a d _ _ _ r _ => exact hk.collect h d _

theorem foldl_addBranch (hk : Kept P) {g : FlowGraph} (h : P g) (source : Address)
    (targets : List Address) :
    P (targets.foldl (fun g t => g.addBranch source t) g) := by
  induction targets generalizing g with
  | nil => exact h
  | cons t rest ih => exact ih (hk.addBranch source t h)

theorem settle (hk : Kept P) (h : P s.graph) (start : Address) (d : Draft) :
    P (s.settle start d).graph := by
  rw [Survey.graph_settle]
  refine hk.foldl_addBranch ?_ start _
  have hfill := hk.fill start d h
  cases d.callee with
  | none => exact hfill
  | some t => exact hk.setCallee start t hfill

theorem fillPending (hk : Kept P) (h : P s.graph) : P s.fillPending.graph := by
  fun_induction Survey.fillPending s with
  | case1 => exact h
  | case2 s b rest _ _ ih => exact ih h
  | case3 s b rest _ _ ih =>
    refine ih (hk.settle (hk.fillFrom ?_ b b {}) b _)
    exact h

/-- What is true when nodes have been started and named is true of the chart. -/
theorem chart (hk : Kept P) (entries : List Address) (names : NameTable)
    (h : P ((s.discover entries).seed names).1.graph) : P (s.chart entries names).1.graph :=
  hk.fillPending h

end Kept

end Z80Atlas.FlowGraph
