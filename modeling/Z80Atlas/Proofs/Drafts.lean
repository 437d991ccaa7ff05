import Z80Atlas.Proofs.Bodies
import Z80Atlas.Proofs.Collecting
import Z80Atlas.Proofs.Stretch

/-!
# Drafts of nodes

A node that has been filled holds a stretch of claimed instructions, of which only the first is a
node, and its edges are where control leaves behind the last one (`Survey.Filled`).  A draft gets
there one instruction at a time (`Survey.Drafted`), and is made a node once its edges are known.
-/

namespace Z80Atlas.Survey

variable {m : Memory} {v : Opcode.Variant} {k : Skips} {amb : Address → Prop}
  {s s' : Survey} {d : Draft}
variable {start a p : Address} {n : Node}

/-! ### Nodes and drafts -/

/-- The node holds the instructions from its start to the one at `p`, and its edges are where
control leaves. -/
structure Filled (m : Memory) (v : Opcode.Variant) (k : Skips) (s : Survey) (n : Node)
    (p : Address) : Prop where
  stretch : m.Stretch v k n.start n.instructions.toList p
  length : n.length = (n.instructions.toList.map (·.length)).sum
  stop : n.stop = (m.decode v p).halts
  interior : ∀ i ∈ n.instructions.toList, s.graph.contains i.address = true → i.address = n.start
  refs : ∀ i ∈ n.instructions.toList, ∀ t, i.RefersTo t → m.referent t ∈ n.dataRefs
  called : ∀ i ∈ n.instructions.toList, i.effects.call = true → ∀ u, i.branchTarget? = some u →
    n.callee = some u ∨ (m.Overlaps v u ∧ s.diagnostics.has .ambiguous u = true)
  callee : ∀ u, n.callee = some u → ∃ i ∈ n.instructions.toList, i.effects.call = true ∧
    i.branchTarget? = some u
  runs : ∀ b, (k.onward (m.decode v p)).next = some b → (m.marks b).opening = true →
    b ∈ n.successors
  linked : ∀ t ∈ n.successors, s.graph.contains t = true
  complete : ∀ t, k.Exit (m.decode v p) t →
    t ∈ n.successors ∨ (m.Overlaps v t ∧ s.diagnostics.has .ambiguous t = true)
  sound : ∀ t ∈ n.successors, k.Exit (m.decode v p) t ∨ (k.onward (m.decode v p)).next = some t

/-- What is known of a draft for the node at `start`, whichever instructions it holds. -/
structure Held (m : Memory) (v : Opcode.Variant) (s : Survey) (start : Address) (d : Draft) :
    Prop where
  length : d.length = (d.instructions.toList.map (·.length)).sum
  calls : d.calls = d.instructions.toList.any (·.effects.call)
  interior : ∀ i ∈ d.instructions.toList, s.graph.contains i.address = true → i.address = start
  refs : ∀ i ∈ d.instructions.toList, ∀ t, i.RefersTo t → m.referent t ∈ d.dataRefs
  called : ∀ i ∈ d.instructions.toList, i.effects.call = true → ∀ u, i.branchTarget? = some u →
    d.callee = some u ∨ (m.Overlaps v u ∧ s.diagnostics.has .ambiguous u = true)
  callee : ∀ u, d.callee = some u → s.graph.contains u = true ∧
    ∃ i ∈ d.instructions.toList, i.effects.call = true ∧ i.branchTarget? = some u

/-- A draft to which the instruction at `a` comes next, if it does. -/
inductive Drafted (m : Memory) (v : Opcode.Variant) (k : Skips) (s : Survey) (start : Address) :
    Address → Draft → Prop
  | begin : Drafted m v k s start start {}
  | goes {a p : Address} {d : Draft} (h : Held m v s start d)
      (hs : m.Stretch v k start d.instructions.toList p)
      (hn : (k.onward (m.decode v p)).next = some a)
      (hc : (m.decode v p).effects.call = true → (m.marks a).opening = true) (he : d.edges = #[])
      (hstop : d.stop = false) : Drafted m v k s start a d

/-- A draft with its edges makes a filled node. -/
theorem Held.filled (h : Held m v s start d) (hp : m.Stretch v k start d.instructions.toList p)
    (hstop : d.stop = (m.decode v p).halts)
    (hr : ∀ b, (k.onward (m.decode v p)).next = some b → (m.marks b).opening = true → b ∈ d.edges)
    (hl : ∀ t ∈ d.edges, s.graph.contains t = true)
    (hc : ∀ t, k.Exit (m.decode v p) t →
      t ∈ d.edges ∨ (m.Overlaps v t ∧ s.diagnostics.has .ambiguous t = true))
    (hs : ∀ t ∈ d.edges, k.Exit (m.decode v p) t ∨ (k.onward (m.decode v p)).next = some t)
    (label : Option String) :
    Filled m v k s (d.into { start := start, label := label }) p := by
  have hmem : ∀ t, t ∈ (d.into { start := start, label := label }).successors ↔ t ∈ d.edges := by
    intro t
    show t ∈ d.edges.toList.foldl addOnce #[] ↔ t ∈ d.edges
    rw [mem_foldl_addOnce]
    simp
  have hcallee : (d.into { start := start, label := label }).callee = d.callee := Option.or_none
  refine ⟨hp, h.length, hstop, h.interior, h.refs, ?_, ?_, ?_, ?_, ?_, ?_⟩
  · rw [hcallee]
    exact h.called
  · rw [hcallee]
    intro u hu
    exact (h.callee u hu).2
  · simp only [hmem]
    exact hr
  · simp only [hmem]
    exact hl
  · simp only [hmem]
    exact hc
  · simp only [hmem]
    exact hs

/-- A filled node stays one while nodes are made elsewhere. -/
theorem Filled.mono (h : Filled m v k s n p)
    (hc : ∀ {a}, s.graph.contains a = true → s'.graph.contains a = true)
    (ha : ∀ {a}, s.diagnostics.has .ambiguous a = true → s'.diagnostics.has .ambiguous a = true)
    (hi : ∀ i ∈ n.instructions.toList, s'.graph.contains i.address = true → i.address = n.start) :
    Filled m v k s' n p :=
  { h with
    interior := hi
    called := by
      intro i hmem hcall u hu
      cases h.called i hmem hcall u hu with
      | inl hcallee => exact .inl hcallee
      | inr hover => exact .inr ⟨hover.1, ha hover.2⟩
    linked := fun t ht => hc (h.linked t ht)
    complete := by
      intro t ht
      cases h.complete t ht with
      | inl hmem => exact .inl hmem
      | inr hover => exact .inr ⟨hover.1, ha hover.2⟩ }

theorem Filled.extends (h : Filled m v k s n p) (he : Extends m s s') : Filled m v k s' n p := by
  refine h.mono he.contains he.ambiguous ?_
  intro i hmem hcontains
  have ho := (h.stretch.of_mem i hmem).2
  exact h.interior i hmem ((he.contains_iff ho).mp hcontains)

/-! ### One more instruction -/

theorem held_empty (m : Memory) (v : Opcode.Variant) (s : Survey) (start : Address) :
    Held m v s start {} where
  length := rfl
  calls := rfl
  interior := by simp
  refs := by simp
  called := by simp
  callee := by simp

theorem Held.call_eq_false (h : Held m v s start d) (hd : d.calls = false) :
    ∀ i ∈ d.instructions.toList, i.effects.call = false := by
  intro i hi
  have hany := h.calls
  rw [hd] at hany
  simpa using List.any_eq_false.mp hany.symm i hi

theorem Drafted.held (h : Drafted m v k s start a d) : Held m v s start d := by
  cases h with
  | begin => exact held_empty m v s start
  | goes h _ _ _ _ _ => exact h

theorem Drafted.edges (h : Drafted m v k s start a d) : d.edges = #[] := by
  cases h with
  | begin => rfl
  | goes _ _ _ _ he _ => exact he

theorem Drafted.stop (h : Drafted m v k s start a d) : d.stop = false := by
  cases h with
  | begin => rfl
  | goes _ _ _ _ _ hstop => exact hstop

theorem Drafted.opening (h : Drafted m v k s start a d) :
    ∀ i ∈ d.instructions.toList, (m.marks i.address).opening = true := by
  cases h with
  | begin => simp
  | goes _ hs _ _ _ _ => exact fun i hi => (hs.of_mem i hi).2

/-- Putting the instruction at `a` behind the others makes a longer stretch. -/
theorem Drafted.stretch (h : Drafted m v k s start a d) (ho : (m.marks a).opening = true)
    (hcall : (m.decode v a).effects.call = true → d.calls = false) :
    m.Stretch v k start (d.instructions.toList ++ [m.decode v a]) a := by
  cases h with
  | begin => exact .one ho
  | goes hd hs hn _ _ _ => exact .more hs hn ho fun hc => hd.call_eq_false (hcall hc)

theorem Held.collect {R : Address → Prop} {i : Instruction} {r : (Survey × Draft) × Bool}
    (h : Held m v s start d) (hf : Followed m v k amb R s (d.push i) i r)
    (ho : (m.marks i.address).opening = true)
    (hopen : ∀ j ∈ d.instructions.toList, (m.marks j.address).opening = true)
    (hcall : i.effects.call = true → d.calls = false)
    (hbranch : i.effects.call = true → ∃ u, i.branchTarget? = some u)
    (hnode : s.graph.contains i.address = true → i.address = start)
    (hrefs : ∀ x, x ∈ r.1.2.dataRefs ↔ x ∈ d.dataRefs ∨ ∃ t, i.RefersTo t ∧ x = m.referent t) :
    Held m v r.1.1 start r.1.2 := by
  have hinstr : r.1.2.instructions.toList = d.instructions.toList ++ [i] := by
    rw [hf.instructions]
    exact Array.toList_push
  have hlength : r.1.2.length = d.length + i.length := hf.length
  have hcalls : r.1.2.calls = (d.calls || i.effects.call) := hf.calls
  refine ⟨?_, ?_, ?_, ?_, ?_, ?_⟩
  · rw [hlength, hinstr, h.length]
    simp
  · rw [hcalls, hinstr, h.calls]
    simp
  · intro j hj hcontains
    rw [hinstr, List.mem_append, List.mem_singleton] at hj
    cases hj with
    | inl hj => exact h.interior j hj ((hf.grown.contains_iff (hopen j hj)).mp hcontains)
    | inr hj =>
      subst hj
      exact hnode ((hf.grown.contains_iff ho).mp hcontains)
  · intro j hj t ht
    rw [hinstr, List.mem_append, List.mem_singleton] at hj
    rw [hrefs]
    cases hj with
    | inl hj => exact .inl (h.refs j hj t ht)
    | inr hj => exact .inr ⟨t, hj ▸ ht, rfl⟩
  · intro j hj hc u hu
    rw [hinstr, List.mem_append, List.mem_singleton] at hj
    cases hj with
    | inl hj =>
      have hi : i.effects.call = false := by
        cases hi : i.effects.call with
        | false => rfl
        | true => exact absurd (hc.symm.trans (h.call_eq_false (hcall hi) j hj)) (by decide)
      rw [hf.uncalled hi]
      cases h.called j hj hc u hu with
      | inl hcallee => exact .inl hcallee
      | inr hover => exact .inr ⟨hover.1, hf.grown.ambiguous hover.2⟩
    | inr hj =>
      subst hj
      cases hf.called hc u hu with
      | inl hr => exact .inl hr.1
      | inr hr => exact .inr hr.2
  · intro u hu
    rw [hinstr]
    have hold : d.callee = some u → r.1.1.graph.contains u = true ∧
        ∃ j ∈ d.instructions.toList ++ [i], j.effects.call = true ∧ j.branchTarget? = some u := by
      intro hcallee
      obtain ⟨hcontains, j, hj, hspec⟩ := h.callee u hcallee
      exact ⟨hf.grown.contains hcontains, j, List.mem_append_left _ hj, hspec⟩
    cases hc : i.effects.call with
    | false =>
      rw [hf.uncalled hc] at hu
      exact hold hu
    | true =>
      obtain ⟨t, ht⟩ := hbranch hc
      cases hf.called hc t ht with
      | inl hr =>
        rw [hr.1, Option.some.injEq] at hu
        subst hu
        exact ⟨hr.2, i, by simp, hc, ht⟩
      | inr hr =>
        rw [hr.1] at hu
        exact hold hu

end Z80Atlas.Survey
