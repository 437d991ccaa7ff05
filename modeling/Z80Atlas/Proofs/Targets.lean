import Z80Atlas.Flow.Fill
import Z80Atlas.Proofs.LookBack
import Z80Atlas.Proofs.Successors

/-!
# Resolving targets

While nodes are being filled, a target that has no node is looked up in the marks: it is claimed, it
overlaps what is there, or it is missing.  Which of these it is depends on the claimed code alone,
so the diagnostics and the empty nodes are determined by the set of targets that have been resolved,
in whatever order that happened (`Survey.Tally`).
-/

namespace Z80Atlas

namespace Memory

variable {m : Memory} {v : Opcode.Variant} {t : Address}

/-- Something is loaded or visited at `t`, but no claimed instruction starts there. -/
def Overlaps (m : Memory) (v : Opcode.Variant) (t : Address) : Prop :=
  (m.marks t).opening = false ∧ ((m.marks t).traced = true ∨ m.FullyLoaded v t)

/-- The instruction at `t` has not been loaded as a whole, and its first byte has not been
visited. -/
def Missing (m : Memory) (v : Opcode.Variant) (t : Address) : Prop :=
  (m.marks t).traced = false ∧ ¬m.FullyLoaded v t

theorem Parsed.opening_of_missing (h : m.Parsed v) (ht : m.Missing v t) :
    (m.marks t).opening = false := by
  cases ho : (m.marks t).opening with
  | false => rfl
  | true => exact absurd (h.loaded ho) ht.2

theorem not_missing_of_overlaps (h : m.Overlaps v t) : ¬m.Missing v t := by
  intro hm
  cases h.2 with
  | inl ht => exact absurd (ht.symm.trans hm.1) (by decide)
  | inr hl => exact hm.2 hl

end Memory

namespace Survey

/-- What filling has found once the targets `R` have been resolved.  The memory `m` holds the
claimed code, and the addresses `amb` were ambiguous before. -/
structure Tally (m : Memory) (v : Opcode.Variant) (k : Skips) (amb R : Address → Prop)
    (s : Survey) : Prop where
  variant : s.variant = v
  skips : s.skips = k
  parsed : m.Parsed v
  same : m.SameCode s.memory
  ambiguous : ∀ t, s.diagnostics.has .ambiguous t = true ↔ amb t ∨ (R t ∧ m.Overlaps v t)
  unassigned : ∀ t, s.diagnostics.has .unassigned t = true ↔ R t ∧ m.Missing v t
  noted : ∀ d ∈ s.diagnostics.toList, d = .ambiguousAt d.address ∨ d = .unassignedAt d.address
  distinct : s.diagnostics.toList.Nodup
  vacant : ∀ t, (m.marks t).opening = false → (s.graph.contains t = true ↔ R t ∧ m.Missing v t)

/-- A later state of filling, before anything is put into a node: all nodes are as they were, and
new ones are empty and stand where no instruction was claimed. -/
structure Extends (m : Memory) (s s' : Survey) : Prop where
  kept : ∀ {a n}, s.graph.get? a = some n → s'.graph.get? a = some n
  made : ∀ {a n}, s'.graph.get? a = some n →
    s.graph.get? a = some n ∨ ((m.marks a).opening = false ∧ n = { start := a })
  pending : s'.pending = s.pending
  filled : ∀ {a}, (m.marks a).opening = true → (a ∈ s'.filled ↔ a ∈ s.filled)
  ambiguous : ∀ {a}, s.diagnostics.has .ambiguous a = true → s'.diagnostics.has .ambiguous a = true

variable {m : Memory} {v : Opcode.Variant} {k : Skips} {amb R : Address → Prop}
  {s s' s'' : Survey} {t : Address}

namespace Extends

theorem refl (m : Memory) (s : Survey) : Extends m s s := ⟨id, .inl, rfl, fun _ => Iff.rfl, id⟩

theorem trans (h : Extends m s s') (h' : Extends m s' s'') : Extends m s s'' where
  kept hn := h'.kept (h.kept hn)
  made := by
    intro a n hn
    cases h'.made hn with
    | inl hold => exact h.made hold
    | inr hnew => exact .inr hnew
  pending := h'.pending.trans h.pending
  filled ha := (h'.filled ha).trans (h.filled ha)
  ambiguous ha := h'.ambiguous (h.ambiguous ha)

theorem contains (h : Extends m s s') {a : Address} (ha : s.graph.contains a = true) :
    s'.graph.contains a = true := by
  obtain ⟨n, hn⟩ := FlowGraph.contains_iff.mp ha
  exact FlowGraph.contains_iff.mpr ⟨n, h.kept hn⟩

theorem contains_iff (h : Extends m s s') {a : Address} (ho : (m.marks a).opening = true) :
    s'.graph.contains a = true ↔ s.graph.contains a = true := by
  constructor
  · intro ha
    obtain ⟨n, hn⟩ := FlowGraph.contains_iff.mp ha
    cases h.made hn with
    | inl hold => exact FlowGraph.contains_iff.mpr ⟨n, hold⟩
    | inr hnew => exact absurd (ho.symm.trans hnew.1) (by decide)
  · exact h.contains

end Extends

theorem Tally.congr {R' : Address → Prop} (h : Tally m v k amb R s) (hr : ∀ u, R u ↔ R' u) :
    Tally m v k amb R' s := by
  have heq : R = R' := funext fun u => propext (hr u)
  rw [← heq]
  exact h

/-- Only the survey's findings about targets matter to the tally. -/
theorem Tally.of_memory {mem : Memory} (h : Tally m v k amb R s) (hs : s.memory.SameCode mem) :
    Tally m v k amb R { s with memory := mem } :=
  { h with same := h.same.trans hs }

theorem Tally.sameBank (h : Tally m v k amb R s) :
    ∀ d ∈ s.diagnostics.toList, d.kind ≠ .differentBank := by
  intro d hd hkind
  cases h.noted d hd with
  | inl heq =>
    rw [heq] at hkind
    cases hkind
  | inr heq =>
    rw [heq] at hkind
    cases hkind

/-- The three ways of resolving a target: it has a node, it overlaps, or it is missing.  A claimed
instruction has its node already. -/
theorem Tally.resolve_cases (h : Tally m v k amb R s)
    (ho : (m.marks t).opening = true → s.graph.contains t = true) :
    (s.resolve t = (s, some t) ∧ s.graph.contains t = true) ∨
    (s.resolve t = (s.note (.ambiguousAt t), none) ∧ m.Overlaps v t) ∨
    (s.resolve t = (s.reserve t, some t) ∧ (m.marks t).opening = false ∧ m.Missing v t) := by
  unfold resolve
  cases hc : s.graph.contains t with
  | true => exact .inl ⟨rfl, rfl⟩
  | false =>
    have hclosed : (m.marks t).opening = false := by
      cases hopen : (m.marks t).opening with
      | false => rfl
      | true => exact absurd (hc.symm.trans (ho hopen)) (by decide)
    have hopening : (s.memory.marks t).opening = false := (h.same.opening t).trans hclosed
    simp only [Bool.false_eq_true, if_false, hopening]
    split
    next htaken =>
      refine .inr (.inl ⟨rfl, hclosed, ?_⟩)
      rw [Bool.or_eq_true, h.same.traced, Memory.isLoaded_iff, h.variant,
        h.same.fullyLoaded_iff] at htaken
      exact htaken
    next hfree =>
      refine .inr (.inr ⟨rfl, hclosed, ?_⟩)
      rw [Bool.or_eq_true, h.same.traced, Memory.isLoaded_iff, h.variant, h.same.fullyLoaded_iff,
        not_or] at hfree
      exact ⟨by simpa using hfree.1, hfree.2⟩

/-- Resolving one more target concerns what is said of that target only. -/
theorem resolved_or_iff {P : Address → Prop} {u : Address} (h : P t → R t) :
    (R u ∨ u = t) ∧ P u ↔ R u ∧ P u := by
  constructor
  · intro ⟨hr, hp⟩
    cases hr with
    | inl hold => exact ⟨hold, hp⟩
    | inr heq =>
      subst heq
      exact ⟨h hp, hp⟩
  · intro ⟨hr, hp⟩
    exact ⟨.inl hr, hp⟩

theorem resolved_or_iff_of {P : Address → Prop} {u : Address} (h : P t) :
    (R u ∨ u = t) ∧ P u ↔ (R u ∧ P u) ∨ u = t := by
  constructor
  · intro ⟨hr, hp⟩
    cases hr with
    | inl hold => exact .inl ⟨hold, hp⟩
    | inr heq => exact .inr heq
  · intro hr
    cases hr with
    | inl hold => exact ⟨.inl hold.1, hold.2⟩
    | inr heq =>
      subst heq
      exact ⟨.inr rfl, h⟩

theorem Tally.resolve (h : Tally m v k amb R s)
    (ho : (m.marks t).opening = true → s.graph.contains t = true) :
    Tally m v k amb (fun u => R u ∨ u = t) (s.resolve t).1 := by
  obtain ⟨hr, hc⟩ | ⟨hr, hover⟩ | ⟨hr, hclosed, hmiss⟩ := h.resolve_cases ho
  · -- Nothing changes: a target with a node overlaps nothing, and if it is missing it was resolved
    -- before.
    rw [hr]
    have hover : m.Overlaps v t → R t := by
      intro hov
      exact absurd ((h.vacant t hov.1).mp hc).2 (Memory.not_missing_of_overlaps hov)
    have hmiss : m.Missing v t → R t := by
      intro hm
      exact ((h.vacant t (h.parsed.opening_of_missing hm)).mp hc).1
    refine { h with ambiguous := ?_, unassigned := ?_, vacant := ?_ }
    · intro u
      rw [resolved_or_iff hover]
      exact h.ambiguous u
    · intro u
      rw [resolved_or_iff hmiss]
      exact h.unassigned u
    · intro u hu
      rw [resolved_or_iff hmiss]
      exact h.vacant u hu
  · rw [hr]
    have hmiss : m.Missing v t → R t := fun hm => absurd hm (Memory.not_missing_of_overlaps hover)
    refine { h with ambiguous := ?_, unassigned := ?_, noted := ?_, distinct := ?_, vacant := ?_ }
    · intro u
      rw [resolved_or_iff_of hover, ← or_assoc, ← h.ambiguous u]
      simp [note, Diagnostics.has_add, Diagnostic.ambiguousAt, eq_comm (a := t)]
    · intro u
      rw [resolved_or_iff hmiss, ← h.unassigned u]
      simp [note, Diagnostics.has_add, Diagnostic.ambiguousAt]
    · intro d hd
      cases Diagnostics.mem_toList_add hd with
      | inl hold => exact h.noted d hold
      | inr hnew =>
        subst hnew
        exact .inl rfl
    · exact Diagnostics.nodup_add _ h.distinct
    · intro u hu
      rw [resolved_or_iff hmiss]
      exact h.vacant u hu
  · rw [hr]
    have hover : m.Overlaps v t → R t :=
      fun hov => absurd hmiss (Memory.not_missing_of_overlaps hov)
    refine { h with ambiguous := ?_, unassigned := ?_, noted := ?_, distinct := ?_, vacant := ?_ }
    · intro u
      rw [resolved_or_iff hover, ← h.ambiguous u]
      simp [reserve, note, Diagnostics.has_add, Diagnostic.unassignedAt]
    · intro u
      rw [resolved_or_iff_of hmiss, ← h.unassigned u]
      simp [reserve, note, Diagnostics.has_add, Diagnostic.unassignedAt, eq_comm (a := t)]
    · intro d hd
      cases Diagnostics.mem_toList_add hd with
      | inl hold => exact h.noted d hold
      | inr hnew =>
        subst hnew
        exact .inr rfl
    · exact Diagnostics.nodup_add _ h.distinct
    · intro u hu
      rw [resolved_or_iff_of hmiss, ← h.vacant u hu]
      exact FlowGraph.contains_ensure

theorem Tally.extends_resolve (h : Tally m v k amb R s)
    (ho : (m.marks t).opening = true → s.graph.contains t = true) :
    Extends m s (s.resolve t).1 := by
  obtain ⟨hr, -⟩ | ⟨hr, -⟩ | ⟨hr, hclosed, -⟩ := h.resolve_cases ho
  · rw [hr]
    exact .refl m s
  · rw [hr]
    exact ⟨id, .inl, rfl, fun _ => Iff.rfl, fun ha => Diagnostics.has_add.mpr (.inl ha)⟩
  · rw [hr]
    refine ⟨?_, ?_, rfl, ?_, fun ha => Diagnostics.has_add.mpr (.inl ha)⟩
    · intro a n hn
      show (s.graph.ensure t).get? a = some n
      rw [FlowGraph.get?_ensure]
      split
      · rw [hn, Option.getD_some]
      · exact hn
    · intro a n hn
      have hget : (s.graph.ensure t).get? a = some n := hn
      rw [FlowGraph.get?_ensure] at hget
      split at hget
      next hta =>
        subst hta
        cases hg : s.graph.get? t with
        | none =>
          rw [hg, Option.getD_none, Option.some.injEq] at hget
          exact .inr ⟨hclosed, hget.symm⟩
        | some n' =>
          rw [hg, Option.getD_some] at hget
          exact .inl hget
      next => exact .inl hget
    · intro a ha
      have hne : a ≠ t := by
        intro heq
        subst heq
        exact absurd (ha.symm.trans hclosed) (by decide)
      show a ∈ s.filled.insert t ↔ a ∈ s.filled
      rw [AddressSet.mem_insert]
      simp [hne]

/-- A target is resolved to itself, or to nothing if it overlaps, and then it is ambiguous. -/
theorem Tally.resolve_spec (h : Tally m v k amb R s)
    (ho : (m.marks t).opening = true → s.graph.contains t = true) :
    ((s.resolve t).2 = some t ∧ (s.resolve t).1.graph.contains t = true) ∨
      ((s.resolve t).2 = none ∧ m.Overlaps v t ∧
        (s.resolve t).1.diagnostics.has .ambiguous t = true) := by
  obtain ⟨hr, hc⟩ | ⟨hr, hover⟩ | ⟨hr, -⟩ := h.resolve_cases ho
  · rw [hr]
    exact .inl ⟨rfl, hc⟩
  · rw [hr]
    exact .inr ⟨rfl, hover, Diagnostics.has_add.mpr (.inr ⟨rfl, rfl⟩)⟩
  · rw [hr]
    exact .inl ⟨rfl, FlowGraph.contains_ensure.mpr (.inr rfl)⟩

end Survey

end Z80Atlas
