import Z80Atlas.Proofs.Lawful

/-!
# Where control goes from an instruction

`Skips.Successor` says from the flags of an instruction alone where control can go next, and
`Skips.Junction` which of these places a node has to start at.  Together they are what
`Skips.onward` computes: the junctions are its targets, and the other successors are where it goes
straight on.
-/

namespace Z80Atlas

namespace Skips

/-- Where control can go next from an instruction. -/
inductive Successor (k : Skips) (i : Instruction) (t : Address) : Prop
  /-- The target of a branch, call or restart. -/
  | target (h : i.branchTarget? = some t)
  /-- Behind a call, or behind a branch that does not stop: past the data that stands there. -/
  | landing (hb : i.effects.branch = true) (hs : i.effects.call = true ∨ i.effects.stop = false)
      (h : k.landingAfter i = some t)
  /-- Behind a return that depends on a condition. -/
  | conditional (hr : i.effects.ret = true) (hc : i.effects.conditional = true)
      (h : i.next? = some t)
  /-- Behind an instruction that does not concern the flow of control. -/
  | straight (hb : i.effects.branch = false) (hr : i.effects.ret = false)
      (hs : i.effects.stop = false) (h : i.next? = some t)

/-- The successors at which a node has to start: targets, where control goes on if a condition
fails, and where a call comes back to if data had to be stepped over. -/
inductive Junction (k : Skips) (i : Instruction) (t : Address) : Prop
  | target (h : i.branchTarget? = some t)
  | landing (hb : i.effects.branch = true) (hc : i.effects.call = false)
      (hs : i.effects.stop = false) (h : k.landingAfter i = some t)
  | conditional (hr : i.effects.ret = true) (hc : i.effects.conditional = true)
      (h : i.next? = some t)
  | moved (hc : i.effects.call = true) (h : k.landingAfter i = some t) (hm : i.next? ≠ some t)

variable {k : Skips} {i : Instruction} {t : Address}

theorem onward_of_call {target : Address} (hc : i.course = .call target) :
    (k.landingAfter i = i.next? ∧ i.next?.isSome = true ∧ (k.onward i).targets = [target] ∧
      (k.onward i).next = i.next?) ∨
    ((i.next?.isSome = true → k.landingAfter i ≠ i.next?) ∧
      (k.onward i).targets = target :: (k.landingAfter i).toList ∧ (k.onward i).next = none) := by
  unfold onward
  rw [hc]
  dsimp only
  split
  next h =>
    simp only [Bool.and_eq_true, decide_eq_true_eq] at h
    exact .inl ⟨h.2, h.2 ▸ h.1, rfl, rfl⟩
  next h =>
    refine .inr ⟨?_, rfl, rfl⟩
    intro hsome heq
    exact h (by simp [hsome, heq])

theorem mem_targets_iff (h : i.Lawful) : t ∈ (k.onward i).targets ↔ k.Junction i t := by
  obtain ⟨hc, hb, hcall, hr, hs⟩ | ⟨u, hc, hu, hb, hcall, hr, hs⟩ | ⟨u, hc, hu, hb, hcall, hr⟩ |
    ⟨hc, hb, hcall, hr⟩ | ⟨hc, hb, hcall, hr, hs⟩ := h.course_cases
  · have hnone : (k.onward i).targets = [] := by simp [onward, hc]
    rw [hnone]
    constructor
    · intro ht
      cases ht
    · rintro (ht | ht | ht | ht) <;> simp_all [Instruction.branchTarget?]
  · rcases onward_of_call (k := k) hc with ⟨heq, hsome, htargets, -⟩ | ⟨hne, htargets, -⟩
    · rw [htargets, List.mem_singleton]
      constructor
      · rintro rfl
        exact .target hu
      · rintro (ht | ht | ht | ht) <;> simp_all
    · rw [htargets, List.mem_cons, Option.mem_toList]
      constructor
      · rintro (rfl | ht)
        · exact .target hu
        · refine .moved hcall ht ?_
          intro hn
          exact hne (by rw [hn]; rfl) (by rw [ht, hn])
      · rintro (ht | ht | ht | ht) <;> simp_all
  · have htargets :
        (k.onward i).targets = u :: (if i.effects.stop then [] else (k.landingAfter i).toList) := by
      cases hstop : i.effects.stop <;> simp [onward, hc, hstop]
    rw [htargets, List.mem_cons]
    constructor
    · rintro (rfl | ht)
      · exact .target hu
      · split at ht
        · cases ht
        next hs => exact .landing hb hcall (by simpa using hs) (Option.mem_toList.mp ht)
    · rintro (ht | ht | ht | ht) <;> simp_all
  · have htargets : (k.onward i).targets =
        if i.effects.conditional then i.next?.toList else [] := by
      simp [onward, hc]
    rw [htargets]
    constructor
    · intro ht
      split at ht
      next hcond => exact .conditional hr hcond (Option.mem_toList.mp ht)
      · cases ht
    · rintro (ht | ht | ht | ht) <;> simp_all [Instruction.branchTarget?]
  · have hnone : (k.onward i).targets = [] := by simp [onward, hc]
    rw [hnone]
    constructor
    · intro ht
      cases ht
    · rintro (ht | ht | ht | ht) <;> simp_all [Instruction.branchTarget?]

theorem next_eq_some_iff (h : i.Lawful) :
    (k.onward i).next = some t ↔
      i.next? = some t ∧
        ((i.effects.branch = false ∧ i.effects.ret = false ∧ i.effects.stop = false) ∨
          (i.effects.call = true ∧ k.landingAfter i = some t)) := by
  obtain ⟨hc, hb, hcall, hr, hs⟩ | ⟨u, hc, hu, hb, hcall, hr, hs⟩ | ⟨u, hc, hu, hb, hcall, hr⟩ |
    ⟨hc, hb, hcall, hr⟩ | ⟨hc, hb, hcall, hr, hs⟩ := h.course_cases
  · simp [onward, hc, hb, hr, hs]
  · rcases onward_of_call (k := k) hc with ⟨heq, hsome, -, hnext⟩ | ⟨hne, -, hnext⟩
    · rw [hnext, heq]
      simp [hb, hcall]
    · rw [hnext]
      simp only [reduceCtorEq, false_iff, hb, hcall]
      rintro ⟨hn, hl⟩
      simp only [false_and, true_and, false_or] at hl
      exact hne (by rw [hn]; rfl) (by rw [hl, hn])
  · simp [onward, hc, hb, hcall]
  · simp [onward, hc, hcall, hr]
  · simp [onward, hc, hcall, hs]

theorem successor_iff (h : i.Lawful) :
    k.Successor i t ↔ t ∈ (k.onward i).targets ∨ (k.onward i).next = some t := by
  rw [mem_targets_iff h, next_eq_some_iff h]
  constructor
  · intro hsucc
    cases hsucc with
    | target ht => exact .inl (.target ht)
    | landing hb hs hl =>
      cases hc : i.effects.call with
      | true =>
        by_cases hn : i.next? = some t
        · exact .inr ⟨hn, .inr ⟨rfl, hl⟩⟩
        · exact .inl (.moved hc hl hn)
      | false => exact .inl (.landing hb hc (by simpa [hc] using hs) hl)
    | conditional hr hc hn => exact .inl (.conditional hr hc hn)
    | straight hb hr hs hn => exact .inr ⟨hn, .inl ⟨hb, hr, hs⟩⟩
  · rintro (hj | ⟨hn, ⟨hb, hr, hs⟩ | ⟨hc, hl⟩⟩)
    · cases hj with
      | target ht => exact .target ht
      | landing hb hc hs hl => exact .landing hb (.inr hs) hl
      | conditional hr hc hn => exact .conditional hr hc hn
      | moved hc hl hm => exact .landing (h.branch_of_call hc) (.inl hc) hl
    · exact .straight hb hr hs hn
    · exact .landing (h.branch_of_call hc) (.inl hc) hl

end Skips

end Z80Atlas
