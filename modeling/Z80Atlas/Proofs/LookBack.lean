import Z80Atlas.Proofs.Marking
import Z80Atlas.Proofs.Lawful

/-!
# Looking back for an instruction

A byte of code belongs to one claimed instruction, which starts at most three bytes before it.  No
other instruction starts between the two, so the nearest opening that is found by looking back is
the start of that instruction.
-/

namespace Z80Atlas.Memory

variable {m m' : Memory} {v : Opcode.Variant} {a b start : Address}

theorem toNat_sub_one {a : Address} (h : 0 < a.toNat) : (a - 1).toNat = a.toNat - 1 :=
  UInt16.toNat_sub_of_le a 1 (UInt16.le_iff_toNat_le.mpr h)

theorem openingBefore_le {back : Nat} (h : m.openingBefore a back = some start) :
    start.toNat ≤ a.toNat := by
  induction back generalizing a with
  | zero =>
    rw [openingBefore] at h
    split at h
    · cases h
      exact Nat.le_refl _
    · cases h
  | succ back ih =>
    rw [openingBefore] at h
    split at h
    · cases h
      exact Nat.le_refl _
    · split at h
      · cases h
      next hzero =>
        have hpos : a.toNat ≠ 0 := fun hnat => hzero (UInt16.toNat_inj.mp hnat)
        have hpred := toNat_sub_one (a := a) (by omega)
        have hle := ih h
        omega

theorem openingBefore_eq_some {back : Nat} (hs : (m.marks start).opening = true)
    (hle : start.toNat ≤ a.toNat) (hback : a.toNat ≤ start.toNat + back)
    (hnone : ∀ x : Address, start.toNat < x.toNat → x.toNat ≤ a.toNat →
      (m.marks x).opening = false) :
    m.openingBefore a back = some start := by
  induction back generalizing a with
  | zero =>
    have heq : start = a := UInt16.toNat_inj.mp (by omega)
    rw [openingBefore, ← heq, if_pos hs]
  | succ back ih =>
    rw [openingBefore]
    by_cases heq : start = a
    · rw [← heq, if_pos hs]
    · have hne : start.toNat ≠ a.toNat := fun h => heq (UInt16.toNat_inj.mp h)
      have hpred := toNat_sub_one (a := a) (by omega)
      have hzero : a ≠ 0 := by
        intro h
        have hnat : a.toNat = 0 := congrArg UInt16.toNat h
        omega
      have hclosed := hnone a (by omega) (Nat.le_refl _)
      rw [hclosed, if_neg Bool.false_ne_true, if_neg hzero]
      refine ih (by omega) (by omega) ?_
      intro x hlt hx
      exact hnone x hlt (by omega)

theorem Parsed.instructionAt?_eq (h : m.Parsed v) (hs : (m.marks start).opening = true)
    (hc : m.Covers v start b) :
    m.instructionAt? b = some start := by
  have hlength := m.length_decode_le v start
  have hle := hc.1
  have hlt := hc.2
  refine openingBefore_eq_some hs hle ?_ ?_
  · show b.toNat ≤ start.toNat + 3
    omega
  · intro x hx hxb
    rw [← Bool.not_eq_true]
    intro hopen
    have hsame := h.apart hs hopen ⟨by omega, by omega⟩
    rw [hsame] at hx
    omega

/-- Where the instruction starts that a byte of code belongs to. -/
theorem Parsed.exists_instruction (h : m.Parsed v) (hb : (m.marks b).code = true) :
    ∃ start, (m.marks start).opening = true ∧ m.Covers v start b ∧
    m.instructionAt? b = some start := by
  rw [h.code_eq, h.traced_iff] at hb
  obtain ⟨start, hs, hc⟩ := hb
  exact ⟨start, hs, hc, h.instructionAt?_eq hs hc⟩

theorem SameCode.parsed (h : SameCode m m') (hp : m.Parsed v) : m'.Parsed v := by
  have hcovers := covers_congr h.byte v
  refine ⟨?_, ?_, ?_, ?_⟩
  · intro a ha
    rw [h.opening] at ha
    exact (h.fullyLoaded_iff a).mpr (hp.loaded ha)
  · intro a b ha hb hc
    rw [h.opening] at ha hb
    exact hp.apart ha hb ((hcovers a b).mp hc)
  · intro b
    simp only [h.traced, h.opening, hcovers]
    exact hp.traced_iff b
  · intro b
    rw [h.code, h.traced, hp.code_eq]

theorem SameCode.openingBefore_eq (h : SameCode m m') (a : Address) (back : Nat) :
    m'.openingBefore a back = m.openingBefore a back := by
  induction back generalizing a with
  | zero => rw [openingBefore, openingBefore, h.opening]
  | succ back ih => rw [openingBefore, openingBefore, h.opening, ih]

theorem SameCode.referent_eq (h : SameCode m m') (a : Address) : m'.referent a = m.referent a := by
  unfold referent instructionAt?
  rw [h.code, h.openingBefore_eq]

/-- A reference into the code is a reference to the instruction that it hits. -/
theorem Parsed.referent_eq (h : m.Parsed v) (hs : (m.marks start).opening = true)
    (hc : m.Covers v start b) :
    m.referent b = start := by
  have hcode : (m.marks b).code = true := by
    rw [h.code_eq, h.traced_iff]
    exact ⟨start, hs, hc⟩
  unfold referent
  rw [if_pos hcode, h.instructionAt?_eq hs hc, Option.getD_some]

end Z80Atlas.Memory
