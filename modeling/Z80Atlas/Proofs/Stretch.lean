import Mathlib.Algebra.GroupWithZero.Nat
import Mathlib.Data.List.Chain
import Z80Atlas.Proofs.Marking
import Z80Atlas.Proofs.Successors

/-!
# Stretches of code

A stretch is what a node holds: claimed instructions one behind the other, where control goes
straight on from each to the next and no more than one is a call.  A stretch is read off a memory
and the skips alone.  It lists every claimed instruction between its ends, because claimed
instructions do not overlap.
-/

namespace Z80Atlas.Memory

variable {m : Memory} {v : Opcode.Variant} {k : Skips} {start p a b : Address}
  {is : List Instruction}

/-- The instructions from `start` up to the one at `p`. -/
inductive Stretch (m : Memory) (v : Opcode.Variant) (k : Skips) (start : Address) :
    List Instruction → Address → Prop
  | one (ho : (m.marks start).opening = true) : Stretch m v k start [m.decode v start] start
  | more {is : List Instruction} {p a : Address} (h : Stretch m v k start is p)
      (hn : (k.onward (m.decode v p)).next = some a) (ho : (m.marks a).opening = true)
      (hc : (m.decode v a).effects.call = true → ∀ i ∈ is, i.effects.call = false) :
      Stretch m v k start (is ++ [m.decode v a]) a

/-- The first position behind the instruction at an address. -/
def behind (m : Memory) (v : Opcode.Variant) (a : Address) : Nat := a.toNat + (m.decode v a).length

theorem lt_behind (m : Memory) (v : Opcode.Variant) (a : Address) : a.toNat < m.behind v a :=
  Nat.lt_add_of_pos_right (m.length_decode_pos v a)

theorem toNat_of_next (h : (k.onward (m.decode v p)).next = some a) : a.toNat = m.behind v p :=
  Address.after?_eq_some_iff.mp (Skips.next_onward h)

theorem lt_of_next (h : (k.onward (m.decode v p)).next = some a) : p.toNat < a.toNat := by
  rw [toNat_of_next h]
  exact m.lt_behind v p

/-- Claimed instructions that overlap are the same. -/
theorem Parsed.eq_of_overlap (h : m.Parsed v) (ha : (m.marks a).opening = true)
    (hb : (m.marks b).opening = true) (hab : a.toNat < m.behind v b)
    (hba : b.toNat < m.behind v a) : a = b := by
  by_cases hle : a.toNat ≤ b.toNat
  · exact h.apart ha hb ⟨hle, hba⟩
  · exact (h.apart hb ha ⟨by omega, hab⟩).symm

theorem Parsed.eq_of_covers {x : Address} (h : m.Parsed v) (ha : (m.marks a).opening = true)
    (hb : (m.marks b).opening = true) (hax : m.Covers v a x) (hbx : m.Covers v b x) : a = b :=
  h.eq_of_overlap ha hb (Nat.lt_of_le_of_lt hax.1 hbx.2) (Nat.lt_of_le_of_lt hbx.1 hax.2)

theorem Parsed.behind_inj (h : m.Parsed v) (ha : (m.marks a).opening = true)
    (hb : (m.marks b).opening = true) (hsame : m.behind v a = m.behind v b) : a = b := by
  refine h.eq_of_overlap ha hb ?_ ?_
  · rw [← hsame]
    exact m.lt_behind v a
  · rw [hsame]
    exact m.lt_behind v b

/-- Control comes straight on to an instruction from one claimed instruction at most. -/
theorem Parsed.next_inj {q : Address} (h : m.Parsed v) (hp : (m.marks p).opening = true)
    (hq : (m.marks q).opening = true) (hpa : (k.onward (m.decode v p)).next = some a)
    (hqa : (k.onward (m.decode v q)).next = some a) : p = q :=
  h.behind_inj hp hq ((toNat_of_next hpa).symm.trans (toNat_of_next hqa))

namespace Stretch

theorem ends (h : Stretch m v k start is p) : ∃ rest, is = rest ++ [m.decode v p] := by
  cases h with
  | one => exact ⟨[], rfl⟩
  | more => exact ⟨_, rfl⟩

theorem getLast?_eq (h : Stretch m v k start is p) : is.getLast? = some (m.decode v p) := by
  obtain ⟨rest, rfl⟩ := h.ends
  exact List.getLast?_concat

theorem ne_nil (h : Stretch m v k start is p) : is ≠ [] := by
  obtain ⟨rest, rfl⟩ := h.ends
  simp

theorem head?_eq (h : Stretch m v k start is p) : is.head? = some (m.decode v start) := by
  induction h with
  | one => rfl
  | more h hn ho hc ih => rw [List.head?_append, ih, Option.some_or]

theorem mem_last (h : Stretch m v k start is p) : m.decode v p ∈ is := by
  obtain ⟨rest, rfl⟩ := h.ends
  simp

theorem opening_last (h : Stretch m v k start is p) : (m.marks p).opening = true := by
  cases h with
  | one ho => exact ho
  | more _ _ ho _ => exact ho

/-- Every instruction is the one that is claimed at its address. -/
theorem of_mem (h : Stretch m v k start is p) :
    ∀ i ∈ is, i = m.decode v i.address ∧ (m.marks i.address).opening = true := by
  induction h with
  | one ho =>
    intro i hi
    rw [List.mem_singleton] at hi
    subst hi
    exact ⟨rfl, ho⟩
  | more h hn ho hc ih =>
    intro i hi
    rw [List.mem_append, List.mem_singleton] at hi
    rcases hi with hi | rfl
    · exact ih i hi
    · exact ⟨rfl, ho⟩

theorem start_le (h : Stretch m v k start is p) : start.toNat ≤ p.toNat := by
  induction h with
  | one => exact Nat.le_refl _
  | @more is p a h hn ho hc ih =>
    have ha := toNat_of_next hn
    have hp := m.lt_behind v p
    omega

theorem bounds (h : Stretch m v k start is p) :
    ∀ i ∈ is, start.toNat ≤ i.address.toNat ∧ i.address.toNat + i.length ≤ m.behind v p := by
  induction h with
  | one ho =>
    intro i hi
    rw [List.mem_singleton] at hi
    subst hi
    exact ⟨Nat.le_refl _, Nat.le_refl _⟩
  | @more is p a h hn ho hc ih =>
    intro i hi
    have ha := toNat_of_next hn
    have hbehind := m.lt_behind v a
    rw [List.mem_append, List.mem_singleton] at hi
    rcases hi with hi | rfl
    · have hi := ih i hi
      exact ⟨hi.1, by omega⟩
    · have hle := h.start_le
      have hp := m.lt_behind v p
      refine ⟨?_, Nat.le_refl _⟩
      show start.toNat ≤ a.toNat
      omega

theorem consecutive (h : Stretch m v k start is p) :
    is.IsChain fun i j => j.address.toNat = i.address.toNat + i.length := by
  induction h with
  | one => exact .singleton _
  | @more is p a h hn ho hc ih =>
    refine ih.append (.singleton _) ?_
    intro i hi j hj
    rw [h.getLast?_eq, Option.mem_some_iff] at hi
    rw [List.head?_cons, Option.mem_some_iff] at hj
    subst hi hj
    exact toNat_of_next hn

theorem ascending (h : Stretch m v k start is p) :
    is.Pairwise fun i j => i.address.toNat < j.address.toNat := by
  induction h with
  | one => exact List.pairwise_singleton ..
  | @more is p a h hn ho hc ih =>
    rw [List.pairwise_append]
    refine ⟨ih, List.pairwise_singleton .., ?_⟩
    intro i hi j hj
    rw [List.mem_singleton] at hj
    subst hj
    have hend := (h.bounds i hi).2
    have hdecoded := (h.of_mem i hi).1
    have hpos := m.length_decode_pos v i.address
    rw [← hdecoded] at hpos
    have ha := toNat_of_next hn
    show i.address.toNat < a.toNat
    omega

theorem sum_length (h : Stretch m v k start is p) :
    start.toNat + (is.map (·.length)).sum = m.behind v p := by
  induction h with
  | one => simp [behind]
  | more h hn ho hc ih =>
    have ha := toNat_of_next hn
    rw [List.map_append, List.sum_append, ← Nat.add_assoc, ih, ← ha]
    simp [behind]

/-- Control goes straight on from every instruction but the last. -/
theorem next_of_dropLast (h : Stretch m v k start is p) :
    ∀ i ∈ is.dropLast, ∃ a, (k.onward i).next = some a := by
  induction h with
  | one =>
    intro i hi
    cases hi
  | @more is p a h hn ho hc ih =>
    intro i hi
    rw [List.dropLast_concat] at hi
    obtain ⟨rest, rfl⟩ := h.ends
    rw [List.dropLast_concat] at ih
    rw [List.mem_append, List.mem_singleton] at hi
    rcases hi with hi | rfl
    · exact ih i hi
    · exact ⟨a, hn⟩

theorem countP_call_le (h : Stretch m v k start is p) : is.countP (·.effects.call) ≤ 1 := by
  induction h with
  | one => exact List.countP_le_length
  | @more is p a h hn ho hc ih =>
    rw [List.countP_append, List.countP_singleton]
    split
    next hcall =>
      have hnone : is.countP (·.effects.call) = 0 := by
        rw [List.countP_eq_zero]
        intro i hi
        simp [hc hcall i hi]
      omega
    next => exact ih

/-- Behind an instruction of a stretch, control goes on inside of the stretch or the stretch
ends. -/
theorem next_mem (h : Stretch m v k start is p) (hb : m.decode v b ∈ is) :
    b = p ∨ ∃ a, (k.onward (m.decode v b)).next = some a ∧ m.decode v a ∈ is := by
  induction h with
  | one =>
    rw [List.mem_singleton] at hb
    exact .inl (congrArg Instruction.address hb)
  | @more is p a h hn ho hc ih =>
    rw [List.mem_append, List.mem_singleton] at hb
    rcases hb with hb | hb
    · rcases ih hb with rfl | ⟨c, hc, hmem⟩
      · exact .inr ⟨a, hn, by simp⟩
      · exact .inr ⟨c, hc, List.mem_append_left _ hmem⟩
    · exact .inl (congrArg Instruction.address hb)

/-- Every byte between the ends of a stretch belongs to one of its instructions. -/
theorem covered (h : Stretch m v k start is p) (hle : start.toNat ≤ b.toNat)
    (hlt : b.toNat < m.behind v p) :
    ∃ a, m.decode v a ∈ is ∧ m.Covers v a b := by
  induction h with
  | one => exact ⟨start, List.mem_singleton_self _, hle, hlt⟩
  | @more is p a h hn ho hc ih =>
    have ha := toNat_of_next hn
    by_cases hb : b.toNat < m.behind v p
    · obtain ⟨c, hmem, hcover⟩ := ih hb
      exact ⟨c, List.mem_append_left _ hmem, hcover⟩
    · exact ⟨a, by simp, by omega, hlt⟩

/-- A claimed instruction between the ends of a stretch belongs to it. -/
theorem mem_of_opening (h : Stretch m v k start is p) (hp : m.Parsed v)
    (ho : (m.marks b).opening = true) (hle : start.toNat ≤ b.toNat) (hlt : b.toNat < m.behind v p) :
    m.decode v b ∈ is := by
  obtain ⟨a, hmem, hcover⟩ := h.covered hle hlt
  have hopen := (h.of_mem _ hmem).2
  have hab : a = b := hp.apart hopen ho hcover
  subst hab
  exact hmem

theorem mem_start (h : Stretch m v k start is p) : m.decode v start ∈ is :=
  List.mem_of_mem_head? (Option.mem_def.mpr h.head?_eq)

theorem opening_start (h : Stretch m v k start is p) : (m.marks start).opening = true :=
  (h.of_mem _ h.mem_start).2

/-- Every instruction but the first has another one in front of it. -/
theorem prev_mem (h : Stretch m v k start is p) (hb : m.decode v b ∈ is) (hne : b ≠ start) :
    ∃ a, m.decode v a ∈ is ∧ (k.onward (m.decode v a)).next = some b := by
  induction h with
  | one =>
    rw [List.mem_singleton] at hb
    exact absurd (congrArg Instruction.address hb) hne
  | @more is p a h hn ho hc ih =>
    rw [List.mem_append, List.mem_singleton] at hb
    cases hb with
    | inl hb =>
      obtain ⟨c, hmem, hnext⟩ := ih hb
      exact ⟨c, List.mem_append_left _ hmem, hnext⟩
    | inr hb =>
      have hab : b = a := congrArg Instruction.address hb
      subst hab
      exact ⟨p, List.mem_append_left _ h.mem_last, hn⟩

/-- Two stretches that each have a node at their start and nowhere else are the same as soon as they
meet. -/
theorem start_eq (node : Address → Prop) {start' p' : Address} {is' : List Instruction}
    (hp : m.Parsed v) (h : Stretch m v k start is p) (h' : Stretch m v k start' is' p')
    (hs : node start) (hs' : node start') (hi : ∀ i ∈ is, node i.address → i.address = start)
    (hi' : ∀ i ∈ is', node i.address → i.address = start') (hb : m.decode v b ∈ is)
    (hb' : m.decode v b ∈ is') : start = start' := by
  have hpos := m.length_decode_pos v b
  have hbound : start.toNat ≤ b.toNat ∧ b.toNat + (m.decode v b).length ≤ m.behind v p :=
    h.bounds _ hb
  have hbound' : start'.toNat ≤ b.toNat ∧ b.toNat + (m.decode v b).length ≤ m.behind v p' :=
    h'.bounds _ hb'
  by_cases hle : start.toNat ≤ start'.toNat
  · have hmem := h.mem_of_opening hp h'.opening_start hle (by omega)
    exact (hi _ hmem hs').symm
  · have hmem := h'.mem_of_opening hp h.opening_start (by omega) (by omega)
    exact hi' _ hmem hs

theorem behind_le (h : Stretch m v k start is p) (hp : m.Parsed v) : m.behind v p ≤ 65536 :=
  (hp.loaded h.opening_last).1

end Stretch

end Z80Atlas.Memory
