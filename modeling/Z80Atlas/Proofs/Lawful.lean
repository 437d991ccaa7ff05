import Z80Atlas.Flow.Skips
import Z80Atlas.Instruction.Decode

/-!
# Lawful instructions

The flags of an opcode are not independent of each other: a branch has the address of code as its
operand and nothing else has, a call is a branch that comes back, and a return is no branch.  Every
entry of the opcode tables obeys these laws, hence every decoded instruction does, and its course
can be read off its flags (`Instruction.Lawful.course_cases`).  No more than two bytes of operands
follow an opcode, so four bytes are enough for every instruction.
-/

namespace Z80Atlas

namespace Opcode

/-- The laws that the flags and the operands of an entry obey. -/
def Entry.lawful (e : Entry) : Bool :=
  e.effects.branch == e.kind.isCode && (!e.effects.call || (e.effects.branch && !e.effects.stop)) &&
    !(e.effects.ret && e.effects.branch) && decide (e.operandSize ≤ 2)

/-! ### The tables -/

theorem lawful_op (template : String) {kind : OperandKind} (h : kind.isCode = false) :
    (op template kind).lawful = true := by
  simp [op, Entry.lawful, Entry.operandSize, h, kind.size_le_two]

theorem Entry.operandSize_le {e : Entry} (h : e.lawful = true) : e.operandSize ≤ 2 := by
  simp only [Entry.lawful, Bool.and_eq_true, decide_eq_true_eq] at h
  exact h.2

theorem lawful_lowRows : ∀ i : Fin 64, (lowRows.get i).lawful = true := by decide

theorem lawful_highRows :
    ∀ (i : Fin 64) (e : Entry), highRows.get i = .entry e → e.lawful = true := by
  have key : ∀ i : Fin 64,
      (match highRows.get i with | .entry e => e.lawful | _ => true) = true := by decide
  intro i e he
  have h := key i
  rw [he] at h
  exact h

theorem lawful_first {b : UInt8} {e : Entry} (h : first b = .entry e) : e.lawful = true := by
  unfold first at h
  split at h
  · cases h
    exact lawful_lowRows _
  · split at h
    · cases h
      unfold load
      split <;> exact lawful_op _ rfl
    · split at h
      · cases h
        exact lawful_op _ rfl
      · exact lawful_highRows _ _ h

theorem lawful_bits (b : UInt8) : (bits b).lawful = true := lawful_op _ rfl

theorem lawful_indexedBits (r : IndexRegister) (b : UInt8) : (indexedBits r b).lawful = true :=
  lawful_op _ rfl

/-- What is true of every row of a list is true of the entry that is found in it. -/
theorem holds_lookup (rows : List (UInt8 × Entry)) {p : Entry → Bool} (h : rows.all (p ·.2) = true)
    {b : UInt8} {e : Entry} (he : rows.lookup b = some e) : p e = true := by
  obtain ⟨before, after, rfl, -⟩ := List.lookup_eq_some_iff.mp he
  exact List.all_eq_true.mp h (b, e) (List.mem_append_cons_self)

theorem holds_getD_lookup (rows : List (UInt8 × Entry)) {p : Entry → Bool}
    (h : rows.all (p ·.2) = true) {b : UInt8} {e : Entry} (he : p e = true) :
    p ((rows.lookup b).getD e) = true := by
  cases hl : rows.lookup b with
  | none => exact he
  | some e' => exact holds_lookup rows h hl

theorem lawful_indexed {r : IndexRegister} {b : UInt8} {e : Entry} (h : indexed r b = some e) :
    e.lawful = true := by
  cases r with
  | ix => exact holds_lookup ixRows (by rfl) h
  | iy => exact holds_lookup iyRows (by rfl) h

theorem lawful_lastColumn : ∀ i : Fin 8, (lastColumn.get i).lawful = true := by decide

theorem lawful_regular (b : UInt8) : (regular b).lawful = true := by
  unfold regular
  dsimp only
  split
  · exact lawful_op _ rfl
  · exact lawful_op _ rfl
  · exact lawful_op _ rfl
  · exact lawful_op _ rfl
  · exact lawful_op _ rfl
  · rfl
  · exact lawful_op _ rfl
  · exact lawful_lastColumn _

theorem lawful_extendedPlain (b : UInt8) : (extendedPlain b).lawful = true := by
  unfold extendedPlain
  split
  · exact lawful_regular b
  · exact holds_getD_lookup blockRows (by rfl) (by rfl)

theorem lawful_extended (v : Variant) (b : UInt8) : (extended v b).lawful = true := by
  cases v with
  | z80 => exact lawful_extendedPlain b
  | z80n => exact holds_getD_lookup additionRows (by rfl) (lawful_extendedPlain b)

/-- The entries of the opcode tables. -/
inductive Listed (v : Variant) : Entry → Prop
  | first {b : UInt8} {e : Entry} (h : first b = .entry e) : Listed v e
  | bits (b : UInt8) : Listed v (bits b)
  | extended (b : UInt8) : Listed v (extended v b)
  | indexed {r : IndexRegister} {b : UInt8} {e : Entry} (h : indexed r b = some e) : Listed v e
  | indexedBits (r : IndexRegister) (b : UInt8) : Listed v (indexedBits r b)
  | idle : Listed v idle

theorem Listed.lawful {v : Variant} {e : Entry} (h : Listed v e) : e.lawful = true := by
  cases h with
  | first h => exact lawful_first h
  | bits b => exact lawful_bits b
  | extended b => exact lawful_extended v b
  | indexed h => exact lawful_indexed h
  | indexedBits r b => exact lawful_indexedBits r b
  | idle => rfl

end Opcode

theorem Form.listed_indexed (v : Opcode.Variant) (r : Opcode.IndexRegister) (fetch : Nat → Byte) :
    Opcode.Listed v (Form.indexed r fetch).entry := by
  unfold Form.indexed
  split
  · exact .idle
  · split
    · exact .indexedBits _ _
    · split
      next h => exact .indexed h
      next => exact .idle

/-- What decoding finds is an entry of the tables. -/
theorem Form.listed_read (v : Opcode.Variant) (fetch : Nat → Byte) :
    Opcode.Listed v (Form.read v fetch).entry := by
  unfold Form.read
  split
  next h => exact .first h
  next => exact .bits _
  next => exact .extended _
  next => exact Form.listed_indexed _ _ _

/-! ### Lengths -/

theorem Form.length_leading_le {code size : Nat} {entry : Opcode.Entry} (he : entry.lawful = true)
    (hs : size ≤ 2) :
    (Form.leading code entry size).length ≤ 4 := by
  have hoperand := Opcode.Entry.operandSize_le he
  show size + entry.operandSize ≤ 4
  omega

theorem Form.length_indexed_le (r : Opcode.IndexRegister) (fetch : Nat → Byte) :
    (Form.indexed r fetch).length ≤ 4 := by
  unfold Form.indexed
  split
  · exact length_leading_le rfl (by decide)
  · split
    · exact Nat.le_refl 4
    · split
      next h => exact length_leading_le (Opcode.lawful_indexed h) (by decide)
      next => exact length_leading_le rfl (by decide)

theorem Form.length_read_le (v : Opcode.Variant) (fetch : Nat → Byte) :
    (Form.read v fetch).length ≤ 4 := by
  unfold Form.read
  split
  next h => exact length_leading_le (Opcode.lawful_first h) (by decide)
  next => exact length_leading_le (Opcode.lawful_bits _) (by decide)
  next => exact length_leading_le (Opcode.lawful_extended _ _) (by decide)
  next => exact length_indexed_le _ _

theorem Memory.length_decode_le (m : Memory) (v : Opcode.Variant) (a : Address) :
    (m.decode v a).length ≤ 4 :=
  Form.length_read_le v (m.fetch a)

/-! ### Instructions -/

theorem OperandKind.isAddress_of_isCode {k : OperandKind} (h : k.isCode = true) :
    k.isAddress = true := by
  revert h
  cases k <;> decide

/-- The laws that the flags of an instruction obey. -/
structure Instruction.Lawful (i : Instruction) : Prop where
  branch_eq : i.effects.branch = i.kind.isCode
  branch_of_call : i.effects.call = true → i.effects.branch = true
  stop_of_call : i.effects.call = true → i.effects.stop = false
  branch_of_ret : i.effects.ret = true → i.effects.branch = false

theorem Memory.lawful_decode (m : Memory) (v : Opcode.Variant) (a : Address) :
    (m.decode v a).Lawful := by
  have h : (Form.read v (m.fetch a)).entry.lawful = true := (Form.listed_read v _).lawful
  simp only [Opcode.Entry.lawful, Bool.and_eq_true, beq_iff_eq, Bool.or_eq_true, Bool.not_eq_true',
    Bool.and_eq_false_iff] at h
  obtain ⟨⟨⟨hbranch, hcall⟩, hret⟩, -⟩ := h
  refine ⟨hbranch, ?_, ?_, ?_⟩
  · intro hc
    rcases hcall with h | h
    · exact absurd (h.symm.trans hc) (by decide)
    · exact h.1
  · intro hc
    rcases hcall with h | h
    · exact absurd (h.symm.trans hc) (by decide)
    · exact h.2
  · intro hr
    rcases hret with h | h
    · exact absurd (h.symm.trans hr) (by decide)
    · exact h

namespace Instruction

variable {i : Instruction}

theorem Lawful.branchTarget (h : i.Lawful) :
    i.branchTarget? = if i.effects.branch then some (Address.ofInt i.value) else none := by
  unfold branchTarget? target?
  split
  next hb =>
    rw [h.branch_eq] at hb
    rw [if_pos (OperandKind.isAddress_of_isCode hb)]
  next => rfl

/-- What the course of an instruction says about its flags. -/
theorem Lawful.course_cases (h : i.Lawful) :
    (i.course = .onward ∧ i.effects.branch = false ∧ i.effects.call = false ∧
      i.effects.ret = false ∧ i.effects.stop = false) ∨
    (∃ t, i.course = .call t ∧ i.branchTarget? = some t ∧ i.effects.branch = true ∧
      i.effects.call = true ∧ i.effects.ret = false ∧ i.effects.stop = false) ∨
    (∃ t, i.course = .branch t (!i.effects.stop) ∧ i.branchTarget? = some t ∧
      i.effects.branch = true ∧ i.effects.call = false ∧ i.effects.ret = false) ∨
    (i.course = .ret i.effects.conditional ∧ i.effects.branch = false ∧ i.effects.call = false ∧
      i.effects.ret = true) ∨
    (i.course = .stop ∧ i.effects.branch = false ∧ i.effects.call = false ∧ i.effects.ret = false ∧
      i.effects.stop = true) := by
  have hbt := h.branchTarget
  cases hb : i.effects.branch with
  | true =>
    rw [hb, if_pos rfl] at hbt
    have hr : i.effects.ret = false := by
      cases hr : i.effects.ret with
      | false => rfl
      | true => exact absurd (hb.symm.trans (h.branch_of_ret hr)) (by decide)
    cases hc : i.effects.call with
    | true =>
      exact .inr (.inl ⟨_, by simp [course, hbt, hc], hbt, rfl, rfl, hr, h.stop_of_call hc⟩)
    | false =>
      exact .inr (.inr (.inl ⟨_, by simp [course, hbt, hc], hbt, rfl, rfl, hr⟩))
  | false =>
    rw [hb, if_neg (by decide)] at hbt
    have hc : i.effects.call = false := by
      cases hc : i.effects.call with
      | false => rfl
      | true => exact absurd (hb.symm.trans (h.branch_of_call hc)) (by decide)
    cases hr : i.effects.ret with
    | true => exact .inr (.inr (.inr (.inl ⟨by simp [course, hbt, hr], rfl, hc, rfl⟩)))
    | false =>
      cases hs : i.effects.stop with
      | true => exact .inr (.inr (.inr (.inr ⟨by simp [course, hbt, hr, hs], rfl, hc, rfl, rfl⟩)))
      | false => exact .inl ⟨by simp [course, hbt, hr, hs], rfl, hc, rfl, rfl⟩

end Instruction

end Z80Atlas
