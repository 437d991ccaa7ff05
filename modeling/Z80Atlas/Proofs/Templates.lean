import Z80Atlas.Proofs.Lawful

/-!
# Templates have a place for every operand

The template of an opcode has one `#` for its primary operand and one for its second operand byte,
and no others.  Where the templates are listed this is a matter of looking; where they are put
together from parts, the parts are counted.  Together with the laws of the flags it means that no
entry of the tables has a defect.
-/

namespace Z80Atlas.Opcode

/-- How many placeholders a text has. -/
def placeholders (text : String) : Nat := text.toList.count '#'

theorem placeholders_append (s t : String) :
    placeholders (s ++ t) = placeholders s + placeholders t := by
  unfold placeholders
  rw [String.toList_append, List.count_append]

/-- The template has a place for each operand, and no other. -/
def Entry.balanced (e : Entry) : Bool := e.placeholderCount == e.operandCount

theorem balanced_op {template : String} {kind : OperandKind}
    (h : placeholders template = (decide (kind ≠ .none)).toNat) (effects : Effects) :
    (op template kind effects).balanced = true :=
  beq_iff_eq.mpr h

/-! ### Parts of templates -/

theorem placeholders_lowRegister (b : UInt8) : placeholders (lowRegister b) = 0 := by
  have hregisters : ∀ i : Fin 8, placeholders (registers.get i) = 0 := by decide
  exact hregisters (lowDigit b)

theorem placeholders_highRegister (b : UInt8) : placeholders (highRegister b) = 0 := by
  have hregisters : ∀ i : Fin 8, placeholders (registers.get i) = 0 := by decide
  exact hregisters (highDigit b)

theorem placeholders_pairs : ∀ i : Fin 4, placeholders (pairs.get i) = 0 := by decide

theorem placeholders_name (r : IndexRegister) : placeholders r.name = 0 := by
  cases r <;> rfl

theorem placeholders_bitOperation (b : UInt8) : placeholders (bitOperation b) = 0 := by
  have hshifts : ∀ i : Fin 8, placeholders (shifts.get i) = 0 := by decide
  have hdigit : ∀ i : Fin 8, placeholders (toString i.val) = 0 := by decide
  have hnumbered : ∀ word, placeholders word = 0 →
      placeholders (word ++ toString (highDigit b).val ++ ",") = 0 := by
    intro word hword
    rw [placeholders_append, placeholders_append, hword, hdigit]
    rfl
  unfold bitOperation
  dsimp only
  split
  · rw [placeholders_append, hshifts]
    rfl
  · split
    · exact hnumbered "BIT " rfl
    · split
      · exact hnumbered "RES " rfl
      · exact hnumbered "SET " rfl

theorem placeholders_copyOf (b : UInt8) : placeholders (copyOf b) = 0 := by
  unfold copyOf
  split
  · rfl
  · rw [placeholders_append, placeholders_lowRegister]
    rfl

/-! ### The tables -/

theorem balanced_lowRows : ∀ i : Fin 64, (lowRows.get i).balanced = true := by decide +kernel

theorem balanced_highRows :
    ∀ (i : Fin 64) (e : Entry), highRows.get i = .entry e → e.balanced = true := by
  have key : ∀ i : Fin 64,
      (match highRows.get i with | .entry e => e.balanced | _ => true) = true := by
    decide +kernel
  intro i e he
  have h := key i
  rw [he] at h
  exact h

theorem balanced_load (b : UInt8) : (load b).balanced = true := by
  unfold load
  split
  · rfl
  · refine balanced_op ?_ _
    show placeholders ("LD " ++ highRegister b ++ "," ++ lowRegister b) = 0
    simp only [placeholders_append, placeholders_highRegister, placeholders_lowRegister]
    rfl

theorem balanced_arithmetic (b : UInt8) : (arithmetic b).balanced = true := by
  have haccumulator : ∀ i : Fin 8, placeholders (accumulator.get i) = 0 := by decide
  refine balanced_op ?_ _
  rw [placeholders_append, haccumulator, placeholders_lowRegister]
  rfl

theorem balanced_first {b : UInt8} {e : Entry} (h : first b = .entry e) : e.balanced = true := by
  unfold first at h
  split at h
  · cases h
    exact balanced_lowRows _
  · split at h
    · cases h
      exact balanced_load b
    · split at h
      · cases h
        exact balanced_arithmetic b
      · exact balanced_highRows _ _ h

theorem balanced_bits (b : UInt8) : (bits b).balanced = true := by
  refine balanced_op ?_ _
  rw [placeholders_append, placeholders_bitOperation, placeholders_lowRegister]
  rfl

theorem balanced_indexedBits (r : IndexRegister) (b : UInt8) :
    (indexedBits r b).balanced = true := by
  refine balanced_op ?_ _
  show placeholders (bitOperation b ++ "(" ++ r.name ++ "#)" ++ copyOf b) = 1
  simp only [placeholders_append, placeholders_bitOperation, placeholders_name, placeholders_copyOf]
  rfl

theorem balanced_indexed {r : IndexRegister} {b : UInt8} {e : Entry} (h : indexed r b = some e) :
    e.balanced = true := by
  cases r with
  | ix => exact holds_lookup ixRows (by decide +kernel) h
  | iy => exact holds_lookup iyRows (by decide +kernel) h

theorem balanced_regular (b : UInt8) : (regular b).balanced = true := by
  have hmodes : ∀ i : Fin 8, placeholders (interruptModes.get i) = 0 := by decide
  have hlast : ∀ i : Fin 8, (lastColumn.get i).balanced = true := by decide
  unfold regular
  dsimp only
  split
  · refine balanced_op ?_ _
    split
    · rfl
    · show placeholders ("IN " ++ highRegister b ++ ",(C)") = 0
      simp only [placeholders_append, placeholders_highRegister]
      rfl
  · refine balanced_op ?_ _
    split
    · rfl
    · show placeholders ("OUT (C)," ++ highRegister b) = 0
      simp only [placeholders_append, placeholders_highRegister]
      rfl
  · refine balanced_op ?_ _
    split
    · show placeholders ("SBC HL," ++ pairs.get _) = 0
      simp only [placeholders_append, placeholders_pairs]
      rfl
    · show placeholders ("ADC HL," ++ pairs.get _) = 0
      simp only [placeholders_append, placeholders_pairs]
      rfl
  · refine balanced_op ?_ _
    split
    · show placeholders ("LD (#)," ++ pairs.get _) = 1
      simp only [placeholders_append, placeholders_pairs]
      rfl
    · show placeholders ("LD " ++ pairs.get _ ++ ",(#)") = 1
      simp only [placeholders_append, placeholders_pairs]
      rfl
  · rfl
  · refine balanced_op ?_ _
    split <;> rfl
  · refine balanced_op ?_ _
    show placeholders ("IM " ++ interruptModes.get _) = 0
    rw [placeholders_append, hmodes]
    rfl
  · exact hlast _

theorem balanced_extendedPlain (b : UInt8) : (extendedPlain b).balanced = true := by
  unfold extendedPlain
  split
  · exact balanced_regular b
  · exact holds_getD_lookup blockRows (by rfl) (by rfl)

theorem balanced_extended (v : Variant) (b : UInt8) : (extended v b).balanced = true := by
  cases v with
  | z80 => exact balanced_extendedPlain b
  | z80n => exact holds_getD_lookup additionRows (by decide +kernel) (balanced_extendedPlain b)

theorem Listed.balanced {v : Variant} {e : Entry} (h : Listed v e) : e.balanced = true := by
  cases h with
  | first h => exact balanced_first h
  | bits b => exact balanced_bits b
  | extended b => exact balanced_extended v b
  | indexed h => exact balanced_indexed h
  | indexedBits r b => exact balanced_indexedBits r b
  | idle => rfl

/-! ### Defects -/

theorem Entry.defect?_eq_none {e : Entry} (hb : e.balanced = true) (hl : e.lawful = true) :
    e.defect? = none := by
  simp only [Entry.lawful, Bool.and_eq_true, beq_iff_eq] at hl
  obtain ⟨⟨⟨hbranch, hcall⟩, -⟩, -⟩ := hl
  have hcount : e.placeholderCount = e.operandCount := beq_iff_eq.mp hb
  unfold Entry.defect?
  rw [if_neg (fun h => h hcount), hbranch]
  cases e.kind.isCode <;> cases hc : e.effects.call <;> simp_all

/-- No entry of the tables has a defect. -/
theorem Listed.defect?_eq_none {v : Variant} {e : Entry} (h : Listed v e) : e.defect? = none :=
  Entry.defect?_eq_none h.balanced h.lawful

theorem Entry.placeholderCount_eq {e : Entry} (h : e.defect? = none) :
    e.placeholderCount = e.operandCount := by
  unfold Entry.defect? at h
  split at h
  · cases h
  next hcount => exact Decidable.not_not.mp hcount

end Z80Atlas.Opcode
