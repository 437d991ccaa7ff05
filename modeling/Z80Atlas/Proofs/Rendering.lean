import Mathlib.Tactic.Convert
import Z80Atlas.Instruction.Render
import Z80Atlas.Proofs.Decoding
import Z80Atlas.Proofs.Templates

/-!
# The text of an instruction

The text of a decoded instruction is its template with the operands woven in: one in the place of
each `#`, in order, and none left over on either side.  Operands are copied as they are, whatever
characters a name or the affixes of a number have.  Names have a say in the text only if the operand
can be written as a name.
-/

namespace Z80Atlas

/-! ### Weaving -/

/-- The text is the template with the operands in the place of its `#` characters: as many as there
are, in order, and copied as they are. -/
inductive Woven : (template : List Char) → (operands : List String) → (text : List Char) → Prop
  | plain {rest : List Char} (h : '#' ∉ rest) : Woven rest [] rest
  | operand {before rest text : List Char} {operand : String} {operands : List String}
      (h : '#' ∉ before) (hrest : Woven rest operands text) :
      Woven (before ++ '#' :: rest) (operand :: operands) (before ++ operand.toList ++ text)

theorem Woven.cons {template text : List Char} {operands : List String} {c : Char} (hc : c ≠ '#')
    (h : Woven template operands text) : Woven (c :: template) operands (c :: text) := by
  have hnotMem : ∀ {cs : List Char}, '#' ∉ cs → '#' ∉ c :: cs := by
    intro cs hcs
    rw [List.mem_cons, not_or]
    exact ⟨hc.symm, hcs⟩
  cases h with
  | plain hrest => exact .plain (hnotMem hrest)
  | operand hbefore hrest => exact .operand (hnotMem hbefore) hrest

/-- Substitution weaves the operands in, if there are as many as there are places for them. -/
theorem woven_substitute {template : List Char} {operands : List String}
    (h : template.count '#' = operands.length) :
    Woven template operands (substitute template operands) := by
  fun_induction substitute template operands with
  | case1 operands =>
    have hnil : operands = [] := List.length_eq_zero_iff.mp h.symm
    subst hnil
    exact .plain List.not_mem_nil
  | case2 rest operand operands ih =>
    rw [List.count_cons_self, List.length_cons] at h
    exact .operand List.not_mem_nil (ih (Nat.succ.inj h))
  | case3 c rest operands hother ih =>
    by_cases hc : c = '#'
    · -- A `#` stays in the text only if no operand is left, and then the counts differ.
      subst hc
      rw [List.count_cons_self] at h
      cases operands with
      | nil => cases h
      | cons operand operands => exact absurd rfl (hother operand operands rfl)
    · rw [List.count_cons_of_ne hc] at h
      exact (ih h).cons hc

theorem substitute_nil (template : List Char) : substitute template [] = template := by
  induction template with
  | nil => rfl
  | cons c rest ih => simp only [substitute, ih]

theorem substitute_append {before : List Char} (h : '#' ∉ before) (rest : List Char)
    (operands : List String) :
    substitute (before ++ rest) operands = before ++ substitute rest operands := by
  induction before with
  | nil => rfl
  | cons c before ih =>
    rw [List.mem_cons, not_or] at h
    rw [List.cons_append, substitute, ih h.2, List.cons_append]
    intro _ _ _ hc
    exact h.1 hc.symm

theorem Woven.eq_substitute {template text : List Char} {operands : List String}
    (h : Woven template operands text) :
    text = substitute template operands := by
  induction h with
  | plain _ => exact (substitute_nil _).symm
  | operand hbefore _ ih => rw [substitute_append hbefore, substitute, ← ih, List.append_assoc]

/-! ### Places and operands -/

theorem count_map_toLower (cs : List Char) : (cs.map Char.toLower).count '#' = cs.count '#' := by
  unfold List.count
  rw [List.countP_map]
  refine List.countP_congr fun c _ => ?_
  simp [toLower_eq_iff (t := '#') (by decide)]

/-- Writing a template in small letters keeps the places of its operands. -/
theorem count_cased (lowercase : Bool) (cs : List Char) :
    (if lowercase then cs.map Char.toLower else cs).count '#' = cs.count '#' := by
  split
  · exact count_map_toLower cs
  · rfl

namespace Instruction

theorem length_operandTexts (i : Instruction) (names : Resolver) (numbers : NumberFormat) :
    (i.operandTexts names numbers).length =
      (decide (i.kind ≠ .none)).toNat + i.extra.isSome.toNat := by
  unfold operandTexts
  rw [List.length_append]
  congr 1
  · split <;> simp_all
  · cases i.extra <;> rfl

end Instruction

theorem Memory.count_template_decode (m : Memory) (v : Opcode.Variant) (a : Address)
    (names : Resolver) (numbers : NumberFormat) :
    (m.decode v a).template.toList.count '#' =
      ((m.decode v a).operandTexts names numbers).length := by
  have hentry := Opcode.Entry.placeholderCount_eq (Form.listed_read v (m.fetch a)).defect?_eq_none
  have hextra : (m.decode v a).extra.isSome = (Form.read v (m.fetch a)).entry.extra := by
    show ((Form.read v (m.fetch a)).extra (m.fetch a)).isSome = _
    unfold Form.extra
    cases (Form.read v (m.fetch a)).entry.extra <;> rfl
  rw [Instruction.length_operandTexts, hextra]
  exact hentry

/-! ### Names -/

theorem Address.ofInt_lt_iff {n : Int} (hlow : 0 ≤ n) (hhigh : n ≤ 65535) :
    ofInt n < 0x100 ↔ n < 0x100 := by
  have hnat := toNat_ofInt n
  rw [UInt16.lt_iff_toNat_lt]
  simp only [UInt16.reduceToNat]
  omega

namespace Instruction

/-- The operand can be written as a name: it is an address, or a word that is large enough to be
taken for one. -/
def Nameable (i : Instruction) : Prop :=
  i.kind.isAddress = true ∨ (i.kind = .word ∨ i.kind = .wordBigEndian) ∧ 0x100 ≤ i.value

instance (i : Instruction) : Decidable i.Nameable := inferInstanceAs (Decidable (_ ∨ _))

variable {i : Instruction}

theorem valueText_of_isAddress (h : i.kind.isAddress = true) (names : Resolver)
    (numbers : NumberFormat) :
    i.valueText names numbers =
      (names (Address.ofInt i.value) i.kind i.address).getD (i.valueText .nameless numbers) := by
  obtain ⟨address, code, template, length, effects, kind, value, extra, text⟩ := i
  cases kind with
  | none | byte | word | wordBigEndian | displacement | ioPort => cases h
  | data | relative | jump | call | restart => rfl

/-- An operand that can be written as a name is, if it has one. -/
theorem valueText_of_nameable (hvalue : i.kind ≠ .displacement → 0 ≤ i.value ∧ i.value ≤ 65535)
    (h : i.Nameable) (names : Resolver) (numbers : NumberFormat) :
    i.valueText names numbers =
      (names (Address.ofInt i.value) i.kind i.address).getD (i.valueText .nameless numbers) := by
  rcases h with haddress | ⟨hword, hlarge⟩
  · exact valueText_of_isAddress haddress names numbers
  · have hsigned : i.kind ≠ .displacement := by
      rcases hword with hk | hk <;> rw [hk] <;> decide
    obtain ⟨hlow, hhigh⟩ := hvalue hsigned
    have hnot : ¬Address.ofInt i.value < 0x100 := by
      rw [Address.ofInt_lt_iff hlow hhigh]
      omega
    rcases hword with hk | hk <;>
      simp only [valueText, hk, Resolver.nameless, if_neg hnot, Option.getD_none]

/-- No names matter to the other operands. -/
theorem valueText_of_not_nameable (hvalue : i.kind ≠ .displacement → 0 ≤ i.value ∧ i.value ≤ 65535)
    (h : ¬i.Nameable) (names : Resolver) (numbers : NumberFormat) :
    i.valueText names numbers = i.valueText .nameless numbers := by
  obtain ⟨address, code, template, length, effects, kind, value, extra, text⟩ := i
  dsimp only at hvalue
  cases kind with
  | none | byte | ioPort | displacement => rfl
  | word | wordBigEndian =>
    obtain ⟨hlow, hhigh⟩ := hvalue (by decide)
    have hsmall : value < 0x100 := by
      simpa [Nameable, OperandKind.isAddress, OperandKind.isCode] using h
    simp only [valueText, if_pos ((Address.ofInt_lt_iff hlow hhigh).mpr hsmall)]
  | restart | data | relative | jump | call => exact absurd (Or.inl rfl) h

end Instruction

theorem Memory.value_decode_bounds (m : Memory) (v : Opcode.Variant) (a : Address) :
    (m.decode v a).kind ≠ .displacement → 0 ≤ (m.decode v a).value ∧ (m.decode v a).value ≤ 65535 :=
  ((Form.read v (m.fetch a)).value_bounds (m.fetch a) a).1

/-! ### Rendering -/

/-- The text of a decoded instruction is its template with the operands in place of the marks, in
order.  A resolver has a say in it where the operand is an address that can be named, and nowhere
else. -/
theorem rendering_weaves_operands (m : Memory) (v : Opcode.Variant) (a : Address) (names : Resolver)
    (settings : Settings) :
    let i := m.decode v a
    (∀ text,
      Woven (if settings.lowercase then i.template.toList.map Char.toLower else i.template.toList)
        ((if i.kind = .none then [] else [i.valueText names settings.numbers]) ++
          (i.extra.map settings.numbers.byte).toList) text ↔
        text = (i.render names settings).toList) ∧
      (i.Nameable → ∀ name, names (Address.ofInt i.value) i.kind i.address = some name →
        i.valueText names settings.numbers = name) ∧
      (¬i.Nameable → ∀ others : Resolver, i.render others settings = i.render names settings) := by
  intro i
  have hvalue := m.value_decode_bounds v a
  refine ⟨?_, ?_, ?_⟩
  · intro text
    unfold Instruction.render
    rw [String.toList_ofList]
    constructor
    · exact Woven.eq_substitute
    · rintro rfl
      exact woven_substitute
        ((count_cased _ _).trans (m.count_template_decode v a names settings.numbers))
  · intro hn name hname
    rw [Instruction.valueText_of_nameable hvalue hn, hname, Option.getD_some]
  · intro hn others
    unfold Instruction.render Instruction.operandTexts
    rw [Instruction.valueText_of_not_nameable hvalue hn others,
      Instruction.valueText_of_not_nameable hvalue hn names]

/-- `NEXTREG 7,3` with a `#` before each number, and `CALL 1234h` where the target has a name with a
`#` in it. -/
theorem rendering_weaves_operands_hashes :
    let m := (Memory.empty.write 0x8000 [0xED, 0x91, 0x07, 0x03]).write 0x9000 [0xCD, 0x34, 0x12]
    let settings : Settings := { numbers := { before := "#", after := "" }, lowercase := true }
    let names : Resolver := fun _ _ _ => some "To#1"
    let register := m.decode .z80n 0x8000
    let call := m.decode .z80n 0x9000
    (¬register.Nameable ∧
      Woven "nextreg #,#".toList ["#07", "#03"] (register.render names settings).toList ∧
        register.render .nameless settings = register.render names settings) ∧
      call.Nameable ∧
      Woven "call #".toList [call.valueText names settings.numbers]
        (call.render names settings).toList ∧
      call.valueText names settings.numbers = "To#1" := by
  intro m settings names register call
  obtain ⟨hregister, -, hsame⟩ := rendering_weaves_operands m .z80n 0x8000 names settings
  obtain ⟨hcall, hnamed, -⟩ := rendering_weaves_operands m .z80n 0x9000 names settings
  have hr : ¬register.Nameable := by decide +kernel
  have hc : call.Nameable := by decide +kernel
  refine ⟨⟨hr, ?_, hsame hr .nameless⟩, hc, ?_, hnamed hc "To#1" rfl⟩
  · convert (hregister _).mpr rfl using 1
    · decide +kernel
    · decide +kernel
  · convert (hcall _).mpr rfl using 1
    · decide +kernel
    · decide +kernel

end Z80Atlas
