import Z80Atlas.Word

/-!
# Hexadecimal text

Numbers are written with a fixed count of hexadecimal digits, most significant first.
-/

namespace Z80Atlas

/-- How the digits above nine are written. -/
inductive LetterCase
  | upper
  | lower
deriving DecidableEq

theorem toNat_toLower (c : Char) :
    c.toLower.toNat = if 65 ≤ c.toNat ∧ c.toNat ≤ 90 then c.toNat + 32 else c.toNat := by
  have hcapital : (c.val ≥ 'A'.val ∧ c.val ≤ 'Z'.val) ↔ 65 ≤ c.toNat ∧ c.toNat ≤ 90 := by
    simp only [ge_iff_le, UInt32.le_iff_toNat_le]
    rfl
  unfold Char.toLower
  by_cases h : 65 ≤ c.toNat ∧ c.toNat ≤ 90
  · rw [dif_pos (hcapital.mpr h), if_pos h]
    show (c.val + ('a'.val - 'A'.val)).toNat = c.val.toNat + 32
    have hle : c.val.toNat ≤ 90 := h.2
    rw [UInt32.toNat_add]
    show (c.val.toNat + 32) % 4294967296 = _
    omega
  · rw [dif_neg (fun hc => h (hcapital.mp hc)), if_neg h]

/-- Only a letter becomes another character as a small letter, and what it becomes is a letter. -/
theorem toLower_eq_iff {c t : Char}
    (h : t.toNat < 65 ∨ 122 < t.toNat ∨ 90 < t.toNat ∧ t.toNat < 97) : c.toLower = t ↔ c = t := by
  rw [← Char.toNat_inj, ← Char.toNat_inj, toNat_toLower]
  split <;> omega

/-- The digit of a value below sixteen. -/
def hexDigit (c : LetterCase) (n : Nat) : Char :=
  if n < 10 then Char.ofNat (48 + n)
  else match c with
    | .upper => Char.ofNat (55 + n)
    | .lower => Char.ofNat (87 + n)

/-- The last `width` digits of `n`. -/
def hexDigits (c : LetterCase) : (width n : Nat) → List Char
  | 0, _ => []
  | width + 1, n => hexDigits c width (n / 16) ++ [hexDigit c (n % 16)]

@[simp] theorem length_hexDigits (c : LetterCase) (width n : Nat) :
    (hexDigits c width n).length = width := by
  induction width generalizing n with
  | zero => rfl
  | succ width ih => simp [hexDigits, ih]

/-- The last `width` digits of `n` in capitals. -/
def upperHex (width n : Nat) : String :=
  String.ofList (hexDigits .upper width n)

/-- The last `width` digits of `n` in small letters. -/
def lowerHex (width n : Nat) : String :=
  String.ofList (hexDigits .lower width n)

/-- An address as messages write it, such as `8000h`. -/
def Address.display (a : Address) : String :=
  upperHex 4 a.toNat ++ "h"

/-- An address as errors write it, such as `0x8000`. -/
def Address.display0x (a : Address) : String :=
  "0x" ++ lowerHex 4 a.toNat

end Z80Atlas
