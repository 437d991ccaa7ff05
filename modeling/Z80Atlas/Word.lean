/-!
# Bytes, words and addresses

The machine has 8-bit bytes and 16-bit addresses.  Addresses wrap when they are added to; a position
that has to stay inside the 64K of the address space is moved with `Address.after?`, which has no
answer past the top.
-/

namespace Z80Atlas

/-- One byte of memory. -/
abbrev Byte := UInt8

/-- A place in the 64K address space, or a 16-bit value read from memory. -/
abbrev Address := UInt16

/-- The two's complement value of a byte. -/
def Byte.signed (b : Byte) : Int :=
  if b.toNat < 128 then b.toNat else (b.toNat : Int) - 256

theorem Byte.signed_bounds (b : Byte) : -128 ≤ Byte.signed b ∧ Byte.signed b ≤ 127 := by
  have hb := b.toNat_lt
  unfold Byte.signed
  split <;> omega

namespace Address

/-- The word whose bytes are `low` and `high`. -/
def ofBytes (low high : Byte) : Address :=
  UInt16.ofNat (low.toNat + 256 * high.toNat)

theorem toNat_ofBytes (low high : Byte) :
    (ofBytes low high).toNat = low.toNat + 256 * high.toNat := by
  have hl := low.toNat_lt
  have hh := high.toNat_lt
  rw [ofBytes, UInt16.toNat_ofNat_of_lt']
  simp only [UInt16.size]
  omega

/-- The low 16 bits of an integer. -/
def ofInt (i : Int) : Address :=
  UInt16.ofNat (i % 65536).toNat

/-- The address `n` places above `a`, if that is still inside the address space. -/
def after? (a : Address) (n : Nat) : Option Address :=
  if a.toNat + n < 65536 then some (UInt16.ofNat (a.toNat + n)) else none

theorem after?_eq_some_iff {a b : Address} {n : Nat} :
    after? a n = some b ↔ b.toNat = a.toNat + n := by
  have hb := b.toNat_lt
  unfold after?
  split
  next h =>
    rw [Option.some.injEq, ← UInt16.toNat_inj,
      UInt16.toNat_ofNat_of_lt' (by simpa [UInt16.size] using h)]
    exact eq_comm
  next h => simp only [reduceCtorEq, false_iff]; omega

theorem after?_eq_none_iff {a : Address} {n : Nat} : after? a n = none ↔ 65536 ≤ a.toNat + n := by
  unfold after?
  split
  next h => simp only [reduceCtorEq, false_iff]; omega
  next h => simp only [true_iff]; omega

end Address

end Z80Atlas
