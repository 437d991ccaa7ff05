import Z80Atlas.Instruction
import Z80Atlas.Memory
import Z80Atlas.Opcode.Bits
import Z80Atlas.Opcode.Extended
import Z80Atlas.Opcode.Indexed

/-!
# Decoding

Decoding reads the bytes of an instruction through a function that gives the byte at each distance
from its start, so that an instruction depends on nothing but those bytes and its own address.  The
opcode bytes select a `Form`, which says where the operands stand; the operands are then read from
there.
-/

namespace Z80Atlas

/-- What the opcode bytes of an instruction say. -/
structure Form where
  /-- The opcode bytes as one number. -/
  code : Nat
  /-- The entry of the opcode table. -/
  entry : Opcode.Entry
  /-- How far behind the first byte the primary operand stands. -/
  operandAt : Nat
  /-- How many bytes the instruction has. -/
  length : Nat

namespace Form

/-- An opcode of `size` bytes with its operands behind it. -/
def leading (code : Nat) (entry : Opcode.Entry) (size : Nat) : Form where
  code
  entry
  operandAt := size
  length := size + entry.operandSize

/-- A leading byte that modifies nothing: a no-operation of its own. -/
def ignored (r : Opcode.IndexRegister) : Form := leading r.lead.toNat Opcode.idle 1

/-- The form behind a byte that selects an index register.  Another such byte, or the start of an
extended opcode, leaves the first one without effect; the bit operations have their displacement
before the last opcode byte. -/
def indexed (r : Opcode.IndexRegister) (fetch : Nat → Byte) : Form :=
  if fetch 1 = 0xDD ∨ fetch 1 = 0xFD ∨ fetch 1 = 0xED then ignored r
  else if fetch 1 = 0xCB then
    { code := r.lead.toNat * 0x10000 + 0xCB00 + (fetch 3).toNat
      entry := Opcode.indexedBits r (fetch 3)
      operandAt := 2
      length := 4 }
  else match Opcode.indexed r (fetch 1) with
    | some entry => leading (r.lead.toNat * 0x100 + (fetch 1).toNat) entry 2
    | none => ignored r

/-- The form that the opcode bytes select. -/
def read (v : Opcode.Variant) (fetch : Nat → Byte) : Form :=
  match Opcode.first (fetch 0) with
  | .entry entry => leading (fetch 0).toNat entry 1
  | .bits => leading (0xCB00 + (fetch 1).toNat) (Opcode.bits (fetch 1)) 2
  | .extended => leading (0xED00 + (fetch 1).toNat) (Opcode.extended v (fetch 1)) 2
  | .indexed r => indexed r fetch

/-- The value of the primary operand. -/
def value (f : Form) (fetch : Nat → Byte) (address : Address) : Int :=
  match f.entry.kind with
  | .none => 0
  | .byte | .ioPort => (fetch f.operandAt).toNat
  | .word | .data | .jump | .call =>
    (Address.ofBytes (fetch f.operandAt) (fetch (f.operandAt + 1))).toNat
  | .wordBigEndian => (Address.ofBytes (fetch (f.operandAt + 1)) (fetch f.operandAt)).toNat
  | .displacement => Byte.signed (fetch f.operandAt)
  | .relative => (Address.ofInt (address.toNat + f.length + Byte.signed (fetch f.operandAt))).toNat
  | .restart => f.code / 8 % 8 * 8

/-- The second operand byte. -/
def extra (f : Form) (fetch : Nat → Byte) : Option Byte :=
  if f.entry.extra then some (fetch (f.operandAt + f.entry.kind.size)) else none

theorem length_leading_pos (code : Nat) (entry : Opcode.Entry) {size : Nat} (h : 0 < size) :
    0 < (leading code entry size).length :=
  Nat.lt_of_lt_of_le h (Nat.le_add_right ..)

theorem length_indexed_pos (r : Opcode.IndexRegister) (fetch : Nat → Byte) :
    0 < (indexed r fetch).length := by
  unfold indexed
  split
  · exact length_leading_pos _ _ Nat.one_pos
  · split
    · exact Nat.succ_pos _
    · split
      · exact length_leading_pos _ _ Nat.two_pos
      · exact length_leading_pos _ _ Nat.one_pos

theorem length_read_pos (v : Opcode.Variant) (fetch : Nat → Byte) : 0 < (read v fetch).length := by
  unfold read
  split
  · exact length_leading_pos _ _ Nat.one_pos
  · exact length_leading_pos _ _ Nat.two_pos
  · exact length_leading_pos _ _ Nat.two_pos
  · exact length_indexed_pos _ _

end Form

/-- Decode the instruction at `address`, whose bytes `fetch` gives. -/
def decode (v : Opcode.Variant) (fetch : Nat → Byte) (address : Address) : Instruction :=
  let form := Form.read v fetch
  { address
    code := form.code
    template := form.entry.template
    length := form.length
    effects := form.entry.effects
    kind := form.entry.kind
    value := form.value fetch address
    extra := form.extra fetch }

/-- Decode the instruction at an address. -/
def Memory.decode (m : Memory) (v : Opcode.Variant) (a : Address) : Instruction :=
  Z80Atlas.decode v (m.fetch a) a

theorem Memory.length_decode_pos (m : Memory) (v : Opcode.Variant) (a : Address) :
    0 < (m.decode v a).length :=
  Form.length_read_pos v (m.fetch a)

@[simp] theorem Memory.address_decode (m : Memory) (v : Opcode.Variant) (a : Address) :
    (m.decode v a).address = a := rfl

end Z80Atlas
