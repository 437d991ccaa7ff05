import Z80Atlas.Opcode
import Z80Atlas.Word

/-!
# Instructions

A decoded instruction: where it stands, what its opcode says, and its operands.  The value of a
relative jump is the address it leads to; the value of a displacement is signed.
-/

namespace Z80Atlas

/-- A decoded instruction. -/
structure Instruction where
  /-- Where it stands. -/
  address : Address
  /-- The opcode bytes as one number. -/
  code : Nat
  /-- The text with a `#` for each operand. -/
  template : String
  /-- How many bytes it has. -/
  length : Nat
  effects : Effects
  kind : OperandKind
  /-- The primary operand. -/
  value : Int
  /-- The second operand byte. -/
  extra : Option Byte := none
  /-- The text with the operands, once it has been rendered. -/
  text : Option String := none
deriving DecidableEq

namespace Instruction

/-- The address behind the instruction, around the top if need be. -/
def next (i : Instruction) : Address := i.address + UInt16.ofNat i.length

/-- The address behind the instruction, if that is inside the address space. -/
def next? (i : Instruction) : Option Address := Address.after? i.address i.length

/-- The operand as an address, if it is one. -/
def target? (i : Instruction) : Option Address :=
  if i.kind.isAddress then some (Address.ofInt i.value) else none

/-- Where the instruction branches to. -/
def branchTarget? (i : Instruction) : Option Address :=
  if i.effects.branch then i.target? else none

/-- The text up to the operands. -/
def mnemonic (i : Instruction) : String :=
  String.ofList (i.template.toList.takeWhile (· ≠ ' '))

end Instruction

end Z80Atlas
