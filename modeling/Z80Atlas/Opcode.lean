/-!
# Opcode entries

An opcode is described by the template of its text, the kind of operand that follows it and its
effect on the flow of control.  A template has one `#` for each operand.  An entry whose parts
disagree has a `Defect`.
-/

namespace Z80Atlas

/-- What the primary operand of an instruction is.  The kinds that are addresses come last. -/
inductive OperandKind
  /-- No operand. -/
  | none
  /-- A byte. -/
  | byte
  /-- A word, low byte first. -/
  | word
  /-- A word, high byte first. -/
  | wordBigEndian
  /-- A signed displacement from an index register. -/
  | displacement
  /-- Where `IN` and `OUT` read and write. -/
  | ioPort
  /-- The address of data. -/
  | data
  /-- A jump target, given by its signed distance. -/
  | relative
  /-- A jump target. -/
  | jump
  /-- The target of a call. -/
  | call
  /-- The target of a restart, taken from the opcode itself. -/
  | restart
deriving DecidableEq, Ord

namespace OperandKind

/-- How many bytes hold the operand. -/
def size : OperandKind → Nat
  | none | restart => 0
  | byte | displacement | ioPort | relative => 1
  | word | wordBigEndian | data | jump | call => 2

/-- Whether the operand is the address of code. -/
def isCode : OperandKind → Bool
  | relative | jump | call | restart => true
  | _ => false

/-- Whether the operand is an address, which can have a label. -/
def isAddress : OperandKind → Bool
  | data => true
  | k => k.isCode

theorem size_le_two (k : OperandKind) : k.size ≤ 2 := by
  cases k <;> decide

end OperandKind

/-- The effect of an instruction on the flow of control. -/
structure Effects where
  /-- The operand is a branch target. -/
  branch : Bool := false
  /-- The branch comes back to the following instruction. -/
  call : Bool := false
  /-- Control never goes on to the following instruction. -/
  stop : Bool := false
  /-- Control goes back to the caller. -/
  ret : Bool := false
  /-- The branch or return depends on a condition. -/
  conditional : Bool := false
deriving DecidableEq

namespace Effects

/-- A jump. -/
def jump : Effects := { branch := true, stop := true }

/-- A jump that depends on a condition. -/
def jumpIf : Effects := { branch := true, conditional := true }

/-- A call. -/
def callAlways : Effects := { branch := true, call := true }

/-- A call that depends on a condition. -/
def callIf : Effects := { branch := true, call := true, conditional := true }

/-- A return. -/
def retAlways : Effects := { stop := true, ret := true }

/-- A return that depends on a condition. -/
def retIf : Effects := { ret := true, conditional := true }

/-- A jump to an address that is not known. -/
def halt : Effects := { stop := true }

end Effects

namespace Opcode

/-- One entry of a decode table. -/
structure Entry where
  /-- The text, with a `#` for each operand. -/
  template : String
  /-- What the primary operand is. -/
  kind : OperandKind := .none
  /-- The effect on the flow of control. -/
  effects : Effects := {}
  /-- Whether a second byte follows the primary operand. -/
  extra : Bool := false
deriving DecidableEq

/-- Why an entry is inconsistent. -/
inductive Defect
  /-- The template has another number of placeholders than there are operands. -/
  | placeholders (found expected : Nat)
  /-- A branch without the address of code. -/
  | branchWithoutTarget
  /-- The address of code without a branch. -/
  | targetWithoutBranch
  /-- A call that does not come back. -/
  | callThatStops
deriving DecidableEq

namespace Entry

/-- How many bytes follow the opcode. -/
def operandSize (e : Entry) : Nat :=
  e.kind.size + e.extra.toNat

/-- How many operands the text shows. -/
def operandCount (e : Entry) : Nat :=
  (decide (e.kind ≠ .none)).toNat + e.extra.toNat

/-- How many placeholders the template has. -/
def placeholderCount (e : Entry) : Nat :=
  e.template.toList.count '#'

/-- The first defect of an entry. -/
def defect? (e : Entry) : Option Defect :=
  if e.placeholderCount ≠ e.operandCount then some (.placeholders e.placeholderCount e.operandCount)
  else if e.effects.branch && !e.kind.isCode then some .branchWithoutTarget
  else if e.kind.isCode && !e.effects.branch then some .targetWithoutBranch
  else if e.effects.call && e.effects.stop then some .callThatStops
  else none

/-- The text of a defect. -/
def describe (e : Entry) : Defect → String
  | .placeholders found expected =>
    s!"'{e.template}' has {found} placeholders for {expected} operands"
  | .branchWithoutTarget =>
    s!"'{e.template}' is flagged BRANCH_ADDRESS without a code address operand"
  | .targetWithoutBranch =>
    s!"'{e.template}' has a code address operand but is not flagged BRANCH_ADDRESS"
  | .callThatStops => s!"'{e.template}' is flagged both CALL and STOP"

end Entry

/-- The processor whose opcodes are meant. -/
inductive Variant
  /-- The plain Z80. -/
  | z80
  /-- The Z80N of the ZX Spectrum Next, which has more opcodes. -/
  | z80n
deriving DecidableEq

/-- The index register that a leading `DD` or `FD` byte selects. -/
inductive IndexRegister
  | ix
  | iy
deriving DecidableEq

namespace IndexRegister

/-- The leading byte. -/
def lead : IndexRegister → UInt8
  | ix => 0xDD
  | iy => 0xFD

/-- The name of the register. -/
def name : IndexRegister → String
  | ix => "IX"
  | iy => "IY"

end IndexRegister

/-- The text of an opcode that does nothing. -/
def idle : Entry := { template := "[NOP]" }

/-- The eight operands that three opcode bits select. -/
def registers : Vector String 8 := #v["B", "C", "D", "E", "H", "L", "(HL)", "A"]

/-- Bits 0 to 2 of an opcode byte. -/
def lowDigit (b : UInt8) : Fin 8 := Fin.ofNat 8 b.toNat

/-- Bits 3 to 5 of an opcode byte. -/
def highDigit (b : UInt8) : Fin 8 := Fin.ofNat 8 (b.toNat / 8)

/-- The operand in bits 0 to 2. -/
def lowRegister (b : UInt8) : String := registers.get (lowDigit b)

/-- The operand in bits 3 to 5. -/
def highRegister (b : UInt8) : String := registers.get (highDigit b)

end Opcode

end Z80Atlas
