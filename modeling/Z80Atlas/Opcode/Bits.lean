import Z80Atlas.Opcode.Main

/-!
# Shifts and single bits

The table behind `CB` works on a register or on memory at `HL`.  Behind `DD CB` and `FD CB` the same
operations work on memory at an index register, and all but the bit tests also copy their result
into the register that the opcode names.
-/

namespace Z80Atlas.Opcode

/-- The rotations and shifts. -/
def shifts : Vector String 8 := #v["RLC", "RRC", "RL", "RR", "SLA", "SRA", "SLL", "SRL"]

/-- The operation of a byte behind `CB`, up to its operand. -/
def bitOperation (b : UInt8) : String :=
  let y := (highDigit b).val
  if b < 0x40 then shifts.get (highDigit b) ++ " "
  else if b < 0x80 then s!"BIT {y},"
  else if b < 0xC0 then s!"RES {y},"
  else s!"SET {y},"

/-- The entry of a byte behind `CB`. -/
def bits (b : UInt8) : Entry :=
  op (bitOperation b ++ lowRegister b)

/-- The register that gets a copy of the result, as the template shows it. -/
def copyOf (b : UInt8) : String :=
  if b.toNat % 8 = 6 || (0x40 ≤ b && b < 0x80) then "" else "," ++ lowRegister b

/-- The entry of the last byte behind `DD CB` or `FD CB`. -/
def indexedBits (r : IndexRegister) (b : UInt8) : Entry :=
  op s!"{bitOperation b}({r.name}#){copyOf b}" .displacement

end Z80Atlas.Opcode
