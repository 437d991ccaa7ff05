import Z80Atlas.Opcode.Main

/-!
# The extended table

The bytes behind `ED`.  From `40` to `7F` they are regular; the block instructions and the additions
of the Z80N are listed; every other byte does nothing.
-/

namespace Z80Atlas.Opcode

/-- The register pairs. -/
def pairs : Vector String 4 := #v["BC", "DE", "HL", "SP"]

/-- The interrupt modes. -/
def interruptModes : Vector String 8 := #v["0", "0/1", "1", "2", "0", "0/1", "1", "2"]

/-- The opcodes of the last column. -/
def lastColumn : Vector Entry 8 := #v[
  op "LD I,A", op "LD R,A", op "LD A,I", op "LD A,R", op "RRD", op "RLD", idle, idle]

/-- The bytes `40` to `7F` behind `ED`. -/
def regular (b : UInt8) : Entry :=
  let y := (highDigit b).val
  let pair := pairs.get (Fin.ofNat 4 (y / 2))
  match b.toNat % 8 with
  | 0 => op (if y = 6 then "IN F,(C)" else s!"IN {highRegister b},(C)")
  | 1 => op (if y = 6 then "OUT (C),0" else s!"OUT (C),{highRegister b}")
  | 2 => op (if y % 2 = 0 then s!"SBC HL,{pair}" else s!"ADC HL,{pair}")
  | 3 => op (if y % 2 = 0 then s!"LD (#),{pair}" else s!"LD {pair},(#)") .data
  | 4 => op "NEG"
  | 5 => op (if y = 1 then "RETI" else "RETN") .none .retAlways
  | 6 => op s!"IM {interruptModes.get (highDigit b)}"
  | _ => lastColumn.get (highDigit b)

/-- Block transfer, search, input and output. -/
def blockRows : List (UInt8 × Entry) := [
  (0xA0, op "LDI"), (0xA1, op "CPI"), (0xA2, op "INI"), (0xA3, op "OUTI"), (0xA8, op "LDD"),
  (0xA9, op "CPD"), (0xAA, op "IND"), (0xAB, op "OUTD"), (0xB0, op "LDIR"), (0xB1, op "CPIR"),
  (0xB2, op "INIR"), (0xB3, op "OTIR"), (0xB8, op "LDDR"), (0xB9, op "CPDR"), (0xBA, op "INDR"),
  (0xBB, op "OTDR")]

/-- The additions of the Z80N. -/
def additionRows : List (UInt8 × Entry) := [
  (0x23, op "SWAPNIB"), (0x24, op "MIRROR A"), (0x27, op "TEST #" .byte), (0x28, op "BSLA DE,B"),
  (0x29, op "BSRA DE,B"), (0x2A, op "BSRL DE,B"), (0x2B, op "BSRF DE,B"), (0x2C, op "BRLC DE,B"),
  (0x30, op "MUL D,E"), (0x31, op "ADD HL,A"), (0x32, op "ADD DE,A"), (0x33, op "ADD BC,A"),
  (0x34, op "ADD HL,#" .word), (0x35, op "ADD DE,#" .word), (0x36, op "ADD BC,#" .word),
  (0x8A, op "PUSH #" .wordBigEndian), (0x90, op "OUTINB"),
  (0x91, { op "NEXTREG #,#" .byte with extra := true }), (0x92, op "NEXTREG #,A" .byte),
  (0x93, op "PIXELDN"), (0x94, op "PIXELAD"), (0x95, op "SETAE"), (0x98, op "JP (C)" .none .halt),
  (0xA4, op "LDIX"), (0xA5, op "LDWS"), (0xAC, op "LDDX"), (0xB4, op "LDIRX"), (0xB7, op "LDPIRX"),
  (0xBC, op "LDDRX")]

/-- The entry of a byte behind `ED` on the plain processor. -/
def extendedPlain (b : UInt8) : Entry :=
  if 0x40 ≤ b && b < 0x80 then regular b
  else (blockRows.lookup b).getD idle

/-- The entry of a byte behind `ED`. -/
def extended : Variant → UInt8 → Entry
  | .z80, b => extendedPlain b
  | .z80n, b => (additionRows.lookup b).getD (extendedPlain b)

end Z80Atlas.Opcode
