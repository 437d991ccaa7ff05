import Z80Atlas.Opcode

/-!
# The first opcode byte

The opcodes `00` to `3F` and `C0` to `FF` are listed; between them lie the loads from register to
register and the arithmetic on the accumulator, which are regular.  Four bytes lead over to further
tables.
-/

namespace Z80Atlas.Opcode

/-- What the first byte of an instruction selects. -/
inductive Slot
  /-- An instruction. -/
  | entry (e : Entry)
  /-- The table of shifts and single bits (`CB`). -/
  | bits
  /-- The extended table (`ED`). -/
  | extended
  /-- The forms with an index register (`DD`, `FD`). -/
  | indexed (r : IndexRegister)
deriving DecidableEq

/-- An entry without a second operand byte. -/
def op (template : String) (kind : OperandKind := .none) (effects : Effects := {}) : Entry :=
  { template, kind, effects }

/-- The opcodes `00` to `3F`, eight to a group. -/
def lowRows : Vector Entry 64 := #v[
  op "NOP", op "LD BC,#" .word, op "LD (BC),A", op "INC BC", op "INC B", op "DEC B",
  op "LD B,#" .byte, op "RLCA",
  op "EX AF,AF'", op "ADD HL,BC", op "LD A,(BC)", op "DEC BC", op "INC C", op "DEC C",
  op "LD C,#" .byte, op "RRCA",
  op "DJNZ #" .relative .jumpIf, op "LD DE,#" .word, op "LD (DE),A", op "INC DE",
  op "INC D", op "DEC D", op "LD D,#" .byte, op "RLA",
  op "JR #" .relative .jump, op "ADD HL,DE", op "LD A,(DE)", op "DEC DE", op "INC E", op "DEC E",
  op "LD E,#" .byte, op "RRA",
  op "JR NZ,#" .relative .jumpIf, op "LD HL,#" .word, op "LD (#),HL" .data, op "INC HL", op "INC H",
  op "DEC H", op "LD H,#" .byte, op "DAA",
  op "JR Z,#" .relative .jumpIf, op "ADD HL,HL", op "LD HL,(#)" .data, op "DEC HL",
  op "INC L", op "DEC L", op "LD L,#" .byte, op "CPL",
  op "JR NC,#" .relative .jumpIf, op "LD SP,#" .word, op "LD (#),A" .data, op "INC SP",
  op "INC (HL)", op "DEC (HL)", op "LD (HL),#" .byte, op "SCF",
  op "JR C,#" .relative .jumpIf, op "ADD HL,SP", op "LD A,(#)" .data, op "DEC SP",
  op "INC A", op "DEC A", op "LD A,#" .byte, op "CCF"]

/-- The opcodes `C0` to `FF`, eight to a group. -/
def highRows : Vector Slot 64 := #v[
  .entry (op "RET NZ" .none .retIf), .entry (op "POP BC"), .entry (op "JP NZ,#" .jump .jumpIf),
  .entry (op "JP #" .jump .jump), .entry (op "CALL NZ,#" .call .callIf), .entry (op "PUSH BC"),
  .entry (op "ADD A,#" .byte), .entry (op "RST #" .restart .callAlways),
  .entry (op "RET Z" .none .retIf), .entry (op "RET" .none .retAlways),
  .entry (op "JP Z,#" .jump .jumpIf), .bits, .entry (op "CALL Z,#" .call .callIf),
  .entry (op "CALL #" .call .callAlways), .entry (op "ADC A,#" .byte),
  .entry (op "RST #" .restart .callAlways), .entry (op "RET NC" .none .retIf), .entry (op "POP DE"),
  .entry (op "JP NC,#" .jump .jumpIf), .entry (op "OUT (#),A" .ioPort),
  .entry (op "CALL NC,#" .call .callIf), .entry (op "PUSH DE"), .entry (op "SUB #" .byte),
  .entry (op "RST #" .restart .callAlways), .entry (op "RET C" .none .retIf), .entry (op "EXX"),
  .entry (op "JP C,#" .jump .jumpIf), .entry (op "IN A,(#)" .ioPort),
  .entry (op "CALL C,#" .call .callIf), .indexed .ix, .entry (op "SBC A,#" .byte),
  .entry (op "RST #" .restart .callAlways), .entry (op "RET PO" .none .retIf), .entry (op "POP HL"),
  .entry (op "JP PO,#" .jump .jumpIf), .entry (op "EX (SP),HL"),
  .entry (op "CALL PO,#" .call .callIf), .entry (op "PUSH HL"), .entry (op "AND #" .byte),
  .entry (op "RST #" .restart .callAlways), .entry (op "RET PE" .none .retIf),
  .entry (op "JP (HL)" .none .halt), .entry (op "JP PE,#" .jump .jumpIf), .entry (op "EX DE,HL"),
  .entry (op "CALL PE,#" .call .callIf), .extended, .entry (op "XOR #" .byte),
  .entry (op "RST #" .restart .callAlways), .entry (op "RET P" .none .retIf), .entry (op "POP AF"),
  .entry (op "JP P,#" .jump .jumpIf), .entry (op "DI"), .entry (op "CALL P,#" .call .callIf),
  .entry (op "PUSH AF"), .entry (op "OR #" .byte), .entry (op "RST #" .restart .callAlways),
  .entry (op "RET M" .none .retIf), .entry (op "LD SP,HL"), .entry (op "JP M,#" .jump .jumpIf),
  .entry (op "EI"), .entry (op "CALL M,#" .call .callIf), .indexed .iy, .entry (op "CP #" .byte),
  .entry (op "RST #" .restart .callAlways)]

/-- The operations on the accumulator. -/
def accumulator : Vector String 8 :=
  #v["ADD A,", "ADC A,", "SUB ", "SBC A,", "AND ", "XOR ", "OR ", "CP "]

/-- The opcodes `40` to `7F`: loads between registers, with a halt in the place of a load from
memory to memory. -/
def load (b : UInt8) : Entry :=
  if b = 0x76 then op "HALT" else op s!"LD {highRegister b},{lowRegister b}"

/-- The opcodes `80` to `BF`: arithmetic on the accumulator. -/
def arithmetic (b : UInt8) : Entry :=
  op (accumulator.get (highDigit b) ++ lowRegister b)

/-- What the first byte of an instruction selects. -/
def first (b : UInt8) : Slot :=
  if b < 0x40 then .entry (lowRows.get (Fin.ofNat 64 b.toNat))
  else if b < 0x80 then .entry (load b)
  else if b < 0xC0 then .entry (arithmetic b)
  else highRows.get (Fin.ofNat 64 b.toNat)

end Z80Atlas.Opcode
