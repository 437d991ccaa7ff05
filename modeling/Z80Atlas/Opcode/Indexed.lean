import Z80Atlas.Opcode.Main

/-!
# Forms with an index register

The bytes behind `DD` and `FD` that have a form of their own.  The two registers share one list of
rows.
-/

namespace Z80Atlas.Opcode

/-- The rows for an index register with the given name. -/
def indexedRows (x : String) : List (UInt8 × Entry) := [
  (0x09, op s!"ADD {x},BC"), (0x19, op s!"ADD {x},DE"), (0x21, op s!"LD {x},#" .word),
  (0x22, op s!"LD (#),{x}" .data), (0x23, op s!"INC {x}"), (0x24, op s!"INC {x}H"),
  (0x25, op s!"DEC {x}H"), (0x26, op s!"LD {x}H,#" .byte), (0x29, op s!"ADD {x},{x}"),
  (0x2A, op s!"LD {x},(#)" .data), (0x2B, op s!"DEC {x}"), (0x2C, op s!"INC {x}L"),
  (0x2D, op s!"DEC {x}L"), (0x2E, op s!"LD {x}L,#" .byte), (0x34, op s!"INC ({x}#)" .displacement),
  (0x35, op s!"DEC ({x}#)" .displacement),
  (0x36, { op s!"LD ({x}#),#" .displacement with extra := true }), (0x39, op s!"ADD {x},SP"),
  (0x44, op s!"LD B,{x}H"), (0x45, op s!"LD B,{x}L"), (0x46, op s!"LD B,({x}#)" .displacement),
  (0x4C, op s!"LD C,{x}H"), (0x4D, op s!"LD C,{x}L"), (0x4E, op s!"LD C,({x}#)" .displacement),
  (0x54, op s!"LD D,{x}H"), (0x55, op s!"LD D,{x}L"), (0x56, op s!"LD D,({x}#)" .displacement),
  (0x5C, op s!"LD E,{x}H"), (0x5D, op s!"LD E,{x}L"), (0x5E, op s!"LD E,({x}#)" .displacement),
  (0x60, op s!"LD {x}H,B"), (0x61, op s!"LD {x}H,C"), (0x62, op s!"LD {x}H,D"),
  (0x63, op s!"LD {x}H,E"), (0x64, op s!"LD {x}H,{x}H"), (0x65, op s!"LD {x}H,{x}L"),
  (0x66, op s!"LD H,({x}#)" .displacement), (0x67, op s!"LD {x}H,A"), (0x68, op s!"LD {x}L,B"),
  (0x69, op s!"LD {x}L,C"), (0x6A, op s!"LD {x}L,D"), (0x6B, op s!"LD {x}L,E"),
  (0x6C, op s!"LD {x}L,{x}H"), (0x6D, op s!"LD {x}L,{x}L"),
  (0x6E, op s!"LD L,({x}#)" .displacement), (0x6F, op s!"LD {x}L,A"),
  (0x70, op s!"LD ({x}#),B" .displacement), (0x71, op s!"LD ({x}#),C" .displacement),
  (0x72, op s!"LD ({x}#),D" .displacement), (0x73, op s!"LD ({x}#),E" .displacement),
  (0x74, op s!"LD ({x}#),H" .displacement), (0x75, op s!"LD ({x}#),L" .displacement),
  (0x77, op s!"LD ({x}#),A" .displacement), (0x7C, op s!"LD A,{x}H"), (0x7D, op s!"LD A,{x}L"),
  (0x7E, op s!"LD A,({x}#)" .displacement), (0x84, op s!"ADD A,{x}H"), (0x85, op s!"ADD A,{x}L"),
  (0x86, op s!"ADD A,({x}#)" .displacement), (0x8C, op s!"ADC A,{x}H"), (0x8D, op s!"ADC A,{x}L"),
  (0x8E, op s!"ADC A,({x}#)" .displacement), (0x94, op s!"SUB {x}H"), (0x95, op s!"SUB {x}L"),
  (0x96, op s!"SUB ({x}#)" .displacement), (0x9C, op s!"SBC A,{x}H"), (0x9D, op s!"SBC A,{x}L"),
  (0x9E, op s!"SBC A,({x}#)" .displacement), (0xA4, op s!"AND {x}H"), (0xA5, op s!"AND {x}L"),
  (0xA6, op s!"AND ({x}#)" .displacement), (0xAC, op s!"XOR {x}H"), (0xAD, op s!"XOR {x}L"),
  (0xAE, op s!"XOR ({x}#)" .displacement), (0xB4, op s!"OR {x}H"), (0xB5, op s!"OR {x}L"),
  (0xB6, op s!"OR ({x}#)" .displacement), (0xBC, op s!"CP {x}H"), (0xBD, op s!"CP {x}L"),
  (0xBE, op s!"CP ({x}#)" .displacement), (0xE1, op s!"POP {x}"), (0xE3, op s!"EX (SP),{x}"),
  (0xE5, op s!"PUSH {x}"), (0xE9, op s!"JP ({x})" .none .halt), (0xF9, op s!"LD SP,{x}")]

/-- The rows for `IX`. -/
def ixRows : List (UInt8 × Entry) := indexedRows IndexRegister.ix.name

/-- The rows for `IY`. -/
def iyRows : List (UInt8 × Entry) := indexedRows IndexRegister.iy.name

/-- The entry of a byte behind `DD` or `FD`, if it has one. -/
def indexed : IndexRegister → UInt8 → Option Entry
  | .ix, b => ixRows.lookup b
  | .iy, b => iyRows.lookup b

end Z80Atlas.Opcode
