import Z80Atlas.Instruction
import Z80Atlas.Settings

/-!
# Rendering

The text of an instruction is its template with the operands in the place of the `#` characters, in
order.  Whoever asks for the text says how addresses are named; an address without a name is written
as a number.
-/

namespace Z80Atlas

/-- How an operand is named: from the address, the kind of the operand, and where the instruction
stands. -/
abbrev Resolver := (target : Address) → (kind : OperandKind) → (source : Address) → Option String

/-- Nothing has a name. -/
def Resolver.nameless : Resolver := fun _ _ _ => none

/-- Put operands in the place of the `#` characters, from left to right.  A `#` that is left over
stays as it is, and an operand that is left over is not written. -/
def substitute : (template : List Char) → (operands : List String) → List Char
  | [], _ => []
  | '#' :: rest, operand :: operands => operand.toList ++ substitute rest operands
  | c :: rest, operands => c :: substitute rest operands

/-- An integer with its sign. -/
def signedText (i : Int) : String :=
  if i < 0 then "-" ++ toString i.natAbs else "+" ++ toString i.natAbs

namespace Instruction

/-- The text of the primary operand.  Words below `100h` are never taken for addresses. -/
def valueText (i : Instruction) (names : Resolver) (numbers : NumberFormat) : String :=
  let word := Address.ofInt i.value
  let byte := UInt8.ofNat word.toNat
  match i.kind with
  | .none => ""
  | .byte | .ioPort => numbers.byte byte
  | .displacement => signedText i.value
  | .word | .wordBigEndian =>
    if word < 0x100 then numbers.word word
    else (names word i.kind i.address).getD (numbers.word word)
  | .restart => (names word i.kind i.address).getD (numbers.byte byte)
  | .data | .relative | .jump | .call => (names word i.kind i.address).getD (numbers.word word)

/-- The texts of the operands. -/
def operandTexts (i : Instruction) (names : Resolver) (numbers : NumberFormat) : List String :=
  (if i.kind = .none then [] else [i.valueText names numbers]) ++ (i.extra.map numbers.byte).toList

/-- The text of the instruction. -/
def render (i : Instruction) (names : Resolver) (settings : Settings) : String :=
  let template := i.template.toList
  let template := if settings.lowercase then template.map Char.toLower else template
  String.ofList (substitute template (i.operandTexts names settings.numbers))

/-- The instruction together with its text. -/
def rendered (i : Instruction) (names : Resolver) (settings : Settings) : Instruction :=
  { i with text := some (i.render names settings) }

end Instruction

end Z80Atlas
