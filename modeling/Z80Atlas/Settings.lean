import Z80Atlas.Json
import Z80Atlas.Opcode
import Z80Atlas.Text.Quoted
import Z80Atlas.Word.Hex

/-!
# Settings

How names are made up, how numbers and mnemonics are written, and which processor is meant.  A name
is a stem followed by an address or a count; the stems have to satisfy `Stems.fault?` before an
analysis uses them.
-/

namespace Z80Atlas

/-! ### Stems of names -/

/-- What a made-up name can stand for. -/
inductive Stem
  /-- The start of a subroutine. -/
  | subroutine
  /-- A jump target outside of any subroutine. -/
  | target
  /-- The start of a subroutine at a restart address. -/
  | restart
  /-- Data. -/
  | data
  /-- Code that is referred to as data. -/
  | code
  /-- A place inside a block. -/
  | interior
  /-- The start of a loop inside a block. -/
  | loop
deriving DecidableEq

namespace Stem

/-- The name of the setting. -/
def name : Stem → String
  | subroutine => "sub"
  | target => "lbl"
  | restart => "rst"
  | data => "data"
  | code => "code"
  | interior => "local"
  | loop => "local_loop"

/-- The stems of names that are followed by an address. -/
def globals : List Stem := [subroutine, target, restart, data, code]

/-- All stems, in the order in which they are checked. -/
def all : List Stem := globals ++ [interior, loop]

end Stem

/-- The texts that made-up names start with. -/
structure Stems where
  subroutine : String := "SUB_"
  target : String := "LBL_"
  restart : String := "RST_"
  data : String := "DATA_"
  code : String := "CODE_"
  interior : String := "L"
  loop : String := "LOOP"
deriving DecidableEq

/-- What is wrong with the stems. -/
inductive StemFault
  | empty (stem : Stem)
  | badCharacter (stem : Stem) (text : String)
  | duplicate (first second : Stem)
deriving DecidableEq

/-- The text of a fault. -/
def StemFault.message : StemFault → String
  | .empty stem => s!"label prefix '{stem.name}' must not be empty"
  | .badCharacter stem text =>
    s!"label prefix '{stem.name}' ({Text.quoted text}) must not contain whitespace or '.'"
  | .duplicate first second => s!"label prefixes '{first.name}' and '{second.name}' are identical"

namespace Stems

/-- The text of a stem. -/
def get (s : Stems) : Stem → String
  | .subroutine => s.subroutine
  | .target => s.target
  | .restart => s.restart
  | .data => s.data
  | .code => s.code
  | .interior => s.interior
  | .loop => s.loop

/-- What is wrong with a single stem: it has to have characters, none of them blank or the point
that divides a local name from the name of its block. -/
def faultOf? (s : Stems) (stem : Stem) : Option StemFault :=
  let text := s.get stem
  if text.isEmpty then some (.empty stem)
  else if text.toList.any fun c => c = '.' || Text.isBlank c then some (.badCharacter stem text)
  else none

/-- The first two of the given stems with the same text. -/
def duplicate? (s : Stems) : List Stem → Option StemFault
  | [] => none
  | first :: rest =>
    match rest.find? fun second => s.get first = s.get second with
    | some second => some (.duplicate first second)
    | none => s.duplicate? rest

/-- The first fault: of a single stem, or of two global stems that are the same. -/
def fault? (s : Stems) : Option StemFault :=
  (Stem.all.findSome? s.faultOf?).or (s.duplicate? Stem.globals)

end Stems

/-! ### Numbers -/

/-- How numbers are written. -/
structure NumberFormat where
  /-- What stands before the digits. -/
  before : String := ""
  /-- What stands after the digits. -/
  after : String := "h"
  /-- The letters among the digits. -/
  letters : LetterCase := .upper
deriving DecidableEq

namespace NumberFormat

/-- A number with the given count of digits.  Where something follows the digits they never start
with a letter. -/
def hex (f : NumberFormat) (width n : Nat) : String :=
  let digits := hexDigits f.letters width n
  let zero := if !f.after.isEmpty && (digits.head?.any Char.isAlpha) then "0" else ""
  f.before ++ zero ++ String.ofList digits ++ f.after

/-- A byte in two digits. -/
def byte (f : NumberFormat) (b : Byte) : String := f.hex 2 b.toNat

/-- A word in four digits. -/
def word (f : NumberFormat) (a : Address) : String := f.hex 4 a.toNat

end NumberFormat

/-! ### Settings -/

/-- The settings of an analysis. -/
structure Settings where
  stems : Stems := {}
  numbers : NumberFormat := {}
  variant : Opcode.Variant := .z80
  /-- Write mnemonics in small letters. -/
  lowercase : Bool := false
deriving DecidableEq

namespace Settings

/-- The first fault of the settings. -/
def fault? (s : Settings) : Option StemFault := s.stems.fault?

/-- The settings on one line. -/
def display (s : Settings) : String :=
  let t := s.stems
  let z80n := if s.variant = .z80n then "true" else "false"
  "Config \x7b sub: " ++ t.subroutine ++ ", lbl: " ++ t.target ++ ", rst: " ++ t.restart ++
    ", data: " ++ t.data ++ ", code: " ++ t.code ++ ", local: ." ++ t.interior ++ "/." ++ t.loop ++
      ", hex: " ++ s.numbers.before ++ "XX" ++
    s.numbers.after ++ ", z80n: " ++ z80n ++ " \x7d"

end Settings

end Z80Atlas
