/-!
# Control sequences

Text for a terminal holds control sequences, which start with an escape character and are not shown.
Where there is no terminal, `plain` takes them away, together with all other control characters but
the blank ones.

A blank control character inside of a sequence is shown, and the text goes on from there; the
sequence is taken up again at the next character that is not shown.
-/

namespace Z80Atlas.Text

/-! ### Emphasis -/

/-- How a part of a text stands out. -/
inductive Emphasis
  | alarm
  | wrong
  | right
  | literal

/-- The sequences that start the emphasis. -/
def Emphasis.start : Emphasis → String
  | alarm => "\x1b[1m\x1b[31m"
  | wrong => "\x1b[33m"
  | right => "\x1b[32m"
  | literal => "\x1b[1m"

/-- A text that stands out. -/
def Emphasis.apply (e : Emphasis) (s : String) : String := e.start ++ s ++ "\x1b[0m"

/-! ### Sequences -/

/-- Where in a control sequence a character stands. -/
inductive Place
  /-- In none. -/
  | ground
  /-- Behind an escape character. -/
  | escape
  /-- In a sequence that some character from `0` on ends. -/
  | escapeBody
  /-- In a control sequence, which some character from `@` on ends. -/
  | control
  /-- At the start of a device control string. -/
  | deviceStart
  /-- In the parameters of a device control string. -/
  | deviceParam
  /-- Behind the parameters of a device control string. -/
  | deviceBody
  /-- In a string for the device, for the system or for an application. -/
  | string
  /-- In a command for the operating system, which a bell ends. -/
  | command
deriving DecidableEq

/-- Whether a control character is blank, and so is shown. -/
def isBlankControl (n : Nat) : Bool := n = 0x09 || n = 0x0A || n = 0x0C || n = 0x0D

/-- Whether the encoding of a character has the byte `9C`, which ends a string. -/
def endsString (n : Nat) : Bool :=
  n % 64 = 28 || (0x800 ≤ n && n / 64 % 64 = 28) || (0x10000 ≤ n && n / 4096 % 64 = 28)

/-- Where the escape character and one character behind it lead. -/
def afterEscape (n : Nat) : Option Place :=
  if n < 0x20 then none
  else if n < 0x30 then some .escapeBody
  else if n = 0x50 then some .deviceStart
  else if n = 0x58 || n = 0x5E || n = 0x5F then some .string
  else if n = 0x5B then some .control
  else if n = 0x5D then some .command
  else if n < 0x7F then some .ground
  else none

/-- Where a character of a device control string leads before the string itself starts; characters
from `limit` up to `@` are out of place. -/
def inDevice (limit n : Nat) : Option Place :=
  if n < 0x20 then none
  else if n < 0x30 then some .deviceBody
  else if n < limit then some .deviceParam
  else if n < 0x7F then some .string
  else none

/-- Where a character leads from a place, if it changes the place. -/
def Place.next? (p : Place) (n : Nat) : Option Place :=
  if n = 0x18 || n = 0x1A then some .ground
  else if n = 0x1B then some .escape
  else match p with
    | .ground => if 0x80 ≤ n then some .ground else none
    | .escape => afterEscape n
    | .escapeBody => if 0x30 ≤ n && n < 0x7F then some .ground else none
    | .control => if 0x40 ≤ n && n < 0x7F then some .ground else none
    | .deviceStart => inDevice 0x40 n
    | .deviceParam => inDevice 0x3C n
    | .deviceBody => if 0x30 ≤ n && n < 0x7F then some .string else none
    | .string => if 0x80 ≤ n && endsString n then some .ground else none
    | .command => if n = 0x07 then some .ground else none

/-- Whether a character is shown at a place. -/
def Place.shows (p : Place) (n : Nat) : Bool :=
  match p with
  | .ground => isBlankControl n || (0x20 ≤ n && n ≠ 0x7F)
  | .escape | .escapeBody | .control => isBlankControl n
  | _ => false

/-! ### Text without sequences -/

/-- What is known in the middle of a text. -/
structure Scan where
  place : Place := .ground
  /-- Whether the character before was shown. -/
  shown : Bool := false

namespace Scan

/-- Pass over a character, unless it is shown. -/
def skip (s : Scan) (n : Nat) : Scan where
  place := (s.place.next? n).getD s.place
  shown := s.place.shows n

/-- Go on by a character.  Behind a character that was shown, the next one is shown as if there were
no sequence. -/
def step (s : Scan) (n : Nat) : Scan :=
  if s.shown then
    let t : Scan := { s with place := (Place.ground.next? n).getD s.place }
    if Place.ground.shows n then t else t.skip n
  else s.skip n

/-- The characters that are shown. -/
def shownOf (s : Scan) : List Char → List Char
  | [] => []
  | c :: rest =>
    let t := s.step c.toNat
    if t.shown then c :: t.shownOf rest else t.shownOf rest

end Scan

/-- The text without control sequences. -/
def plain (s : String) : String := String.ofList (({} : Scan).shownOf s.toList)

end Z80Atlas.Text
