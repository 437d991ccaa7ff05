import Z80Atlas.Text.Blank
import Z80Atlas.Word

/-!
# Addresses on the command line

An address is written as `0x8000`, `$8000`, `8000h` or `32768`, in letters of either case and with
blanks around it.  Its digits may follow a plus sign.  A number that does not fit into 32 bits is no
number at all; one that fits but is no address is told apart from that.
-/

namespace Z80Atlas.Command

/-- What is wrong with the text of an address. -/
inductive AddressFault
  | outside (text : String)
  | invalid (text : String)
deriving DecidableEq

/-- The text of the fault. -/
def AddressFault.message : AddressFault → String
  | .outside text => s!"address '{text}' is outside 0..FFFFh"
  | .invalid text => s!"invalid address '{text}'"

/-- The value of a digit in the given base, which is at most sixteen; letters are small. -/
def digitValue? (base : Nat) (c : Char) : Option Nat :=
  let value :=
    if '0' ≤ c ∧ c ≤ '9' then some (c.toNat - 48)
    else if 'a' ≤ c ∧ c ≤ 'f' then some (c.toNat - 87)
    else none
  value.filter (· < base)

/-- The value of digits, most significant first, behind digits of the value `n`. -/
def digitsValue? (base : Nat) (n : Nat) : List Char → Option Nat
  | [] => some n
  | c :: rest => do
    let d ← digitValue? base c
    digitsValue? base (n * base + d) rest

/-- The value of a number: digits, at least one, behind an optional plus sign. -/
def numberValue? (base : Nat) : List Char → Option Nat
  | [] => none
  | ['+'] => none
  | '+' :: digits => digitsValue? base 0 digits
  | digits => digitsValue? base 0 digits

/-- The base of a number and the number itself, without the mark that tells the base. -/
def splitBase : List Char → Nat × List Char
  | '0' :: 'x' :: rest => (16, rest)
  | '$' :: rest => (16, rest)
  | cs => if cs.getLast? = some 'h' then (16, cs.dropLast) else (10, cs)

/-- The number that a text in small letters stands for. -/
def textValue? (cs : List Char) : Option Nat :=
  (numberValue? (splitBase cs).1 (splitBase cs).2).filter (· < UInt32.size)

/-- Read an address. -/
def parseAddress (s : String) : Except AddressFault Address :=
  let text := Text.trim s
  match textValue? (text.toList.map Char.toLower) with
  | some n => if n < 65536 then .ok (UInt16.ofNat n) else .error (.outside text)
  | none => .error (.invalid text)

end Z80Atlas.Command
