import Z80Atlas.Json

/-!
# Reading JSON

The leaves come first: blanks, strings, numbers; each takes what it can from the front of the text
and gives back the rest.  Arrays and objects are read by going down one level of fuel, of which the
length of the text is enough.
-/

namespace Z80Atlas.Json

/-! ### Blanks -/

/-- Whether a character may stand between values. -/
def isBlank (c : Char) : Bool := c = ' ' || c = '\t' || c = '\n' || c = '\r'

/-- The text from the first character that is not blank on. -/
def skipBlanks (cs : List Char) : List Char := cs.dropWhile isBlank

/-! ### Strings -/

/-- A part of a string: a character, or the number of an escape that may be half of a surrogate
pair. -/
inductive Piece
  | char (c : Char)
  | unit (n : Nat)

/-- The value of a hexadecimal digit. -/
def hexValue? (c : Char) : Option Nat :=
  if '0' ≤ c ∧ c ≤ '9' then some (c.toNat - 48)
  else if 'a' ≤ c ∧ c ≤ 'f' then some (c.toNat - 87)
  else if 'A' ≤ c ∧ c ≤ 'F' then some (c.toNat - 55)
  else none

/-- The value of four hexadecimal digits. -/
def hexQuad? (a b c d : Char) : Option Nat := do
  return (((← hexValue? a) * 16 + (← hexValue? b)) * 16 + (← hexValue? c)) * 16 + (← hexValue? d)

/-- The character that stands behind a backslash for another one. -/
def shortEscape? : Char → Option Char
  | '"' => some '"'
  | '\\' => some '\\'
  | '/' => some '/'
  | 'b' => some '\x08'
  | 'f' => some '\x0c'
  | 'n' => some '\n'
  | 'r' => some '\r'
  | 't' => some '\t'
  | _ => none

/-- Read a string behind its opening quote; `done` holds the parts read so far, last one first. -/
def readPieces (done : List Piece) : List Char → Option (List Piece × List Char)
  | [] => none
  | '"' :: rest => some (done.reverse, rest)
  | '\\' :: 'u' :: a :: b :: c :: d :: rest => do
    let n ← hexQuad? a b c d
    readPieces (.unit n :: done) rest
  | '\\' :: c :: rest => do
    let c ← shortEscape? c
    readPieces (.char c :: done) rest
  | c :: rest => if c.toNat < 0x20 || c = '\\' then none else readPieces (.char c :: done) rest

/-- Whether a number is the first half of a surrogate pair. -/
def isHighHalf (n : Nat) : Bool := 0xD800 ≤ n && n < 0xDC00

/-- Whether a number is the second half of a surrogate pair. -/
def isLowHalf (n : Nat) : Bool := 0xDC00 ≤ n && n < 0xE000

/-- The characters of a string, unless half of a surrogate pair stands alone. -/
def joinPieces : List Piece → Option (List Char)
  | [] => some []
  | .char c :: rest => (joinPieces rest).map (c :: ·)
  | .unit high :: .unit low :: rest =>
    if isHighHalf high then
      if isLowHalf low then
        (joinPieces rest).map (Char.ofNat (0x10000 + (high - 0xD800) * 0x400 + (low - 0xDC00)) :: ·)
      else none
    else if isLowHalf high then none
    else (joinPieces (.unit low :: rest)).map (Char.ofNat high :: ·)
  | .unit n :: rest =>
    if isHighHalf n || isLowHalf n then none else (joinPieces rest).map (Char.ofNat n :: ·)

/-- Read a string behind its opening quote. -/
def readString (cs : List Char) : Option (Json × List Char) := do
  let (pieces, rest) ← readPieces [] cs
  match joinPieces pieces with
  | some text => return (.string (String.ofList text), rest)
  | none => return (.broken, rest)

/-! ### Numbers -/

/-- Take digits, at least one. -/
def readDigits (cs : List Char) : Option (List Char × List Char) :=
  match cs.span Char.isDigit with
  | ([], _) => none
  | split => some split

/-- Take the whole part of a number, which has no leading zeros. -/
def readWhole (cs : List Char) : Option (List Char × List Char) := do
  let (digits, rest) ← readDigits cs
  if digits.head? = some '0' && digits.length ≠ 1 then none else return (digits, rest)

/-- Take the part behind a point, if there is a point. -/
def readFraction : List Char → Option (List Char × List Char)
  | '.' :: rest => do
    let (digits, rest) ← readDigits rest
    return ('.' :: digits, rest)
  | cs => some ([], cs)

/-- Take the sign of an exponent. -/
def readSign : List Char → List Char × List Char
  | '+' :: rest => (['+'], rest)
  | '-' :: rest => (['-'], rest)
  | cs => ([], cs)

/-- Take the exponent, if there is one. -/
def readExponent : List Char → Option (List Char × List Char)
  | c :: rest =>
    if c = 'e' || c = 'E' then do
      let (sign, rest) := readSign rest
      let (digits, rest) ← readDigits rest
      return (c :: sign ++ digits, rest)
    else some ([], c :: rest)
  | [] => some ([], [])

/-- Read a number. -/
def readNumber (cs : List Char) : Option (Json × List Char) := do
  let (sign, rest) := match cs with
    | '-' :: rest => (['-'], rest)
    | cs => ([], cs)
  let (whole, rest) ← readWhole rest
  let (fraction, rest) ← readFraction rest
  let (exponent, rest) ← readExponent rest
  return (.number (String.ofList (sign ++ whole ++ fraction ++ exponent)), rest)

/-! ### Values -/

/-- A reader takes a value from the front of a text. -/
abbrev Reader := List Char → Option (Json × List Char)

/-- Read the items of an array behind its opening bracket or a comma; `done` holds the items read so
far, last one first. -/
def readItemList (item : Reader) :
    (fuel : Nat) → (done : List Json) → List Char → Option (List Json × List Char)
  | 0, _, _ => none
  | fuel + 1, done, cs => do
    let (value, rest) ← item cs
    match skipBlanks rest with
    | ',' :: rest => readItemList item fuel (value :: done) rest
    | ']' :: rest => return ((value :: done).reverse, rest)
    | _ => none

/-- Read the name of a member and the colon behind it.  The name has no text if half of a surrogate
pair stands in it. -/
def readName (cs : List Char) : Option (Option String × List Char) :=
  match skipBlanks cs with
  | '"' :: rest => do
    let (pieces, rest) ← readPieces [] rest
    match skipBlanks rest with
    | ':' :: rest => return ((joinPieces pieces).map String.ofList, rest)
    | _ => none
  | _ => none

/-- Read the members of an object behind its opening brace or a comma; `done` holds the members read
so far, last one first. -/
def readMemberList (item : Reader) :
    (fuel : Nat) → (done : List (Option String × Json)) → List Char →
      Option (List (Option String × Json) × List Char)
  | 0, _, _ => none
  | fuel + 1, done, cs => do
    let (name, rest) ← readName cs
    let (value, rest) ← item rest
    match skipBlanks rest with
    | ',' :: rest => readMemberList item fuel ((name, value) :: done) rest
    | '\x7d' :: rest => return (((name, value) :: done).reverse, rest)
    | _ => none

/-- An object, if all the names in it have a text. -/
def ofMembers (members : List (Option String × Json)) : Json :=
  match members.mapM fun (name, value) => name.map (·, value) with
  | some members => .object members
  | none => .broken

/-- Read a value whose nesting is less deep than the fuel. -/
def readValue : (fuel : Nat) → Reader
  | 0, _ => none
  | fuel + 1, cs =>
    match skipBlanks cs with
    | 'n' :: 'u' :: 'l' :: 'l' :: rest => some (.null, rest)
    | 't' :: 'r' :: 'u' :: 'e' :: rest => some (.bool true, rest)
    | 'f' :: 'a' :: 'l' :: 's' :: 'e' :: rest => some (.bool false, rest)
    | '"' :: rest => readString rest
    | '[' :: rest =>
      match skipBlanks rest with
      | ']' :: rest => some (.array [], rest)
      | _ => do
        let (items, rest) ← readItemList (readValue fuel) (rest.length + 1) [] rest
        return (.array items, rest)
    | '\x7b' :: rest =>
      match skipBlanks rest with
      | '\x7d' :: rest => some (.object [], rest)
      | _ => do
        let (members, rest) ← readMemberList (readValue fuel) (rest.length + 1) [] rest
        return (ofMembers members, rest)
    | cs => readNumber cs

/-- Read a text that holds one value and nothing else. -/
def parse? (s : String) : Option Json := do
  let cs := s.toList
  let (value, rest) ← readValue (cs.length + 1) cs
  if (skipBlanks rest).isEmpty then return value else none

end Z80Atlas.Json
