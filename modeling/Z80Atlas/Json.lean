/-!
# JSON values

The values that settings are read from and snapshots are written as.  The members of an object keep
their order, and numbers keep their text.
-/

namespace Z80Atlas

/-- A JSON value. -/
inductive Json
  | null
  | bool (value : Bool)
  | number (text : String)
  | string (text : String)
  /-- A string that names half of a surrogate pair, and so has no text; or an object with such a
  name in it. -/
  | broken
  | array (items : List Json)
  | object (members : List (String × Json))

instance : Inhabited Json := ⟨.null⟩

namespace Json

/-- A natural number. -/
def ofNat (n : Nat) : Json := .number (toString n)

/-- A value or `null`. -/
def ofOption {α : Type} (f : α → Json) : Option α → Json
  | some a => f a
  | none => .null

/-- An array of equally written values. -/
def ofList {α : Type} (f : α → Json) (xs : List α) : Json := .array (xs.map f)

/-! ### Reading records -/

/-- A field of a record `ρ`: its name, and how its value changes the record. -/
structure Field (ρ : Type) where
  name : String
  read? : ρ → Json → Option ρ

/-- A field that holds a text. -/
def Field.text {ρ : Type} (name : String) (set : ρ → String → ρ) : Field ρ where
  name
  read? r
    | .string s => some (set r s)
    | _ => none

/-- A field that holds a truth value. -/
def Field.flag {ρ : Type} (name : String) (set : ρ → Bool → ρ) : Field ρ where
  name
  read? r
    | .bool b => some (set r b)
    | _ => none

/-- A field that holds a record. -/
def Field.record {ρ σ : Type} (name : String) (read : Json → Option σ) (set : ρ → σ → ρ) :
    Field ρ where
  name
  read? r j := (read j).map (set r)

/-- Read the members of an object into a record, when the fields in `seen` have been read before.
Members that are not fields are passed over; a field that comes twice is refused. -/
def readMembers {ρ : Type} (fields : List (Field ρ)) (seen : List String) (r : ρ) :
    List (String × Json) → Option ρ
  | [] => some r
  | (name, value) :: rest =>
    match fields.find? (·.name = name) with
    | none => readMembers fields seen r rest
    | some field =>
      if name ∈ seen then none
      else do
        let r ← field.read? r value
        readMembers fields (name :: seen) r rest

/-- Read the items of an array into a record, field by field. -/
def readItems {ρ : Type} : List (Field ρ) → ρ → List Json → Option ρ
  | _, r, [] => some r
  | [], _, _ :: _ => none
  | field :: fields, r, item :: rest => do
    let r ← field.read? r item
    readItems fields r rest

/-- Read a record from an object, or from an array that holds the fields in order.  What is missing
keeps the value that it has in `r`. -/
def readRecord {ρ : Type} (fields : List (Field ρ)) (r : ρ) : Json → Option ρ
  | .object members => readMembers fields [] r members
  | .array items => readItems fields r items
  | _ => none

end Json

end Z80Atlas
