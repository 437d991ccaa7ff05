import Z80Atlas.Word.Hex

/-!
# Diagnostics

What an analysis has to say about the program it looks at.  Nothing here stops an analysis.  Of each
kind at most one diagnostic is kept for an address, in the order in which they came up.
-/

namespace Z80Atlas

/-- What a diagnostic is about, in the order in which diagnostics of one address are sorted. -/
inductive DiagnosticKind
  /-- The same bytes were reached with two different starts. -/
  | ambiguous
  /-- A branch leads into memory that was not loaded. -/
  | unassigned
  /-- A reference across memory banks.  There is no model of banks, and no analysis finds one. -/
  | differentBank
deriving DecidableEq, Ord

/-- The kind in words. -/
def DiagnosticKind.display : DiagnosticKind → String
  | .ambiguous => "ambiguous disassembly"
  | .unassigned => "unassigned memory"
  | .differentBank => "different bank"

/-- A remark about an address. -/
structure Diagnostic where
  address : Address
  kind : DiagnosticKind
  message : String
deriving DecidableEq

namespace Diagnostic

/-- The diagnostic on one line. -/
def display (d : Diagnostic) : String := d.address.display ++ ": " ++ d.message

/-- An address that was reached although it lies in an instruction with another start. -/
def ambiguousAt (a : Address) : Diagnostic where
  address := a
  kind := .ambiguous
  message :=
    s!"Ambiguous disassembly: {a.display} was already analyzed with a different " ++
      "instruction alignment"

/-- A branch target that was not loaded. -/
def unassignedAt (a : Address) : Diagnostic where
  address := a
  kind := .unassigned
  message := s!"Branch into unassigned memory at {a.display}"

/-- The order by address, then by kind. -/
def le (d e : Diagnostic) : Bool :=
  d.address < e.address || (d.address == e.address && (compare d.kind e.kind).isLE)

end Diagnostic

/-- The diagnostics of an analysis, oldest first. -/
structure Diagnostics where
  entries : Array Diagnostic := #[]

namespace Diagnostics

/-- Whether there is a diagnostic of a kind at an address. -/
def has (ds : Diagnostics) (kind : DiagnosticKind) (a : Address) : Bool :=
  ds.entries.any fun d => d.address = a ∧ d.kind = kind

/-- Add a diagnostic, unless there is one of its kind at its address. -/
def add (ds : Diagnostics) (d : Diagnostic) : Diagnostics :=
  if ds.has d.kind d.address then ds else ⟨ds.entries.push d⟩

/-- The diagnostics, oldest first. -/
def toList (ds : Diagnostics) : List Diagnostic := ds.entries.toList

/-- The diagnostics at an address. -/
def at? (ds : Diagnostics) (a : Address) : List Diagnostic := ds.toList.filter (·.address = a)

/-- The diagnostics of a kind. -/
def ofKind (ds : Diagnostics) (kind : DiagnosticKind) : List Diagnostic :=
  ds.toList.filter (·.kind = kind)

/-- The diagnostics by address, then by kind. -/
def sorted (ds : Diagnostics) : List Diagnostic := ds.toList.mergeSort Diagnostic.le

theorem has_iff {ds : Diagnostics} {kind : DiagnosticKind} {a : Address} :
    ds.has kind a = true ↔ ∃ d ∈ ds.toList, d.address = a ∧ d.kind = kind := by
  rw [has, ← Array.any_toList, List.any_eq_true]
  simp [toList]

theorem toList_add (ds : Diagnostics) (d : Diagnostic) :
    (ds.add d).toList = if ds.has d.kind d.address then ds.toList else ds.toList ++ [d] := by
  unfold add toList
  split <;> simp

theorem has_add {ds : Diagnostics} {d : Diagnostic} {kind : DiagnosticKind} {a : Address} :
    (ds.add d).has kind a = true ↔ ds.has kind a = true ∨ (d.address = a ∧ d.kind = kind) := by
  rw [has_iff, has_iff, toList_add]
  split
  next hold =>
    constructor
    · exact .inl
    · rintro (h | ⟨rfl, rfl⟩)
      · exact h
      · exact has_iff.mp hold
  next =>
    simp only [List.mem_append, List.mem_singleton]
    constructor
    · rintro ⟨e, he | rfl, h⟩
      · exact .inl ⟨e, he, h⟩
      · exact .inr h
    · rintro (⟨e, he, h⟩ | h)
      · exact ⟨e, .inl he, h⟩
      · exact ⟨d, .inr rfl, h⟩

theorem mem_toList_add {ds : Diagnostics} {d e : Diagnostic} (h : e ∈ (ds.add d).toList) :
    e ∈ ds.toList ∨ e = d := by
  rw [toList_add] at h
  split at h
  · exact .inl h
  · simpa using h

theorem nodup_add {ds : Diagnostics} (d : Diagnostic) (h : ds.toList.Nodup) :
    (ds.add d).toList.Nodup := by
  rw [toList_add]
  split
  · exact h
  next hnew =>
    rw [List.nodup_append]
    refine ⟨h, by simp, ?_⟩
    intro e he e' he' heq
    rw [List.mem_singleton] at he'
    exact hnew (has_iff.mpr ⟨e, he, by rw [heq, he'], by rw [heq, he']⟩)

end Diagnostics

end Z80Atlas
