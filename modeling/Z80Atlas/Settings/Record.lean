import Z80Atlas.Settings

/-!
# Settings as JSON

Settings are read from an object or from an array of the values in order; whatever is missing keeps
its default.
-/

namespace Z80Atlas

/-- The fields of the stems, in order. -/
def Stems.fields : List (Json.Field Stems) := [
  .text "sub" fun s t => { s with subroutine := t },
  .text "lbl" fun s t => { s with target := t },
  .text "rst" fun s t => { s with restart := t },
  .text "data" fun s t => { s with data := t },
  .text "code" fun s t => { s with code := t },
  .text "local" fun s t => { s with interior := t },
  .text "local_loop" fun s t => { s with loop := t }]

/-- Read stems. -/
def Stems.ofJson? : Json → Option Stems := Json.readRecord Stems.fields {}

/-- Stems as an object. -/
def Stems.toJson (s : Stems) : Json :=
  .object (Stem.all.map fun stem => (stem.name, .string (s.get stem)))

/-- The fields of the number format, in order. -/
def NumberFormat.fields : List (Json.Field NumberFormat) := [
  .text "hex_prefix" fun f t => { f with before := t },
  .text "hex_suffix" fun f t => { f with after := t },
  .flag "lowercase" fun f b => { f with letters := if b then .lower else .upper }]

/-- Read a number format. -/
def NumberFormat.ofJson? : Json → Option NumberFormat := Json.readRecord NumberFormat.fields {}

/-- A number format as an object. -/
def NumberFormat.toJson (f : NumberFormat) : Json :=
  .object [
    ("hex_prefix", .string f.before), ("hex_suffix", .string f.after),
    ("lowercase", .bool (f.letters = .lower))]

/-- The fields of the settings, in order. -/
def Settings.fields : List (Json.Field Settings) := [
  .record "labels" Stems.ofJson? fun s t => { s with stems := t },
  .record "numbers" NumberFormat.ofJson? fun s f => { s with numbers := f },
  .flag "z80n" fun s b => { s with variant := if b then .z80n else .z80 },
  .flag "lowercase_mnemonics" fun s b => { s with lowercase := b }]

/-- Read settings. -/
def Settings.ofJson? : Json → Option Settings := Json.readRecord Settings.fields {}

/-- Settings as an object. -/
def Settings.toJson (s : Settings) : Json :=
  .object [
    ("labels", s.stems.toJson), ("numbers", s.numbers.toJson), ("z80n", .bool (s.variant = .z80n)),
    ("lowercase_mnemonics", .bool s.lowercase)]

end Z80Atlas
