import Z80Atlas.Command.Arguments
import Z80Atlas.Json.Printer
import Z80Atlas.Json.Reader
import Z80Atlas.Session.Snapshot
import Z80Atlas.Settings.Record

/-!
# What the command line answers

The answer as a function of the options and of what the files hold, so that only reading and writing
files is left to the program around it.
-/

namespace Z80Atlas.Command

/-! ### Failures -/

/-- Why a file cannot be read or written. -/
inductive FileError
  /-- What the operating system says, and its number for that. -/
  | system (text : String) (code : Nat)
  /-- What was to be text is not UTF-8. -/
  | notText
deriving DecidableEq

namespace FileError

/-- The text of the error. -/
def message : FileError → String
  | .system text code => s!"{text} (os error {code})"
  | .notText => "stream did not contain valid UTF-8"

/-- There is no such file. -/
def missing : FileError := .system "No such file or directory" 2

/-- A name that is followed by others is no directory. -/
def notDirectory : FileError := .system "Not a directory" 20

/-- What was to be a file is a directory. -/
def directory : FileError := .system "Is a directory" 21

/-- A name has too many bytes. -/
def nameTooLong : FileError := .system "File name too long" 36

end FileError

/-- What a run can fail of. -/
inductive Failure
  | readImage (file : String) (e : FileError)
  | emptyImage (file : String)
  | readConfig (file : String) (e : FileError)
  | parseConfig (file : String)
  | config (e : SessionError)
  | load (size : Nat) (origin : Address) (e : SessionError)
  | skip (e : SessionError)
  | write (file : String) (e : FileError)
deriving DecidableEq

/-- The text of the failure. -/
def Failure.message : Failure → String
  | .readImage file _ => s!"reading image {file}"
  | .emptyImage file => s!"image {file} is empty"
  | .readConfig file _ => s!"reading config {file}"
  | .parseConfig file => s!"parsing config {file}"
  | .config _ => "invalid configuration"
  | .load size origin _ => s!"loading {size} bytes at {origin.display}"
  | .skip e => e.message
  | .write file _ => s!"writing {file}"

/-- The causes of the failure, each one the cause of the one before. -/
def Failure.causes : Failure → List String
  | .readImage _ e | .readConfig _ e | .write _ e => [e.message]
  | .config e | .load _ _ e => e.messages
  | .emptyImage _ | .parseConfig _ | .skip _ => []

/-- The failure and its causes, which are numbered if there are several. -/
def Failure.lines (f : Failure) : List String :=
  ("Error: " ++ f.message) ::
    match f.causes with
    | [cause] => [cause]
    | causes => causes.zipIdx.map fun (cause, n) => s!"{n}: {cause}"

/-! ### Reports -/

/-- What a run writes. -/
structure Report where
  lines : List String
  /-- A file to be written, and its text. -/
  file : Option (String × String) := none

/-- What a file holds. -/
abbrev Contents := Except FileError (List Byte)

/-- The text of a file. -/
def textOf (data : List Byte) : Except FileError String :=
  match String.fromUTF8? ⟨data.toArray⟩ with
  | some text => .ok text
  | none => .error .notText

/-- The image, which must not be empty. -/
def readImage (file : String) (contents : Contents) : Except Failure (List Byte) := do
  let data ← contents.mapError (.readImage file)
  if data.isEmpty then .error (.emptyImage file) else return data

/-- The settings that a file holds. -/
def readConfig (file : String) (contents : Contents) : Except Failure Settings := do
  let text ← (contents.bind textOf).mapError (.readConfig file)
  match (Json.parse? text).bind Settings.ofJson? with
  | some settings => return settings
  | none => .error (.parseConfig file)

/-- The settings, where the flags of the command line win. -/
def Options.settings (o : Options) (contents : String → Contents) : Except Failure Settings := do
  let settings ← match o.config with
    | some file => readConfig file (contents file)
    | none => .ok {}
  return { settings with
    variant := if o.z80n then .z80n else settings.variant
    lowercase := o.lowercase || settings.lowercase }

/-- Tell a session the sizes of data. -/
def setSkips (s : Session) : List (Address × Address) → Except Failure Session
  | [] => .ok s
  | (a, length) :: rest => do
    let s ← (s.setSkip a length.toNat).mapError .skip
    setSkips s rest

/-- The session that the options ask for, before it is run. -/
def Options.session (o : Options) (image : String) (contents : String → Contents) :
    Except Failure Session := do
  let data ← readImage image (contents image)
  let settings ← o.settings contents
  let origin := o.origin.getD 0
  let s ← (Session.new settings).mapError .config
  let s ← (s.load origin data).mapError (.load data.length origin)
  let s := o.labels.foldl (fun s (a, name) => s.setLabel a name) s
  setSkips s o.skips

/-- The addresses to start from: the origin if no others are given. -/
def Options.starts (o : Options) : List Address :=
  if o.entries.isEmpty then [o.origin.getD 0] else o.entries

/-- The diagnostics as comments behind an empty line. -/
def remarks (d : Diagnostics) : List String :=
  match d.sorted with
  | [] => []
  | sorted => "" :: sorted.map fun d => "; " ++ d.display

/-- The listing of the image and what is remarkable about it, and the snapshot if a file is named
for it. -/
def Options.report (o : Options) (image : String) (contents : String → Contents) :
    Except Failure Report := do
  let s ← o.session image contents
  let s := s.run o.starts
  return {
    lines := s.listing.map Line.display ++ remarks s.atlas.diagnostics
    file := o.graph.map (·, s.snapshot.pretty) }

/-- The line that tells the version. -/
def versionLine : String := "z80flow-cli 0.1.0"

end Z80Atlas.Command
