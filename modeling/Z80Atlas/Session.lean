import Z80Atlas.Flow.Subroutine
import Z80Atlas.Listing

/-!
# Sessions

A session holds a memory image and what is known about the program in it: entries, names, data to
step over.  Running the analysis makes everything that can be found out anew from these, whatever
was found before.
-/

namespace Z80Atlas

/-! ### Errors -/

/-- What can be wrong with an image or with settings. -/
inductive SetupError
  | region (e : RegionError)
  | settings (fault : StemFault)
deriving DecidableEq

/-- The text of the error, and those of its causes. -/
def SetupError.messages : SetupError → List String
  | .region e => [e.message]
  | .settings fault => ["Invalid configuration: " ++ fault.message, fault.message]

/-- The text of the error. -/
def SetupError.message : SetupError → String
  | .region e => e.message
  | .settings fault => "Invalid configuration: " ++ fault.message

/-- What a session can refuse. -/
inductive SessionError
  | setup (e : SetupError)
  | unknownNode (a : Address)
  | emptySkip (a : Address)
deriving DecidableEq

/-- The text of the error. -/
def SessionError.message : SessionError → String
  | .setup e => "Spec error: " ++ e.message
  | .unknownNode a => s!"No node at address {a.display0x}"
  | .emptySkip a => s!"Invalid skip at {a.display0x}: length must be at least 1"

/-- The text of the error, and those of its causes. -/
def SessionError.messages : SessionError → List String
  | .setup e => ("Spec error: " ++ e.message) :: e.messages
  | e => [e.message]

/-! ### Sessions -/

/-- What an analysis finds out. -/
structure Atlas where
  graph : FlowGraph := {}
  blocks : Blocks := {}
  /-- Names of data, and names from outside that are not at an instruction. -/
  other : NameTable := ∅
  diagnostics : Diagnostics := {}

/-- An image, what is known about it, and what the last analysis found out. -/
structure Session where
  settings : Settings := {}
  memory : Memory := .empty
  entries : Std.ExtTreeSet Address := ∅
  /-- Names that were given from outside. -/
  labels : NameTable := ∅
  skips : Skips := {}
  atlas : Atlas := {}

namespace Session

/-- A session with the given settings, which must be in order. -/
def new (settings : Settings) : Except SessionError Session :=
  match settings.fault? with
  | some fault => .error (.setup (.settings fault))
  | none => .ok { settings }

/-- Load a region of the image. -/
def load (s : Session) (origin : Address) (data : List Byte) : Except SessionError Session :=
  match s.memory.load origin data with
  | .ok memory => .ok { s with memory }
  | .error e => .error (.setup (.region e))

/-- Have the analysis start from an address too. -/
def addEntry (s : Session) (a : Address) : Session := { s with entries := s.entries.insert a }

/-- Name an address. -/
def setLabel (s : Session) (a : Address) (name : String) : Session :=
  { s with labels := s.labels.insert a name }

/-- Say that `length` bytes of data stand at an address, at least one. -/
def setSkip (s : Session) (a : Address) (length : Nat) : Except SessionError Session :=
  if length = 0 then .error (.emptySkip a) else .ok { s with skips := s.skips.set a length }

/-- What names are looked up in. -/
def names (s : Session) : Names where
  external := s.labels
  graph := s.atlas.graph
  other := s.atlas.other
  blocks := s.atlas.blocks
  memory := s.memory

/-- Analyse the image from the entries of the session. -/
def analyse (s : Session) : Session :=
  let survey : Survey :=
    { memory := s.memory.unmark Marks.findings, variant := s.settings.variant, skips := s.skips }
  let r := survey.chart s.entries.toList s.labels
  let graph := r.1.graph.markSubroutines
  let blocks := graph.blocks
  let named := graph.assignNames blocks r.1.memory s.labels s.settings.stems r.2
  { s with
    memory := r.1.memory
    atlas := { graph := named.1, blocks, other := named.2, diagnostics := r.1.diagnostics } }

/-- Analyse the image, from the given entries too. -/
def run (s : Session) (entries : List Address) : Session :=
  (entries.foldl addEntry s).analyse

/-- The node that starts at an address. -/
def node (s : Session) (a : Address) : Except SessionError Node :=
  match s.atlas.graph.get? a with
  | some n => .ok n
  | none => .error (.unknownNode a)

/-- The name of an address. -/
def bestLabel? (s : Session) (a : Address) : Option String := s.names.best? a

/-- The name of an address as code at `source` writes it. -/
def localLabel? (s : Session) (a source : Address) : Option String := s.names.scoped? a source

/-- Keep the texts of the instructions of a node in the node. -/
def renderNode (s : Session) (a : Address) : Except SessionError (Session × List String) := do
  let n ← s.node a
  let render (i : Instruction) := i.rendered s.names.resolve s.settings
  let graph := s.atlas.graph.modify a fun n => { n with instructions := n.instructions.map render }
  return ({ s with atlas := { s.atlas with graph } }, s.names.renderNode s.settings n)

/-- The lines of the program. -/
def listing (s : Session) : List Line := s.names.listing s.settings

/-- The subroutine that starts at an address. -/
def subroutine (s : Session) (start : Address) : Except SessionError Subroutine :=
  match Subroutine.of? s.atlas.graph start with
  | some r => .ok r
  | none => .error (.unknownNode start)

/-- The subroutines that can be reached from the entries by calls. -/
def callGraph (s : Session) (entries : List Address) : List Subroutine :=
  s.atlas.graph.callGraph entries

end Session

/-- The listing of an image, analysed from a single entry with default settings. -/
def disassemble (origin : Address) (image : List Byte) (entry : Address) :
    Except SessionError (List String) := do
  let s ← Session.new {}
  let s ← s.load origin image
  return (s.run [entry]).listing.map Line.display

end Z80Atlas
