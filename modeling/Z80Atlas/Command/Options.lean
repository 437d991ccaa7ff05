import Z80Atlas.Command.Address
import Z80Atlas.Text.Terminal

/-!
# Options of the command line

What the command line can ask for: parameters, which take a value, and flags, which take none.  The
values of the parameters are collected in `Options` one after the other; `Options.set` says which
values are in order.
-/

namespace Z80Atlas.Command

/-! ### Parameters and flags -/

/-- What takes a value. -/
inductive Param
  | image
  | origin
  | entry
  | label
  | skip
  | config
  | graph
  | logLevel
deriving DecidableEq

/-- How a parameter is shown. -/
def Param.display : Param → String
  | image => "<IMAGE>"
  | origin => "--origin <ORIGIN>"
  | entry => "--entry <ENTRIES>"
  | label => "--label <LABELS>"
  | skip => "--skip <SKIPS>"
  | config => "--config <CONFIG>"
  | graph => "--graph-json <GRAPH_JSON>"
  | logLevel => "--log-level <LOG_LEVEL>"

/-- What takes no value. -/
inductive Flag
  | z80n
  | lowercase
  | help
  | version
deriving DecidableEq

/-- How a flag is shown. -/
def Flag.display : Flag → String
  | z80n => "--z80n"
  | lowercase => "--lowercase"
  | help => "--help"
  | version => "--version"

/-! ### Faults -/

/-- What is wrong with a value. -/
inductive ValueFault
  | address (fault : AddressFault)
  | noName (text : String)
  | emptyName (text : String)
  | noCount (text : String)
deriving DecidableEq

/-- The text of the fault. -/
def ValueFault.message : ValueFault → String
  | .address fault => fault.message
  | .noName text => s!"expected ADDR=NAME, got '{text}'"
  | .emptyName text => s!"empty label name in '{text}'"
  | .noCount text => s!"expected ADDR=COUNT, got '{text}'"

/-- What is wrong with the arguments. -/
inductive UsageError
  | invalid (value : String) (param : Param) (fault : ValueFault)
  | noValue (param : Param)
  | repeatedParam (param : Param)
  | repeatedFlag (flag : Flag)
  | flagValue (value : String) (flag : Flag)
  | unexpected (argument : String)
  | noImage
deriving DecidableEq

open Text in
/-- The text of the error for a terminal. -/
def UsageError.message (e : UsageError) : String :=
  Emphasis.alarm.apply "error:" ++ " " ++
    match e with
    | .invalid value param fault =>
      s!"invalid value '{Emphasis.wrong.apply value}' for " ++
        s!"'{Emphasis.literal.apply param.display}': {fault.message}"
    | .noValue param =>
      s!"a value is required for '{Emphasis.wrong.apply param.display}' but none was supplied"
    | .repeatedParam param =>
      s!"the argument '{Emphasis.wrong.apply param.display}' cannot be used multiple times"
    | .repeatedFlag flag =>
      s!"the argument '{Emphasis.wrong.apply flag.display}' cannot be used multiple times"
    | .flagValue value flag =>
      s!"unexpected value '{Emphasis.wrong.apply value}' for " ++
        s!"'{Emphasis.literal.apply flag.display}' found; no more were expected"
    | .unexpected argument => s!"unexpected argument '{Emphasis.wrong.apply argument}' found"
    | .noImage =>
      "the following required arguments were not provided:\n  " ++
        Emphasis.right.apply Param.image.display

/-- The error and where to find help, for a terminal. -/
def UsageError.report (e : UsageError) : String :=
  e.message ++
    s!"\n\nFor more information, try '{Text.Emphasis.literal.apply Flag.help.display}'.\n"

/-! ### Values -/

/-- The parts of a text before and behind the first equals sign. -/
def splitEquals? (cs : List Char) : Option (List Char × List Char) :=
  match cs.span (· ≠ '=') with
  | (before, _ :: after) => some (before, after)
  | (_, []) => none

/-- Read an address. -/
def parseEntry (s : String) : Except ValueFault Address := (parseAddress s).mapError .address

/-- Read a name and its address. -/
def parseLabel (s : String) : Except ValueFault (Address × String) :=
  match splitEquals? s.toList with
  | none => .error (.noName s)
  | some (address, name) =>
    if (Text.trimmed name).isEmpty then .error (.emptyName s)
    else (parseEntry (String.ofList address)).map (·, String.ofList (Text.trimmed name))

/-- Read how many bytes of data stand at an address. -/
def parseSkip (s : String) : Except ValueFault (Address × Address) :=
  match splitEquals? s.toList with
  | none => .error (.noCount s)
  | some (address, count) => do
    let address ← parseEntry (String.ofList address)
    let count ← parseEntry (String.ofList count)
    return (address, count)

/-! ### Options -/

/-- What has been asked for. -/
structure Options where
  /-- The file that holds the image. -/
  image : Option String := none
  /-- Where the image is loaded. -/
  origin : Option Address := none
  entries : List Address := []
  labels : List (Address × String) := []
  skips : List (Address × Address) := []
  /-- The file that holds the settings. -/
  config : Option String := none
  /-- The file that the snapshot is written to. -/
  graph : Option String := none
  logLevel : Option String := none
  z80n : Bool := false
  lowercase : Bool := false

namespace Options

/-- Whether a parameter that takes a single value has it. -/
def has (o : Options) : Param → Bool
  | .image => o.image.isSome
  | .origin => o.origin.isSome
  | .config => o.config.isSome
  | .graph => o.graph.isSome
  | .logLevel => o.logLevel.isSome
  | .entry | .label | .skip => false

/-- Put a parameter to a value that it does not have yet. -/
def put (o : Options) (param : Param) (value : String) : Except UsageError Options :=
  let invalid := UsageError.invalid value param
  match param with
  | .image => if value = "" then .error (.noValue param) else .ok { o with image := some value }
  | .origin => return { o with origin := some (← (parseEntry value).mapError invalid) }
  | .entry => return { o with entries := o.entries ++ [← (parseEntry value).mapError invalid] }
  | .label => return { o with labels := o.labels ++ [← (parseLabel value).mapError invalid] }
  | .skip => return { o with skips := o.skips ++ [← (parseSkip value).mapError invalid] }
  | .config => if value = "" then .error (.noValue param) else .ok { o with config := some value }
  | .graph => if value = "" then .error (.noValue param) else .ok { o with graph := some value }
  | .logLevel => .ok { o with logLevel := some value }

/-- Set a parameter.  That it has a value already is found before the new value is looked at. -/
def set (o : Options) (param : Param) (value : String) : Except UsageError Options :=
  if o.has param then .error (.repeatedParam param) else o.put param value

/-- Raise one of the flags that are part of the options; the others change nothing. -/
def raise (o : Options) (flag : Flag) : Except UsageError Options :=
  match flag with
  | .z80n => if o.z80n then .error (.repeatedFlag flag) else .ok { o with z80n := true }
  | .lowercase =>
    if o.lowercase then .error (.repeatedFlag flag) else .ok { o with lowercase := true }
  | .help | .version => .ok o

end Options

end Z80Atlas.Command
