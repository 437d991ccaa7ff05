import Z80Atlas.Command.Options

/-!
# Arguments of the command line

A parameter has its value behind an equals sign or in the next argument.  A value in an argument of
its own is looked at only when the following argument is known to be in place, so an argument that
is out of place is reported first.  The first argument that belongs to no parameter names the image,
and behind `--` there are only such arguments.
-/

namespace Z80Atlas.Command

/-! ### The form of an argument -/

/-- What an argument looks like. -/
inductive Argument
  /-- The mark behind which no options follow. -/
  | separator
  /-- An option with a long name, and the value behind its equals sign. -/
  | long (name : String) (value : Option String)
  /-- Options with a letter each, of which only the first matters. -/
  | short (letter : Char)
  | plain (text : String)

/-- The form of an argument. -/
def Argument.ofText (s : String) : Argument :=
  match s.toList with
  | ['-', '-'] => .separator
  | '-' :: '-' :: rest =>
    match splitEquals? rest with
    | some (name, value) => .long (String.ofList name) (some (String.ofList value))
    | none => .long (String.ofList rest) none
  | '-' :: letter :: _ => .short letter
  | _ => .plain s

/-- The parameter with a long name. -/
def Param.ofName? : String → Option Param
  | "origin" => some .origin
  | "entry" => some .entry
  | "label" => some .label
  | "skip" => some .skip
  | "config" => some .config
  | "graph-json" => some .graph
  | "log-level" => some .logLevel
  | _ => none

/-- The flag with a long name. -/
def Flag.ofName? : String → Option Flag
  | "z80n" => some .z80n
  | "lowercase" => some .lowercase
  | "help" => some .help
  | "version" => some .version
  | _ => none

/-- The flag with a letter. -/
def Flag.ofLetter? : Char → Option Flag
  | 'h' => some .help
  | 'V' => some .version
  | _ => none

/-! ### Reading -/

/-- What the arguments ask for. -/
inductive Request
  | analyse (image : String) (options : Options)
  | help
  | version

/-- What is known after some arguments. -/
structure Reading where
  options : Options := {}
  /-- The parameter that was named last and its value, as far as they have not been looked at. -/
  pending : Option (Param × Option String) := none
  /-- Whether the image has been named. -/
  named : Bool := false

namespace Reading

/-- Look at the parameter that was named last. -/
def settle (r : Reading) : Except UsageError Reading :=
  match r.pending with
  | none => .ok r
  | some (param, none) => .error (.noValue param)
  | some (param, some value) => do
    let options ← r.options.set param value
    return { r with options, pending := none }

/-- Take an argument that belongs to no parameter. -/
def operand (r : Reading) (text : String) : Except UsageError Reading :=
  if r.named then .error (.unexpected text)
  else do
    let r ← r.settle
    return { r with pending := some (.image, some text), named := true }

/-- Take an argument that looks like neither an option nor the mark behind them. -/
def plain (r : Reading) (text : String) : Except UsageError Reading :=
  match r.pending with
  | some (param, none) => .ok { r with pending := some (param, some text) }
  | _ => r.operand text

/-- Take a parameter. -/
def param (r : Reading) (param : Param) (value : Option String) : Except UsageError Reading := do
  let r ← r.settle
  match value with
  | some value => return { r with options := ← r.options.set param value }
  | none => return { r with pending := some (param, none) }

/-- Take a flag; some flags are all that is asked for. -/
def flag (r : Reading) (flag : Flag) : Except UsageError (Reading ⊕ Request) := do
  let r ← r.settle
  match flag with
  | .help => return .inr .help
  | .version => return .inr .version
  | flag => return .inl { r with options := ← r.options.raise flag }

/-- Take an option with a long name. -/
def long (r : Reading) (name : String) (value : Option String) :
    Except UsageError (Reading ⊕ Request) :=
  match Param.ofName? name, Flag.ofName? name, value with
  | some param, _, value => (r.param param value).map .inl
  | none, some flag, none => r.flag flag
  | none, some flag, some value => .error (.flagValue value flag)
  | none, none, _ => .error (.unexpected ("--" ++ name))

/-- Take an option with a letter. -/
def short (r : Reading) (letter : Char) : Except UsageError (Reading ⊕ Request) :=
  match Flag.ofLetter? letter with
  | some flag => r.flag flag
  | none => .error (.unexpected (String.ofList ['-', letter]))

/-- What is asked for when no arguments are left. -/
def finish (r : Reading) : Except UsageError Request := do
  let r ← r.settle
  match r.options.image with
  | some image => return .analyse image r.options
  | none => .error .noImage

/-- Take the remaining arguments, when no options follow. -/
def operands (r : Reading) : List String → Except UsageError Request
  | [] => r.finish
  | text :: rest => do (← r.operand text).operands rest

/-- Take the remaining arguments. -/
def arguments (r : Reading) : List String → Except UsageError Request
  | [] => r.finish
  | text :: rest =>
    match Argument.ofText text with
    | .separator => r.operands rest
    | .plain text => do (← r.plain text).arguments rest
    | .long name value => do
      match ← r.long name value with
      | .inl r => r.arguments rest
      | .inr request => return request
    | .short letter => do
      match ← r.short letter with
      | .inl r => r.arguments rest
      | .inr request => return request

end Reading

/-- What the arguments ask for. -/
def parseArguments (args : List String) : Except UsageError Request :=
  ({} : Reading).arguments args

end Z80Atlas.Command
