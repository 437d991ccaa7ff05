import Z80Atlas.Command.Report

/-!
# The program

Reads the files that the command line names, prints the listing and writes the snapshot.
-/

namespace Z80Atlas.Command

/-- The error behind a failed operation on a file. -/
def FileError.ofError : IO.Error → FileError
  | .otherError code text | .resourceBusy code text | .resourceVanished code
      text | .unsupportedOperation code text
  | .hardwareFault code text | .unsatisfiedConstraints code text | .illegalOperation code text
  | .protocolError code text | .timeExpired code text | .interrupted _ code
      text | .noFileOrDirectory _ code text
  | .alreadyExists _ code text | .invalidArgument _ code text | .permissionDenied _ code text
  | .resourceExhausted _ code text | .inappropriateType _ code text | .noSuchThing _ code text =>
    .system text code.toNat
  | .unexpectedEof => .system "unexpected end of file" 0
  | .userError text => .system text 0

/-- What a file holds. -/
def readContents (file : String) : IO Contents := do
  match ← (IO.FS.readBinFile file).toBaseIO with
  | .ok data => return .ok data.toList
  | .error e => return .error (.ofError e)

/-- Print an error, one text on each line. -/
def complain (lines : List String) : IO Unit :=
  lines.forM IO.eprintln

/-- The names of the parameters and flags. -/
def usageLines : List String :=
  "Usage: z80flow [OPTIONS] <IMAGE>" :: "" :: "Options:" ::
    ([Param.origin, .entry, .label, .skip, .config, .graph, .logLevel].map fun p =>
      "  " ++ p.display) ++
    ([Flag.z80n, .lowercase, .help, .version].map fun f => "  " ++ f.display)

/-- Print a report and write its file. -/
def Report.write (r : Report) : IO UInt32 := do
  r.lines.forM IO.println
  match r.file with
  | none => return 0
  | some (file, text) =>
    match ← (IO.FS.writeFile file text).toBaseIO with
    | .ok _ => return 0
    | .error e => do
      complain (Failure.write file (.ofError e)).lines
      return 1

/-- Run the analysis that the options ask for. -/
def Options.run (o : Options) (image : String) : IO UInt32 := do
  let imageContents ← readContents image
  let configContents ← match o.config with
    | some file => readContents file
    | none => pure (.ok [])
  let contents file := if file = image then imageContents else configContents
  match o.report image contents with
  | .ok r => r.write
  | .error f => do
    complain f.lines
    return 1

end Z80Atlas.Command

open Z80Atlas.Command in
/-- Do what the arguments ask for; the exit code is 1 if it fails and 2 if the arguments are not in
order. -/
def main (args : List String) : IO UInt32 := do
  match parseArguments args with
  | .ok (.analyse image o) => o.run image
  | .ok .version => do
    IO.println versionLine
    return 0
  | .ok .help => do
    usageLines.forM IO.println
    return 0
  | .error e => do
    let err ← IO.getStderr
    err.putStr (if ← err.isTty then e.report else Z80Atlas.Text.plain e.report)
    return 2
