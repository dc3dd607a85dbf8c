import Cross6502.Command.Assemble
import Cross6502.Command.Disassemble
import Cross6502.Command.Link

/-!
# The program

The first word names the tool, the others are its command line.  Everything the
command line can refer to is read beforehand, the tool runs on that directory value,
and then its texts are printed and the files it wrote are stored.
-/

namespace Cross6502

namespace Main

open Command

/-- The paths that a command line refers to, and those of the sidecars beside. -/
def referredPaths (f : Interface) (words : List Text) : List Text :=
  match f.readWords words with
  | .error _ => []
  | .ok i =>
      let named := i.arguments ++ i.options.filterMap GivenOption.value
      named ++ named.filterMap fun t => (Path.ofText t).sidecar.toOption.map Path.text

/-- The places that paths lead along. -/
def places (paths : List Text) : List Place :=
  (paths.flatMap fun t =>
    let names := Directory.namesOf t
    (List.range names.length).map fun n => names.take (n + 1)).eraseDups

/-- Whether the file system lets a file be changed. -/
def restrictionOf (path : String) : IO (Option Restriction) := do
  try
    let _ ← IO.FS.Handle.mk path .readWrite
    return none
  catch e =>
    match e with
    | .permissionDenied .. => return some .fixed
    | _ => return none

/-- What the file system has at a path that it does not let be read.  A file does not lead
on. -/
def closedEntry (path : String) : IO FileEntry := do
  try
    let _ ← IO.FS.readBinFile (path ++ "/.")
    return .folder
  catch e =>
    match e with
    | .permissionDenied .. => return .folder
    | _ => return .file []

/-- What the file system has at a path, and what it keeps the tools from there. -/
def readEntry (path : String) : IO (Option (FileEntry × Option Restriction)) := do
  try
    let bytes ← IO.FS.readBinFile path
    return some (.file bytes.toList, ← restrictionOf path)
  catch e =>
    match e with
    | .noFileOrDirectory .. => return none
    | .permissionDenied .. => return some (← closedEntry path, some .closed)
    | _ => return some (.folder, none)

/-- The part of the file system that a command line refers to. -/
def readDirectory (f : Interface) (words : List Text) : IO Directory := do
  let mut d : Directory := {}
  for place in places (referredPaths f words) do
    if (d.entry? place).isNone then
      if let some (e, r) ← readEntry (Directory.pathTo place).string then
        d := d.put place e
        if let some r := r then d := d.restrict place r
  return d

/-- The variables that the tools look at. -/
def readEnvironment : IO Settings.Environment := do
  let mut environment : Settings.Environment := []
  for name in ["MOS6502_MAX_LINE", "MOS6502_PROGRAM_START", "MOS6502_VARIABLE_START",
      "MOS6502_MAX_ERRORS"] do
    if let some value ← IO.getEnv name then
      environment := environment ++ [(name, value.toList)]
  return environment

/-- Print what a tool printed and store what it wrote. -/
def finish (before : Directory) (o : Outcome) : IO UInt32 := do
  IO.print o.console.output
  IO.eprint o.console.errors
  for (path, bytes) in before.changes o.console.directory do
    IO.FS.writeBinFile path.string (ByteArray.mk bytes.toArray)
  if let some e := o.exit.escaped then IO.eprintln e.message
  return o.exit.code.number.toUInt32

/-- Run one of the tools. -/
def runTool (f : Interface) (run : Directory → List Text → Except UsageError Outcome)
    (words : List String) : IO UInt32 := do
  let words := words.map String.toList
  let d ← readDirectory f words
  match run d words with
  | .ok o => finish d o
  | .error e => do
      IO.eprintln ("Error: " ++ e.message)
      return ExitCode.invalidArguments.number.toUInt32

end Main

end Cross6502

open Cross6502 Command Main in
def main (args : List String) : IO UInt32 := do
  match args with
  | "as6502" :: words => runTool Assemble.interface (Assemble.run (← readEnvironment)) words
  | "ld6502" :: words => runTool Command.Link.interface Command.Link.run words
  | "dis6502" :: words => runTool Disassemble.interface Disassemble.run words
  | _ => do
      IO.eprintln "Usage: (as6502 | ld6502 | dis6502) [OPTIONS] FILES"
      return 2
