import Cross6502.Command.Console
import Cross6502.Files.Save

/-!
# The assembler's command line

Every input is assembled by itself and written to an object beside it, or to the
given path when there is one input only.  On request a listing and a sidecar are
written too; an assembly that leaves names to the linker always writes a sidecar.

The first input that fails ends the run.
-/

namespace Cross6502

namespace Command

namespace Assemble

/-- The command line of the assembler. -/
def interface : Interface where
  tool := "as6502"
  argument := "INPUT_FILES..."
  many := true
  parameters :=
    [{ short := some 'o', long := "output", kind := some .outputFile },
     { short := some 'F', long := "format", kind := some (.word ["flat", "aout"]) },
     { short := some 's', long := "symbols", kind := some .outputFile },
     { short := some 'l', long := "listing", kind := some .outputFile },
     { short := some 'S', long := "print-process" },
     { short := some 'T', long := "print-table" },
     { short := some 'c', long := "compile-only" },
     { long := "base", kind := some .address },
     { long := "line-length", kind := some (.atLeast 8) },
     { short := some 'v', long := "verbose" }]

/-- What the assembler is asked to do. -/
structure Options where
  inputs : List Path
  output : Option Path := none
  format : Format := .flat
  symbols : Option Path := none
  listing : Option Path := none
  printProcess : Bool := false
  printTable : Bool := false
  /-- Leave undefined names to the linker. -/
  compileOnly : Bool := false
  overrides : Settings.Overrides := {}
  deriving DecidableEq, Inhabited

/-- The options of a checked command line. -/
def Options.ofInvocation (i : Invocation) : Options where
  inputs := i.paths
  output := i.path? "output"
  format := (i.format? "format").getD .flat
  symbols := i.path? "symbols"
  listing := i.path? "listing"
  printProcess := i.has "print-process"
  printTable := i.has "print-table"
  compileOnly := i.has "compile-only"
  overrides :=
    { programStart := (i.value? "base").bind fun t => (readAddress t).toOption
      maxLineLength := (i.value? "line-length").bind fun t => (Numeral.read 10 t).toOption }

/-- Whether a path is given that only one input can be written to. -/
def Options.namesOutput (o : Options) : Bool :=
  o.output.isSome || o.symbols.isSome || o.listing.isSome

/-! ## Steps -/

/-- Write the object of an assembly. -/
def writeObject (o : Options) (output : Path) (a : Assembly) : Task Unit := do
  let (d, written) ← Task.ofLogged (Save.object (← get).directory output.text o.format a.object)
  Task.setDirectory d
  Task.ofLogged (Logged.say (.wroteObject written output.string))
  sayVerbose ("Wrote " ++ Text.decimalString written ++ " bytes to " ++ output.string)

/-- Write a text that belongs to an assembly, with the event that tells so. -/
def writeText (path : Path) (t : Text) (what : String) (e : Event) : Task Unit := do
  let d ← Task.ofExcept (Save.text (← get).directory path.text t)
  Task.setDirectory d
  Task.ofLogged (Logged.say e)
  sayVerbose ("Wrote " ++ what ++ " to " ++ path.string)

/-- Write the listing, if one is asked for. -/
def writeListing (o : Options) (a : Assembly) : Task Unit :=
  match o.listing with
  | some p => writeText p (Save.listingText a) "listing" (.wroteListing p.string)
  | none => pure ()

/-- The path of the sidecar, if one is written. -/
def sidecarPath (o : Options) (output : Path) : Except Failure (Option Path) :=
  match o.symbols with
  | some p => .ok (some p)
  | none => if o.compileOnly then output.sidecar.map some else .ok none

/-- Write the sidecar, if there is to be one. -/
def writeSidecar (o : Options) (output : Path) (a : Assembly) : Task Unit := do
  match ← Task.ofExcept (sidecarPath o output) with
  | some p => writeText p (Sidecar.text a.object) "symbols" (.wroteSidecar p.string)
  | none => pure ()

/-- Assemble one input and write all that belongs to it. -/
def input (o : Options) (s : Settings) (path output : Path) : Task Unit := do
  sayVerbose ("Assembling " ++ path.string ++ "...")
  let a ← Task.ofExcept (Load.assembled (← get).directory s o.compileOnly path)
  let _ ← Task.ofLogged ⟨a.log, a.result⟩
  if o.printProcess then say (String.ofList a.trace)
  if o.printTable then say (String.ofList a.symbols.dump)
  writeObject o output a
  writeListing o a
  writeSidecar o output a
  sayVerbose ("Defined " ++ Text.decimalString a.symbols.size ++ " symbols")

/-- The path of the object of an input. -/
def outputPath (o : Options) (path : Path) : Except Failure Path :=
  match o.output with
  | some p => .ok p
  | none => path.withSuffix ".o".toList

/-- Assemble inputs in order. -/
def inputs (o : Options) (s : Settings) : List Path → Tool Unit
  | [] => pure ()
  | path :: rest => do
      let output ← unguarded (Task.ofExcept (outputPath o path))
      guarded "" (input o s path output)
      inputs o s rest

/-- Run the assembler. -/
def tool (environment : Settings.Environment) (o : Options) : Tool Unit :=
  if 1 < o.inputs.length && o.namesOutput then
    quit .invalidArguments "Error: -o, -s and -l require a single input file"
  else
    match Settings.ofEnvironment environment with
    | .error e => quit .invalidArguments ("Error: " ++ e.message)
    | .ok s => inputs o (s.override o.overrides) o.inputs

/-- Run the assembler by its command line. -/
def run (environment : Settings.Environment) (d : Directory) (words : List Text) :
    Except UsageError Outcome :=
  interface.run (fun i => tool environment (.ofInvocation i)) d words

end Assemble

end Command

end Cross6502
