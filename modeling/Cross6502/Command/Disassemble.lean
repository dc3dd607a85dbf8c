import Cross6502.Command.Console
import Cross6502.Disassembly.Labels
import Cross6502.Files.Save

/-!
# The disassembler's command line

One object is loaded with the symbols beside it and shown as source, on the output
or in a file.  Of an image only the program is shown.  Failures while it is loaded
or written are reported; one that arises while labels are derived is not, and ends
the tool as it is.
-/

namespace Cross6502

namespace Command

namespace Disassemble

/-- The command line of the disassembler. -/
def interface : Interface where
  tool := "dis6502"
  argument := "INPUT_FILE"
  many := false
  parameters :=
    [{ short := some 'o', long := "output", kind := some .outputFile },
     { short := some 'F', long := "format", kind := some (.word ["auto", "flat", "ines"]) },
     { long := "annotate" },
     { short := some 'v', long := "verbose" }]

/-- What the disassembler is asked to do. -/
structure Options where
  input : Path
  output : Option Path := none
  /-- The format of the input, unless it shows its own. -/
  format : Option Format := none
  annotate : Bool := false
  deriving DecidableEq, Inhabited

/-- The options of a checked command line. -/
def Options.ofInvocation (i : Invocation) : Options where
  input := (i.paths.head?).getD {}
  output := i.path? "output"
  format := i.format? "format"
  annotate := i.has "annotate"

/-- Load the code of the input with its symbols. -/
def loadCode (o : Options) : Task Object := do
  let d := (← get).directory
  let bytes ← Task.ofExcept (d.read o.input)
  let format := Load.formatOf o.format bytes
  let (object, _) ← Task.ofLogged (Load.object d o.input.text (some format) true)
  return Load.code format object

/-- A line that only a verbose tool prints to the error text. -/
def noteVerbose (line : String) : Task Unit :=
  modify fun c => if c.verbose then c.printError line else c

/-- The text of an object, shown with its own symbols or with derived ones alone. -/
def shown (object : Object) (annotate : Bool) : Logged Text :=
  let d : Disassembler :=
    match object.symbols with
    | some t => { symbols := t }
    | none => {}
  let (derivation, result) := d.text object annotate
  ⟨derivation.log, result⟩

/-- Write the text to a file. -/
def writeText (path : Path) (t : Text) : Task Unit := do
  let d ← Task.ofExcept (Save.text (← get).directory path.text t)
  Task.setDirectory d

/-- Run the disassembler. -/
def tool (o : Options) : Tool Unit := do
  let object ← guarded "" (loadCode o)
  if object.isEmpty then quit .buildError ("Error: " ++ o.input.string ++ " is empty")
  let t ← unguarded do
    noteVerbose ("Input file: " ++ o.input.string ++ " (" ++ Text.decimalString object.size
      ++ " bytes)")
    Task.ofLogged (shown object o.annotate)
  match o.output with
  | none => modify fun c => c.print (String.ofList t)
  | some path => do
      guarded "" (writeText path t)
      unguarded (noteVerbose ("Output written to: " ++ path.string))

/-- Run the disassembler by its command line. -/
def run (d : Directory) (words : List Text) : Except UsageError Outcome :=
  interface.run (fun i => tool (.ofInvocation i)) d words

end Disassemble

end Command

end Cross6502
