import Cross6502.Command.Console
import Cross6502.Files.Save

/-!
# The linker's command line

The inputs are linked in the order given and the image is written to the output.
Nothing is written unless everything before has succeeded.
-/

namespace Cross6502

namespace Command

namespace Link

/-- The command line of the linker. -/
def interface : Interface where
  tool := "ld6502"
  argument := "INPUT_FILES..."
  many := true
  parameters :=
    [{ short := some 'o', long := "output", kind := some .outputFile, required := true },
     { short := some 'C', long := "chr", kind := some .inputFile },
     { short := some 'F', long := "format", kind := some (.word ["auto", "flat", "ines"]) },
     { long := "pal" },
     { short := some 'v', long := "verbose" }]

/-- What the linker is asked to do. -/
structure Options where
  inputs : List Path
  output : Path
  /-- The file of the character data. -/
  characters : Option Path := none
  /-- The format of the inputs, unless each shows its own. -/
  format : Option Format := none
  video : Video := .ntsc
  deriving DecidableEq, Inhabited

/-- The options of a checked command line. -/
def Options.ofInvocation (i : Invocation) : Options where
  inputs := i.paths
  output := (i.path? "output").getD {}
  characters := i.path? "chr"
  format := i.format? "format"
  video := if i.has "pal" then .pal else .ntsc

/-- Load and link the inputs. -/
def linked (o : Options) (d : Directory) : Logged Cross6502.Link.Linked :=
  Cross6502.Link.files d {} (o.inputs.map Path.text) (o.characters.map Path.text) o.format

/-- Load and link the inputs and write the image. -/
def task (o : Options) : Task Unit := do
  let l ← Task.ofLogged (linked o (← get).directory)
  let (d, size) ←
    Task.ofLogged (Save.image (← get).directory o.output.text l { video := o.video })
  Task.setDirectory d
  let prg := l.object.first
  sayVerbose ("Linked " ++ Text.decimalString o.inputs.length ++ " object(s)")
  sayVerbose ("PRG-ROM: " ++ Text.decimalString prg.size ++ " bytes at "
    ++ Text.addressString prg.start)
  match l.chr with
  | some chr => sayVerbose ("CHR-ROM: " ++ Text.decimalString chr.size ++ " bytes")
  | none => pure ()
  sayVerbose ("Wrote " ++ Text.decimalString size ++ " bytes to " ++ o.output.string)

/-- Run the linker. -/
def tool (o : Options) : Tool Unit := guarded "Link" (task o)

/-- Run the linker by its command line. -/
def run (d : Directory) (words : List Text) : Except UsageError Outcome :=
  interface.run (fun i => tool (.ofInvocation i)) d words

end Link

end Command

end Cross6502
