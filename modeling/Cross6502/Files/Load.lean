import Cross6502.Assembly.Run
import Cross6502.Container.Stored
import Cross6502.Files.Directory
import Cross6502.Sidecar.Attach
import Cross6502.Sidecar.Reader

/-!
# Loading

Sources, sidecars, objects and character data are loaded from a directory by the
path as it was written, which is also how messages cite it.

An object that is loaded with its symbols takes them from the sidecar beside it, if
there is one.  As an input of a link, an image takes part with its program only.
-/

namespace Cross6502

namespace Load

/-! ## Text -/

/-- The text up to and with its last line feed. -/
def completeLines (t : Text) : Text := (t.reverse.dropWhile (· ≠ '\n')).reverse

/-- The text without a carriage return at its end, which a line feed may follow. -/
def withoutReturn (t : Text) : Text := if t.getLast? = some '\r' then t.dropLast else t

/-- Read the bytes of a sidecar.  Lines are read as their blocks are decoded, so bytes
that are no text are found only after the lines of the blocks in front of theirs were
read. -/
def sidecarOfBytes (file : String) (bytes : List UInt8) : Logged Sidecar :=
  match Utf8.decode bytes with
  | .ok t => Sidecar.read file (Text.unifyBreaks t)
  | .error e => do
      let (t, fault) := Utf8.decodeBlocks [] (Utf8.blocks bytes)
      let _ ← Sidecar.read file (completeLines (Text.unifyBreaks (withoutReturn t)))
      Logged.fail ((fault.map Utf8.Fault.failure).getD e)

/-- Load a sidecar. -/
def sidecar (d : Directory) (path : Text) : Logged Sidecar := do
  let bytes ← Logged.ofExcept (d.readAt path)
  sidecarOfBytes (String.ofList path) bytes

/-- Load a source and assemble it. -/
def assembled (d : Directory) (s : Settings) (allowUnresolved : Bool) (path : Path) :
    Except Failure Assembly := do
  let source ← d.readText path
  .ok (Assembly.ofSource s allowUnresolved path.string source)

/-! ## Objects -/

/-- Attach the sidecar beside an object, if there is one.  Its path is given back. -/
def withSidecar (d : Directory) (path : Text) (format : Format) (o : Object) :
    Logged (Object × Option Path) := do
  let beside ← Logged.ofExcept (Path.ofText path).sidecar
  if ← Logged.ofExcept (d.has beside) then do
    let s ← sidecar d beside.text
    let o ← s.attach format o
    return (o, some beside)
  else return (o, none)

/-- The format of bytes: the one asked for, or the one they show. -/
def formatOf (format : Option Format) (bytes : List UInt8) : Format :=
  format.getD (Stored.detect bytes)

/-- Load an object, with the symbols beside it on request. -/
def object (d : Directory) (path : Text) (format : Option Format) (symbols : Bool) :
    Logged (Object × Option Cartridge.Properties) := do
  let bytes ← Logged.ofExcept (d.readAt path)
  let format := formatOf format bytes
  let (o, properties) ← Stored.readAs format bytes
  if symbols then do
    let (o, beside) ← withSidecar d path format o
    match beside, o.symbols with
    | some p, some t => Logged.say (.loadedSidecar t.size o.references.length p.string)
    | _, _ => pure ()
    return (o, properties)
  else return (o, properties)

/-- The part of an object that is code: all of it, or the program of an image. -/
def code (format : Format) (o : Object) : Object :=
  if format = .cartridge then { o with later := [] } else o

/-- Load an input of a link with the symbols beside it. -/
def linkInput (d : Directory) (path : Text) (format : Option Format) : Logged Object := do
  let bytes ← Logged.ofExcept (d.readAt path)
  let format := formatOf format bytes
  let (o, _) ← Stored.readAs format bytes
  let (o, beside) ← withSidecar d path format (code format o)
  match beside with
  | some p => Logged.say (.attachedSidecar (String.ofList path) p.string)
  | none => pure ()
  return o

/-- The character data of an image: its second segment, put at address zero. -/
def characterSegment (o : Object) : Segment :=
  { start := 0, data := (o.later.head?.map Segment.data).getD [] }

/-- Load character data: that of an image, or a whole flat file. -/
def characters (d : Directory) (path : Text) : Logged Object := do
  let bytes ← Logged.ofExcept (d.readAt path)
  let format := Stored.detect bytes
  let (o, _) ← Stored.readAs format bytes
  return if format = .cartridge then { first := characterSegment o } else o

end Load

end Cross6502
