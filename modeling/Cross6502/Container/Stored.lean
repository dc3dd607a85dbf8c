import Cross6502.Container.Cartridge
import Cross6502.Container.Flat

/-!
# Stored objects

An object is read from bytes in a given format, or in the one its bytes show: an
image begins with its magic, and anything else is flat.  First-segment files cannot
be told from flat ones and are never read as such.  An object is saved flat or by
its first segment; an image is the linker's to write.
-/

namespace Cross6502

namespace Stored

/-- The format that bytes show. -/
def detect (bytes : List UInt8) : Format :=
  if Cartridge.hasMagic bytes then .cartridge else .flat

/-- Read an object in a format, with the properties of its header if it has one. -/
def readAs (format : Format) (bytes : List UInt8) :
    Logged (Object × Option Cartridge.Properties) :=
  match format with
  | .cartridge => do
      let (o, p) ← Cartridge.read bytes
      return (o, some p)
  | .firstSegment => Logged.fail (.format .firstSegmentUnreadable)
  | .flat => do
      let o ← Flat.read bytes
      return (o, none)

/-- Read an object in the format given or shown. -/
def read (format : Option Format) (bytes : List UInt8) :
    Logged (Object × Option Cartridge.Properties) :=
  match format with
  | some f => readAs f bytes
  | none => do
      Logged.say (.detected (detect bytes))
      readAs (detect bytes) bytes

/-- The bytes of an object in a format. -/
def write (format : Format) (o : Object) : Logged (List UInt8) :=
  match format with
  | .cartridge => Logged.fail (.format .cartridgeNeedsLinker)
  | .firstSegment => Flat.writeFirst o
  | .flat => Flat.write o

end Stored

end Cross6502
