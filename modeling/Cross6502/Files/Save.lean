import Cross6502.Container.Stored
import Cross6502.Files.Directory
import Cross6502.Files.Load
import Cross6502.Link.Image

/-!
# Saving, and linking files

A file is opened before anything is written into it, so a path that cannot be
written is reported before the container tells what it stores.  The image of a link
is complete before its file is opened: a failed link leaves the directory as it
was.
-/

namespace Cross6502

namespace Save

/-- Save an object in a format.  The directory and the number of bytes are given
back. -/
def object (d : Directory) (path : Text) (format : Format) (o : Object) :
    Logged (Directory × Nat) :=
  let stored := Stored.write format o
  match stored.outcome with
  | .error e => ⟨stored.log, .error e⟩
  | .ok bytes =>
      match d.writeAt path bytes with
      | .error e => Logged.fail e
      | .ok d => ⟨stored.log, .ok (d, bytes.length)⟩

/-- Save a text. -/
def text (d : Directory) (path t : Text) : Except Failure Directory :=
  d.writeAt path (Utf8.encode t)

/-- The text of a listing file. -/
def listingText (a : Assembly) : Text := a.listing ++ ['\n']

/-- Save the cartridge image of a linked program. -/
def image (d : Directory) (path : Text) (l : Link.Linked) (p : Cartridge.Properties) :
    Logged (Directory × Nat) := do
  let bytes ← l.cartridge p
  let d ← Logged.ofExcept (d.write (Path.ofText path) bytes)
  Logged.say (.wroteObject bytes.length (String.ofList path))
  return (d, bytes.length)

end Save

namespace Link

/-- Load the inputs of a link in order. -/
def inputs (d : Directory) (format : Option Format) : List Text → Logged (List Object)
  | [] => Logged.ok []
  | path :: rest => do
      let o ← Load.linkInput d path format
      let objects ← inputs d format rest
      return o :: objects

/-- Load the character data of a link, if there is any. -/
def characters? (d : Directory) : Option Text → Logged (Option Object)
  | none => Logged.ok none
  | some path => do
      let o ← Load.characters d path
      return some o

/-- Load objects and link them under the names of their files. -/
def files (d : Directory) (s : Settings) (paths : List Text) (chr : Option Text)
    (format : Option Format) : Logged Linked := do
  let objects ← inputs d format paths
  let chr ← characters? d chr
  link s objects chr (paths.map String.ofList)

end Link

end Cross6502
