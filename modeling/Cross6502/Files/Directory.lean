import Cross6502.Files.Path
import Cross6502.Text.LineBreak
import Cross6502.Text.Utf8

/-!
# Directories of files

The tools work in a directory.  It is a value: a list of places, each with the file
or folder there, and a tool that writes a file gives back a new directory.  A place
is the list of names that lead to it from the directory itself.

To look up a path, its steps are followed one by one.  Each starts from a folder; `.`
stays there and `..` leads back to the folder above.  A slash at the end asks for a
folder.  The folders above the directory itself are places too, named `..` again and
again, and so is the root, named `/`.  They are there without being listed.

Names and paths have a greatest length, in bytes.

A directory may keep the tools from some places.  No path leads through a folder that is
closed, and a closed file cannot be read.  Neither can be changed, nor what is fixed: a
fixed file keeps its bytes, and a fixed folder takes no new files.
-/

namespace Cross6502

/-- What a directory has at a place. -/
inductive FileEntry where
  | file (bytes : List UInt8)
  | folder
  deriving DecidableEq, Inhabited

/-- A place: the names that lead to it. -/
abbrev Place := List Text

/-- What the tools are kept from at a place. -/
inductive Restriction where
  /-- Reading and changing it. -/
  | closed
  /-- Changing it. -/
  | fixed
  deriving DecidableEq, Inhabited

/-- Files and folders by place, and what may not be done with them. -/
structure Directory where
  entries : List (Place × FileEntry) := []
  restrictions : List (Place × Restriction) := []
  deriving DecidableEq, Inhabited

namespace Directory

/-! ## Looking -/

/-- The name by which a folder leads to itself. -/
def hereName : Text := ['.']

/-- The name of the folder above. -/
def upName : Text := ['.', '.']

/-- The name of the root. -/
def rootName : Text := ['/']

/-- The directory itself and the folders above it. -/
def isAbove (place : Place) : Bool := place.all (· == upName)

/-- What is at a place. -/
def entry? (d : Directory) (place : Place) : Option FileEntry :=
  if isAbove place || place == [rootName] then some .folder else d.entries.lookup place

/-- Whether a place is neither read nor passed through. -/
def isClosed (d : Directory) (place : Place) : Bool :=
  d.restrictions.lookup place == some .closed

/-- Whether a place is not changed. -/
def isKept (d : Directory) (place : Place) : Bool := (d.restrictions.lookup place).isSome

/-- The place above. -/
def above (place : Place) : Place :=
  if isAbove place then place ++ [upName]
  else if place == [rootName] then place
  else place.dropLast

/-- Why a path leads nowhere. -/
inductive Dead where
  | missing
  | notDirectory
  | nameTooLong
  /-- A folder on the way is closed. -/
  | denied
  /-- A path that no file system takes, since a null character would end it. -/
  | nullInPath
  deriving DecidableEq, Inhabited

/-- The greatest number of bytes in a name. -/
def nameLimit : Nat := 255

/-- The number of bytes that a path stays below. -/
def pathLimit : Nat := 4096

def isTooLong (name : Text) : Bool := nameLimit < (Utf8.encode name).length

/-- Follow steps from a place. -/
def follow (d : Directory) : Place → List Text → Except Dead Place
  | here, [] => .ok here
  | here, name :: rest =>
      match d.entry? here with
      | none => .error .missing
      | some (.file _) => .error .notDirectory
      | some .folder =>
          if d.isClosed here then .error .denied
          else if name = hereName then follow d here rest
          else if name = upName then follow d (above here) rest
          else if isTooLong name then .error .nameTooLong
          else follow d (here ++ [name]) rest

/-- The steps of a written path. -/
def stepsOf (t : Text) : List Text :=
  let steps := (t.splitOnP (· = '/')).filter fun step => !step.isEmpty
  if t.head? = some '/' then rootName :: steps else steps

/-- Whether a written path asks for a folder. -/
def asksForFolder (t : Text) : Bool := t.getLast? == some '/'

/-- The place that a written path leads to. -/
def placeOf (d : Directory) (t : Text) : Except Dead Place :=
  if t.contains '\x00' then .error .nullInPath
  else if t.isEmpty then .error .missing
  else if pathLimit ≤ (Utf8.encode t).length then .error .nameTooLong
  else d.follow [] (stepsOf t)

/-- What a written path leads to. -/
def look (d : Directory) (t : Text) : Except Dead FileEntry := do
  let place ← d.placeOf t
  match d.entry? place with
  | none => .error .missing
  | some (.file bytes) => if asksForFolder t then .error .notDirectory else .ok (.file bytes)
  | some .folder => .ok .folder

/-! ## Reading and writing -/

/-- The failure of a path that leads nowhere, as it was written. -/
def Dead.failure (path : String) : Dead → Failure
  | missing => .file (.missing path)
  | notDirectory => .file (.notDirectory path)
  | nameTooLong => .file (.nameTooLong path)
  | denied => .file (.denied path)
  | nullInPath => .value .nullInPath

/-- Whether a path leads to anything.  A name that no file can have is a failure, and so is a
closed folder on the way. -/
def has (d : Directory) (p : Path) : Except Failure Bool :=
  match d.look p.text with
  | .ok _ => .ok true
  | .error .nameTooLong => .error (Dead.nameTooLong.failure p.string)
  | .error .denied => .error (Dead.denied.failure p.string)
  | .error _ => .ok false

/-- Whether a path leads to something that may be read. -/
def mayRead (d : Directory) (t : Text) : Bool :=
  match d.placeOf t with
  | .ok place => !d.isClosed place
  | .error _ => false

/-- The bytes of a file. -/
def readAt (d : Directory) (t : Text) : Except Failure (List UInt8) :=
  match d.look t with
  | .ok e =>
      if d.mayRead t then
        match e with
        | .file bytes => .ok bytes
        | .folder => .error (.file (.directory (String.ofList t)))
      else .error (.file (.denied (String.ofList t)))
  | .error e => .error (e.failure (String.ofList t))

def read (d : Directory) (p : Path) : Except Failure (List UInt8) := d.readAt p.text

/-- The text of a file, with its line boundaries unified. -/
def readText (d : Directory) (p : Path) : Except Failure Text := do
  let bytes ← d.read p
  let t ← Utf8.decode bytes
  .ok (Text.unifyBreaks t)

/-- Put an entry at a place. -/
def put (d : Directory) (place : Place) (e : FileEntry) : Directory :=
  { d with entries := (d.entries.filter fun x => x.1 != place) ++ [(place, e)] }

/-- Keep the tools from a place. -/
def restrict (d : Directory) (place : Place) (r : Restriction) : Directory :=
  { d with restrictions := (place, r) :: d.restrictions }

/-- Whether a file may be written at a place.  If it is a new one, its folder is changed
too. -/
def mayWrite (d : Directory) (place : Place) : Bool :=
  !d.isKept place && ((d.entry? place).isSome || !d.isKept (above place))

/-- The place that a file would be written at. -/
def target (d : Directory) (t : Text) : Except Failure Place :=
  match d.placeOf t with
  | .error e => .error (e.failure (String.ofList t))
  | .ok place =>
      match d.entry? place with
      | some .folder => .error (.file (.directory (String.ofList t)))
      | _ =>
          if asksForFolder t then .error (.file (.directory (String.ofList t)))
          else if d.mayWrite place then .ok place
          else .error (.file (.denied (String.ofList t)))

/-- Write a file.  The folder it goes to must exist. -/
def writeAt (d : Directory) (t : Text) (bytes : List UInt8) : Except Failure Directory := do
  let place ← d.target t
  .ok (d.put place (.file bytes))

def write (d : Directory) (p : Path) (bytes : List UInt8) : Except Failure Directory :=
  d.writeAt p.text bytes

/-! ## Building -/

/-- The names that lead to the place of a path in its normal form. -/
def namesOf (t : Text) : List Text :=
  if (Path.rootOf t).isEmpty then Path.partsOf t else rootName :: Path.partsOf t

/-- Make the folders that lead to a place. -/
def withParents (d : Directory) (place : Place) : Directory :=
  (List.range place.length).foldl
    (fun d n =>
      match d.entry? (place.take n) with
      | none => d.put (place.take n) .folder
      | some _ => d) d

/-- The directory that holds the given entries and the folders that lead to them. -/
def ofEntries (entries : List (Text × FileEntry)) : Directory :=
  entries.foldl
    (fun d (name, e) =>
      let place := namesOf name
      (d.withParents place).put place e) {}

/-- The path that leads to a place. -/
def pathTo (place : Place) : Path :=
  match place with
  | [] => {}
  | first :: rest =>
      if first = rootName then { root := rootName, parts := rest } else { parts := place }

/-- The files of the second directory that the first lacks or has with other
bytes. -/
def changes (before after : Directory) : List (Path × List UInt8) :=
  after.entries.filterMap fun (place, e) =>
    match e with
    | .file bytes => if before.entry? place = some e then none else some (pathTo place, bytes)
    | .folder => none

/-- Whether a path leads to a place inside the directory. -/
def isInside (p : Path) : Bool := p.root.isEmpty && p.parts.head? != some upName

end Directory

end Cross6502
