import Cross6502.Diagnostic.Failure

/-!
# Paths

A path is a sequence of parts.  Empty parts and `.` say nothing and are dropped,
`..` is kept, and a path without any part is `.` itself.  A leading slash, or
exactly two, makes it absolute.

The suffix of a path is the last dot of its last part and what follows, unless the
dot comes first or last.
-/

namespace Cross6502

/-- A path in its normal form. -/
structure Path where
  /-- Empty for a relative path. -/
  root : Text := []
  parts : List Text := []
  deriving DecidableEq, Inhabited

namespace Path

/-- The root of a written path. -/
def rootOf : Text → Text
  | '/' :: '/' :: '/' :: _ => ['/']
  | '/' :: '/' :: _ => ['/', '/']
  | '/' :: _ => ['/']
  | _ => []

/-- The parts of a written path that say something. -/
def partsOf (t : Text) : List Text :=
  (t.splitOnP (· = '/')).filter fun part => !part.isEmpty && part != ['.']

/-- The path that a text describes. -/
def ofText (t : Text) : Path := ⟨rootOf t, partsOf t⟩

/-- A path as it is written. -/
def text (p : Path) : Text :=
  if p.root.isEmpty && p.parts.isEmpty then ['.'] else p.root ++ Text.joinWith ['/'] p.parts

def string (p : Path) : String := String.ofList p.text

/-- A part without its suffix. -/
def stem (part : Text) : Text :=
  let front := part.reverse.dropWhile (· ≠ '.')
  let extension := part.reverse.takeWhile (· ≠ '.')
  if extension.isEmpty || front.length ≤ 1 then part else (front.drop 1).reverse

/-- The path with another suffix. -/
def withSuffix (p : Path) (suffix : Text) : Except Failure Path :=
  match p.parts.getLast? with
  | none => .error (.value (.namelessPath p.string))
  | some name => .ok { p with parts := p.parts.dropLast ++ [stem name ++ suffix] }

/-- The path of the sidecar beside an object. -/
def sidecar (p : Path) : Except Failure Path := p.withSuffix ".sym".toList

end Path

end Cross6502
