import Cross6502.Byte
import Cross6502.Index
import Cross6502.Instruction.Mode
import Cross6502.Symbol.Table

/-!
# Objects

An object is a program in memory: segments, each a load address and the bytes that
go there, perhaps a symbol table, and the operands that wait for the linker.  There
is always a first segment, possibly empty, so the type keeps it apart from the
later ones.

A reference names the segment and the offset of an operand, and the mode the
instruction was encoded with, which fixes whether the linker writes a displacement,
one byte or two.
-/

namespace Cross6502

/-! ## Segments -/

/-- Bytes and the address of the first of them. -/
structure Segment where
  start : Int
  data : List UInt8 := []
  deriving DecidableEq, Inhabited

namespace Segment

def size (s : Segment) : Nat := s.data.length

/-- The address behind the last byte, where the next one goes. -/
def finish (s : Segment) : Int := s.start + s.data.length

def isEmpty (s : Segment) : Bool := s.data.isEmpty

def contains (s : Segment) (address : Int) : Bool := s.start ≤ address && address < s.finish

/-- Put bytes behind the last one. -/
def append (s : Segment) (bytes : List UInt8) : Segment := { s with data := s.data ++ bytes }

@[simp] theorem start_append (s : Segment) (bytes : List UInt8) :
    (s.append bytes).start = s.start := rfl

@[simp] theorem data_append (s : Segment) (bytes : List UInt8) :
    (s.append bytes).data = s.data ++ bytes := rfl

@[simp] theorem finish_append (s : Segment) (bytes : List UInt8) :
    (s.append bytes).finish = s.finish + bytes.length := by
  simp only [finish, start_append, data_append, List.length_append]
  omega

end Segment

/-! ## References -/

/-- An operand that waits for the address of a name. -/
structure Reference where
  name : Text
  /-- The index of the segment that holds the operand. -/
  segment : Int
  /-- The offset of the operand's first byte in the segment. -/
  offset : Int
  mode : Mode
  line : Int := 0
  deriving DecidableEq, Inhabited

/-- The number of bytes the linker writes. -/
def Reference.width (r : Reference) : Nat := if r.mode.isWide then 2 else 1

/-! ## Objects -/

/-- A program in memory. -/
structure Object where
  first : Segment
  later : List Segment := []
  symbols : Option SymbolTable := none
  references : List Reference := []
  deriving DecidableEq, Inhabited

namespace Object

/-- All segments in the order of their creation. -/
def segments (o : Object) : List Segment := o.first :: o.later

/-- The object of a list of segments, if there is one. -/
def ofSegments? : List Segment → Option Object
  | [] => none
  | s :: rest => some { first := s, later := rest }

/-- An object with one empty segment. -/
def starting (start : Int) : Object := { first := { start := start } }

/-- The bytes of all segments, one behind the other. -/
def bytes (o : Object) : List UInt8 := o.segments.flatMap Segment.data

/-- The number of bytes in all segments. -/
def size (o : Object) : Nat := o.bytes.length

def isEmpty (o : Object) : Bool := o.size == 0

/-- The segments that hold bytes. -/
def populated (o : Object) : List Segment := o.segments.filter fun s => !s.isEmpty

/-- Change the segment at a position. -/
def modifySegment (o : Object) (n : Nat) (f : Segment → Segment) : Object :=
  match n with
  | 0 => { o with first := f o.first }
  | n + 1 => { o with later := o.later.modify n f }

/-- Put an empty segment behind the others.  Its index is the old number of
segments. -/
def addSegment (o : Object) (start : Int) : Object :=
  { o with later := o.later ++ [{ start := start % 65536 }] }

/-- The segment at an index that may count from the end. -/
def segmentAt? (o : Object) (i : Int) : Option Segment := itemAt? o.segments i

/-- Put bytes at the end of a segment, by an index that may count from the end. -/
def extend (o : Object) (i : Int) (bytes : List UInt8) : Except Failure Object :=
  match position? o.segments.length i with
  | some n => .ok (o.modifySegment n fun s => s.append bytes)
  | none => .error (.index .list)

/-- A one-line account: start and size of every segment. -/
def summary (o : Object) : String :=
  "ObjectFile([" ++ ", ".intercalate (o.segments.map fun s =>
    Text.addressString s.start ++ "+" ++ Text.decimalString s.size) ++ "])"

@[simp] theorem segments_starting (start : Int) :
    (starting start).segments = [{ start := start }] := rfl

@[simp] theorem segments_addSegment (o : Object) (start : Int) :
    (o.addSegment start).segments = o.segments ++ [{ start := start % 65536 }] := rfl

@[simp] theorem segments_modifySegment (o : Object) (n : Nat) (f : Segment → Segment) :
    (o.modifySegment n f).segments = o.segments.modify n f := by
  cases n <;> rfl

end Object

end Cross6502
