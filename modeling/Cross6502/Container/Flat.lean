import Cross6502.Log

/-!
# Flat files

A flat file holds the bytes of one segment, without a header.  Of an object with
several segments it holds the last that is not empty, or the last of all when every
segment is empty; the others are lost, and a warning says so.  Read back, the bytes
are a single segment at address zero, until a sidecar tells where they belong.

A first-segment file differs only in the segment it holds.
-/

namespace Cross6502

namespace Flat

/-- The index of the stored segment, from the lengths of all: the last that is not
zero, or the last of all. -/
def storedIndex (lengths : List Int) : Int :=
  match lengths.reverse.findIdx? (· ≠ 0) with
  | some k => (lengths.length : Int) - 1 - k
  | none => (lengths.length : Int) - 1

/-- The segment of an object that a flat file holds. -/
def stored (o : Object) : Segment :=
  (itemAt? o.segments (storedIndex (o.segments.map fun s => (s.size : Int)))).getD o.first

/-- The bytes of a flat file. -/
def write (o : Object) : Logged (List UInt8) := do
  if 1 < o.populated.length then Logged.say .segmentsLost
  let s := stored o
  Logged.say (.wroteFlat s.size s.start)
  return s.data

/-- The bytes of a first-segment file. -/
def writeFirst (o : Object) : Logged (List UInt8) := do
  Logged.say (.wroteFirstSegment o.first.size)
  return o.first.data

/-- The object of a flat file. -/
def read (bytes : List UInt8) : Logged Object := do
  Logged.say (.readFlat bytes.length)
  return { first := { start := 0, data := bytes } }

end Flat

end Cross6502
