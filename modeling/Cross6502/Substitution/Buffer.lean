import Cross6502.Diagnostic.Failure
import Cross6502.Index

/-!
# Line buffers

A line is edited inside a buffer of fixed capacity.  The capacity counts a
terminator, so a buffer of capacity 80 holds 79 characters.  Replacing a stretch by
a shorter or equal one always succeeds; replacing it by a longer one fails when the
result would pass the limit, and then the text is left as it was.
-/

namespace Cross6502

/-- A line with a bound on its length. -/
structure LineBuffer where
  text : Text
  capacity : Int := 80
  /-- The place of the line, for the report of an overflow. -/
  location : Option Location := none
  deriving DecidableEq, Inhabited

namespace LineBuffer

/-- The most characters the buffer holds. -/
def limit (b : LineBuffer) : Int := b.capacity - 1

/-- The error of a line that would need more room than there is. -/
def overflow (b : LineBuffer) (needed : Int) : Failure :=
  (Failure.source { cause := .bufferOverflow needed b.capacity, location := b.location }).worded

/-- Replace `length` characters from `start` on. -/
def splice (b : LineBuffer) (start length : Int) (replacement : Text) :
    Except Failure LineBuffer :=
  let needed := (b.text.length : Int) - length + replacement.length
  if length < replacement.length && b.limit < needed then .error (b.overflow needed)
  else .ok { b with
    text := sliceTo b.text start ++ replacement ++ sliceFrom b.text (start + length) }

/-- A one-line account of the buffer. -/
def summary (b : LineBuffer) : String :=
  "LineBuffer(" ++ String.ofList (Text.quoted b.text) ++ ", capacity="
    ++ Text.decimalString b.capacity ++ ")"

end LineBuffer

end Cross6502
