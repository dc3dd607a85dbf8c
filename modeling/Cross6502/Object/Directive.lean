import Cross6502.Literal
import Cross6502.Object.Basic
import Cross6502.Text.Lowercase

/-!
# Directives

A directive steers which segment of an object receives bytes:

    .org <address>   start a new segment at the address and make it current
    .end             make the first segment current again
    .byte <value>    put one byte into the current segment

Which segment is current is an index that the directive takes and gives back; the
object does not know it.  The argument is a literal like that of an instruction.
-/

namespace Cross6502

/-- A line that begins with a dot, by what it asks for. -/
inductive Directive where
  | org (argument : Text)
  | finish
  | byte (argument : Text)
  deriving DecidableEq, Inhabited

namespace Directive

/-- Read a line as a directive. -/
def ofLine? (line : Text) : Option Directive :=
  let t := Text.trim line
  if t.length < 4 || t.head? != some '.' then none
  else
    let (word, argument) := Text.splitWord t
    let name := Text.lower word
    if name = ".org".toList then some (.org argument)
    else if name = ".end".toList then some .finish
    else if name = ".byte".toList then some (.byte argument)
    else none

/-- The object and the current segment after a directive. -/
def apply (d : Directive) (o : Object) (current : Int) : Except Failure (Object × Int) :=
  match d with
  | .org argument => do
      let literal ← Literal.read argument
      .ok (o.addSegment literal.value, o.segments.length)
  | .finish => .ok (o, 0)
  | .byte argument => do
      let literal ← Literal.read argument
      let o ← o.extend current [literal.low]
      .ok (o, current)

end Directive

end Cross6502
