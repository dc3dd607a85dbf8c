import Cross6502.Text.Number

/-!
# Places in a source

A place is a file and a line, with a column when one is known; column zero stands
for "somewhere on the line".
-/

namespace Cross6502

/-- A place in a source file. -/
structure Location where
  file : String
  line : Int
  column : Int := 0
  deriving DecidableEq, Inhabited

namespace Location

/-- `file:line`, and the column behind it when it is known. -/
def text (l : Location) : String :=
  let place := l.file ++ ":" ++ Text.decimalString l.line
  if l.column > 0 then place ++ ":" ++ Text.decimalString l.column else place

/-- The numbers in the text of a place. -/
def numbers (l : Location) : List Int := if l.column > 0 then [l.line, l.column] else [l.line]

end Location

end Cross6502
