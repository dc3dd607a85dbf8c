import Cross6502.Text.Basic

/-!
# Lines of a text

A source text is cut at every line boundary character, and a carriage return
followed by a line feed is one boundary.  The last line needs no boundary: a text
that ends in one has no empty line after it, and the empty text has no line at
all.

Files are read with their boundaries unified first (`unifyBreaks`), which turns
`\r\n` and a lone `\r` into `\n` and leaves the rarer boundaries alone.
-/

namespace Cross6502

namespace Text

/-- A line boundary: line feed, vertical tab, form feed, carriage return, the
file, group and record separators, next line, and the two Unicode separators. -/
def isBreak (c : Char) : Bool :=
  let n := c.toNat
  (10 ≤ n && n ≤ 13) || (28 ≤ n && n ≤ 30) || n == 0x85 || n == 0x2028 || n == 0x2029

/-- Put a character in front of the first line. -/
def consLine (c : Char) : List Text → List Text
  | [] => [[c]]
  | l :: ls => (c :: l) :: ls

/-- The lines of a text, without their boundaries. -/
def lines : Text → List Text
  | [] => []
  | '\r' :: '\n' :: cs => [] :: lines cs
  | c :: cs => if isBreak c then [] :: lines cs else consLine c (lines cs)

/-- Every carriage return, with the line feed that follows it if there is one,
becomes a line feed. -/
def unifyBreaks : Text → Text
  | [] => []
  | '\r' :: '\n' :: cs => '\n' :: unifyBreaks cs
  | c :: cs => (if c = '\r' then '\n' else c) :: unifyBreaks cs

@[simp] theorem lines_nil : lines [] = [] := rfl

@[simp] theorem unifyBreaks_nil : unifyBreaks [] = [] := rfl

end Text

end Cross6502
