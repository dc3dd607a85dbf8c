import Cross6502.Text.Basic

/-!
# Control sequences

A terminal takes an escape character, an opening bracket, any number of parameters and
a letter for a command, such as a change of colour.  What is printed for a reader who
has no terminal is printed without these sequences.

Parameters are digits, semicolons and question marks, so a sequence holds one escape
character only and a text can be cut at them first.  An escape character that no
sequence follows stays, and what remains is not searched again.
-/

namespace Cross6502

namespace Text

def escape : Char := '\x1b'

/-- A character that may stand in the parameters of a control sequence. -/
def isParameter (c : Char) : Bool := c == ';' || c == '?' || c.isDigit

/-- What stands behind the control sequence that an escape character and this text make,
if they make one. -/
def afterControl? : Text → Option Text
  | '[' :: rest =>
      match rest.dropWhile isParameter with
      | c :: after => if c.isAlpha then some after else none
      | [] => none
  | _ => none

/-- An escape character and the text behind it, without the control sequence. -/
def plainPiece (t : Text) : Text := (afterControl? t).getD (escape :: t)

/-- The text without control sequences. -/
def plain (t : Text) : Text :=
  match t.splitOnP (· = escape) with
  | [] => []
  | first :: pieces => first ++ pieces.flatMap plainPiece

/-- A string without control sequences. -/
def plainString (s : String) : String := String.ofList (plain s.toList)

@[simp] theorem plain_nil : plain [] = [] := rfl

end Text

end Cross6502
