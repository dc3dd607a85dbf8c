import Cross6502.Instruction.Mnemonic
import Cross6502.Text.Alphanumeric
import Cross6502.Text.Blank

/-!
# Source lines

A line holds at most one label, one instruction or directive, and one comment:

    [label[:]] [instruction or directive] [;comment]
    name = value

Case and trailing blanks carry no meaning, so a line is *cleaned* before anything
else looks at it: comment and trailing blanks go, and the rest is put in lower
case.  Indentation stays, because a label is a word in column zero.

A word in column zero that spells a mnemonic is an instruction and not a label,
unless a colon follows it or the line goes on with `=`.
-/

namespace Cross6502

namespace Line

/-! ## Cleaning -/

/-- The line up to its first semicolon. -/
def stripComment (line : Text) : Text := line.takeWhile (· ≠ ';')

/-- The line without comment and trailing blanks, in lower case. -/
def clean (line : Text) : Text := Text.lower (Text.trimRight (stripComment line))

/-- The cleaned line without its indentation. -/
def normal (line : Text) : Text := Text.trimLeft (clean line)

/-! ## Mnemonic and operand -/

/-- The mnemonic of an instruction: its first three characters. -/
def mnemonic (instruction : Text) : Text := instruction.take 3

/-- The operand of an instruction: what follows the first three characters. -/
def operand (instruction : Text) : Text := Text.trim (instruction.drop 3)

/-! ## Labels -/

/-- A line with an equals sign declares a variable, if it has a label. -/
def hasEquals (line : Text) : Bool := line.contains '='

/-- A character that ends a label. -/
def endsLabel (c : Char) : Bool := Text.isBlank c || c = ':' || c = '='

/-- Whether the text after a word in column zero goes on with `=`. -/
def continuesWithEquals (rest : Text) : Bool :=
  match Text.trimLeft rest with
  | '=' :: _ => true
  | _ => false

/-- Whether a word in column zero is an instruction rather than a label. -/
def isBareMnemonic (name rest : Text) : Bool :=
  Mnemonic.isMnemonic name && name.length == 3 && !continuesWithEquals rest

/-- Separate a label in column zero from the rest of a line. -/
def splitLabel (line : Text) : Option Text × Text :=
  match line with
  | [] => (none, [])
  | c :: _ =>
      if !Text.isAlphanumeric c then (none, Text.trim line)
      else
        let name := line.takeWhile fun c => !endsLabel c
        match line.dropWhile fun c => !endsLabel c with
        | ':' :: rest => (some name, Text.trim rest)
        | rest =>
            if isBareMnemonic name rest then (none, Text.trim line)
            else (some name, Text.trim rest)

end Line

/-! ## The meaning of a line -/

/-- A cleaned line, by what it asks for. -/
inductive Line where
  /-- Nothing. -/
  | blank
  /-- A variable, with its initial value when one is written. -/
  | declaration (name : Text) (value : Option Text)
  /-- An optional label before an instruction, a directive or nothing. -/
  | statement (label : Option Text) (body : Text)
  deriving DecidableEq, Inhabited

namespace Line

/-- The initial value in a declaration: what follows the equals signs, if
anything does. -/
def initialValue (rest : Text) : Option Text :=
  match Text.trim (rest.dropWhile (· = '=')) with
  | [] => none
  | t => some t

/-- Read a cleaned line. -/
def ofClean (cleaned : Text) : Line :=
  if (Text.trim cleaned).isEmpty then .blank
  else
    match splitLabel cleaned with
    | (some name, rest) =>
        if hasEquals rest then .declaration name (initialValue rest)
        else .statement (some name) rest
    | (none, rest) => .statement none rest

end Line

end Cross6502
