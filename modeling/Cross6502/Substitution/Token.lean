import Cross6502.Text.Basic

/-!
# Whole tokens

A name is replaced only where it stands as a whole token: at the start of the text
or after a blank, a tab, `(`, `#` or `*`, and before the end of the text, a blank,
a tab, `,`, `)`, `+` or `-`.  The search walks the text one character at a time and
stops at the first place where the name stands so; a raw occurrence that is part of
a longer word is passed over, and the walk goes on with the very next character.
-/

namespace Cross6502

namespace Token

/-- A character that may stand before a token. -/
def opens (c : Char) : Bool := c = ' ' || c = '\t' || c = '(' || c = '#' || c = '*'

/-- A character that may stand after a token. -/
def closes (c : Char) : Bool :=
  c = ' ' || c = '\t' || c = ',' || c = ')' || c = '+' || c = '-'

/-- A token may begin here, given the character before. -/
def mayBegin : Option Char → Bool
  | none => true
  | some c => opens c

/-- A token may end here, given the text that follows. -/
def mayEnd : Text → Bool
  | [] => true
  | c :: _ => closes c

/-- The name stands as a token at the front of a text, given the character
before it. -/
def standsAt (name : Text) (before : Option Char) (rest : Text) : Bool :=
  mayBegin before && name.isPrefixOf rest && mayEnd (rest.drop name.length)

/-- Walk a text from a position on, for the first place where the name stands. -/
def scan (name : Text) : Option Char → Text → Nat → Option Nat
  | before, [], i => if standsAt name before [] then some i else none
  | before, c :: cs, i =>
      if standsAt name before (c :: cs) then some i else scan name (some c) cs (i + 1)

/-- The character before a position. -/
def before? (text : Text) (i : Nat) : Option Char :=
  match i with
  | 0 => none
  | n + 1 => text[n]?

/-- The first position from `start` on where the name stands as a token. -/
def find? (text name : Text) (start : Nat) : Option Nat :=
  if start ≤ text.length then scan name (before? text start) (text.drop start) start else none

/-- As `find?`, from a position that may count from the end. -/
def findFrom? (text name : Text) (start : Int) : Option Nat :=
  find? text name (if 0 ≤ start then start.toNat else (start + text.length).toNat)

/-- The operand of an instruction begins behind its three letters. -/
def operandStart : Nat := 3

end Token

end Cross6502
