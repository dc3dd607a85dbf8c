import Cross6502.Literal
import Cross6502.Substitution.Buffer
import Cross6502.Substitution.Token

/-!
# Sums of literals

Once names have become literals, the first sum or difference of two literals in
the operand is folded into one.  A literal here is `$` with lower-case hexadecimal
digits, `%` with binary digits, or a run of decimal digits; blanks may stand around
the sign.  The result is kept modulo `2 ^ 16` and written with two places when both
sides are narrow and it fits a byte, with four otherwise.
-/

namespace Cross6502

namespace Arithmetic

/-! ## Finding a sum -/

def isLowerHexDigit (c : Char) : Bool := c.isDigit || ('a' ≤ c && c ≤ 'f')

def isBinaryDigit (c : Char) : Bool := c = '0' || c = '1'

/-- Split a non-empty run off the front. -/
def splitRun (p : Char → Bool) (t : Text) : Option (Text × Text) :=
  match t.takeWhile p with
  | [] => none
  | run => some (run, t.dropWhile p)

/-- Split a literal off the front. -/
def splitLiteral : Text → Option (Text × Text)
  | '$' :: t => (splitRun isLowerHexDigit t).map fun (run, rest) => ('$' :: run, rest)
  | '%' :: t => (splitRun isBinaryDigit t).map fun (run, rest) => ('%' :: run, rest)
  | t => splitRun Text.isDecimal t

/-- Split a sign off the front, blanks aside: `true` for a minus. -/
def splitOperator (t : Text) : Option (Bool × Text) :=
  match Text.trimLeft t with
  | '+' :: rest => some (false, Text.trimLeft rest)
  | '-' :: rest => some (true, Text.trimLeft rest)
  | _ => none

/-- Two literals with a sign between them, and how many characters they take. -/
structure Sum where
  left : Text
  minus : Bool
  right : Text
  length : Nat
  deriving DecidableEq, Inhabited

/-- A sum at the front of a text. -/
def sumAt? (t : Text) : Option Sum := do
  let (left, rest) ← splitLiteral t
  let (minus, rest) ← splitOperator rest
  let (right, rest) ← splitLiteral rest
  some ⟨left, minus, right, t.length - rest.length⟩

/-- The first sum in a text whose first character has position `i`. -/
def findFrom? : Nat → Text → Option (Nat × Sum)
  | _, [] => none
  | i, c :: cs =>
      match sumAt? (c :: cs) with
      | some s => some (i, s)
      | none => findFrom? (i + 1) cs

/-- The first sum in the operand of a line. -/
def find? (line : Text) : Option (Nat × Sum) :=
  findFrom? Token.operandStart (line.drop Token.operandStart)

/-! ## Folding it -/

/-- The value of a sum modulo `2 ^ 16`. -/
def total (minus : Bool) (left right : Nat) : Nat :=
  ((if minus then (left : Int) - right else (left : Int) + right) % 65536).toNat

/-- A folded value as a literal. -/
def resultText (left right : Literal) (result : Nat) : Text :=
  if left.wide || right.wide || 255 < result then '$' :: Text.lowerHex 4 result
  else '$' :: Text.lowerHex 2 result

/-- The literal of a sum. -/
def Sum.literalText (s : Sum) : Except Failure Text := do
  let left ← Literal.read s.left
  let right ← Literal.read s.right
  .ok (resultText left right (total s.minus left.value right.value))

/-- Fold the first sum of the operand, if there is one.  The flag says whether
there was. -/
def fold (b : LineBuffer) : Except Failure (LineBuffer × Bool) :=
  match find? b.text with
  | none => .ok (b, false)
  | some (i, s) => do
      let text ← s.literalText
      let b ← b.splice i s.length text
      .ok (b, true)

end Arithmetic

end Cross6502
