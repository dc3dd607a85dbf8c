import Cross6502.Diagnostic.Failure
import Cross6502.Text.Blank
import Cross6502.Text.Digit
import Cross6502.Text.Number

/-!
# Reading numerals

Sidecar entries, addresses on the command line and settings in the environment are
integers written out in full.  A numeral is

    blanks  [+ or -]  [0x]  digits  blanks

where single underscores may stand between digits, the digits may come from any
script, and the mark `0x` is for base sixteen only.  Anything else is refused as a
whole; no prefix is taken.

A decimal numeral of more than `digitLimit` digits is refused for its length.  That
is noticed when the digits end, before anything that follows them is looked at.
-/

namespace Cross6502

namespace Numeral

/-- The value of a digit in any base up to sixteen. -/
def digitValue? (c : Char) : Option Nat :=
  match Text.decimalValue? c with
  | some n => some n
  | none =>
      if 'a' ≤ c && c ≤ 'f' then some (c.toNat - 87)
      else if 'A' ≤ c && c ≤ 'F' then some (c.toNat - 55)
      else none

/-- A digit of the base. -/
def isDigitOf (base : Nat) (c : Char) : Bool :=
  match digitValue? c with
  | some n => n < base
  | none => false

/-- A blank that may stand around a numeral: the four separators `U+001C` to
`U+001F` may not. -/
def isPadding (c : Char) : Bool :=
  Text.isBlank c && !(28 ≤ c.toNat && c.toNat ≤ 31)

/-- The number that a run of digits and underscores stands for. -/
def value (base : Nat) (digits : Text) : Nat :=
  digits.foldl
    (fun n c => match digitValue? c with
      | some d => n * base + d
      | none => n) 0

/-- Split off the sign: `true` for a minus. -/
def splitSign : Text → Bool × Text
  | '-' :: t => (true, t)
  | '+' :: t => (false, t)
  | t => (false, t)

/-- Drop one underscore. -/
def dropUnderscore : Text → Text
  | '_' :: t => t
  | t => t

/-- Drop the mark of base sixteen and one underscore after it. -/
def dropMark (base : Nat) (t : Text) : Text :=
  match t with
  | z :: x :: rest =>
      if base = 16 && Text.decimalValue? z = some 0 && (x = 'x' || x = 'X') then
        dropUnderscore rest
      else t
  | _ => t

/-- Underscores stand singly between digits: none comes first, last or after
another. -/
def underscoresFit : Text → Bool
  | [] => true
  | ['_'] => false
  | '_' :: _ => false
  | [_] => true
  | _ :: '_' :: [] => false
  | _ :: '_' :: '_' :: _ => false
  | _ :: '_' :: c :: rest => underscoresFit (c :: rest)
  | _ :: c :: rest => underscoresFit (c :: rest)

/-- Read a whole text as an integer in base ten or sixteen. -/
def read (base : Nat) (t : Text) : Except Failure Int :=
  let (negative, unsigned) := splitSign (t.dropWhile isPadding)
  let body := dropMark base unsigned
  let run := body.takeWhile fun c => isDigitOf base c || c = '_'
  let rest := body.dropWhile fun c => isDigitOf base c || c = '_'
  let count := (run.filter (· ≠ '_')).length
  if !underscoresFit run then .error (.value (.notANumeral base t))
  else if base = 10 && digitLimit < count then .error (.value (.tooManyDigits count))
  else if run.isEmpty || !rest.all isPadding then .error (.value (.notANumeral base t))
  else
    let n : Int := value base run
    .ok (if negative then -n else n)

end Numeral

end Cross6502
