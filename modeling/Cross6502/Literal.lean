import Cross6502.Byte
import Cross6502.Diagnostic.Failure
import Cross6502.Text.Blank
import Cross6502.Text.Digit

/-!
# Numeric literals

The first significant character of a literal selects its base: `$` sixteen, `%`
two, a leading `0` eight, anything else ten.  The value is that of the longest run
of digits of the base, after an optional sign, and is kept modulo `2 ^ 16`;
whatever follows the run is ignored, and no digit at all is zero.

A literal is *wide* when it needs two bytes.  That is so when its value exceeds
255, but also when it was written with more digits than a byte of its base has:
`$0010` is wide although its value is sixteen.  The digits counted for this are the
decimal digits and the lower-case letters `a` to `f`, in every base.

Reading fails only for a decimal literal with more digits than are converted.
-/

namespace Cross6502

/-- A number read from an operand. -/
structure Literal where
  /-- The value modulo `2 ^ 16`. -/
  value : Nat
  /-- Whether the literal needs two bytes. -/
  wide : Bool
  deriving DecidableEq, Inhabited

namespace Literal

def low (l : Literal) : UInt8 := lowByte l.value

def high (l : Literal) : UInt8 := highByte l.value

/-! ## Cleaning -/

/-- The characters that decorate an operand and carry no digit. -/
def isDecoration (c : Char) : Bool :=
  c = ' ' || c = '\t' || c = '#' || c = '*' || c = '(' || c = ')' || c = ';'
    || 0x7F ≤ c.toNat

/-- The undecorated text of an operand up to its first comma, which is kept. -/
def clean : Text → Text
  | [] => []
  | c :: cs =>
      if c = ',' then [c]
      else if isDecoration c then clean cs
      else c :: clean cs

@[simp] theorem clean_nil : clean [] = [] := rfl

/-! ## Digits -/

/-- A hexadecimal digit in either case. -/
def isHexDigit (c : Char) : Bool :=
  c.isDigit || ('a' ≤ c && c ≤ 'f') || ('A' ≤ c && c ≤ 'F')

/-- The value of a hexadecimal digit, zero for any other character. -/
def hexDigitValue (c : Char) : Nat :=
  if c.isDigit then c.toNat - 48
  else if 'a' ≤ c && c ≤ 'f' then c.toNat - 87
  else if 'A' ≤ c && c ≤ 'F' then c.toNat - 55
  else 0

/-- A digit of a base up to sixteen. -/
def isDigitOf (base : Nat) (c : Char) : Bool :=
  isHexDigit c && hexDigitValue c < base

/-- The number a run of digits stands for. -/
def digitsValue (base : Nat) (digits : Text) : Nat :=
  digits.foldl (fun n c => n * base + hexDigitValue c) 0

/-- The length of the run at the front that decides the width. -/
def widthRun (t : Text) : Nat :=
  (t.takeWhile fun c => c.isDigit || ('a' ≤ c && c ≤ 'f')).length

/-- The sign in front of a text, and the text behind it. -/
def splitSign : Text → Int × Text
  | '-' :: t => (-1, t)
  | '+' :: t => (1, t)
  | t => (1, t)

/-- The run of digits that the value is read from. -/
def digitsOf (base : Nat) (t : Text) : Text :=
  (splitSign t).2.takeWhile (isDigitOf base)

/-- The value of the longest run of digits behind an optional sign. -/
def leadingValue (base : Nat) (t : Text) : Except Failure Int :=
  let digits := digitsOf base t
  if base = 10 && digitLimit < digits.length then
    .error (.value (.tooManyDigits digits.length))
  else .ok ((splitSign t).1 * digitsValue base digits)

/-! ## Reading -/

/-- How a cleaned literal is read. -/
structure Form where
  base : Nat
  /-- The most digits after the first character that a byte is written with. -/
  byteDigits : Nat
  /-- The text that the digits are taken from. -/
  body : Text

/-- The base, the width of a byte and the digits' text of a cleaned literal. -/
def form : Text → Form
  | '$' :: t => ⟨16, 2, t⟩
  | '%' :: t => ⟨2, 8, t⟩
  | '0' :: t => ⟨8, 3, '0' :: t⟩
  | t => ⟨10, 3, t⟩

/-- The literal of an operand, decoration and all.  No significant character is
the narrow zero. -/
def read (t : Text) : Except Failure Literal :=
  match clean t with
  | [] => .ok ⟨0, false⟩
  | c :: cs =>
      let n := form (c :: cs)
      match leadingValue n.base n.body with
      | .error e => .error e
      | .ok v =>
          let value := (v % 65536).toNat
          .ok ⟨value, n.byteDigits < widthRun cs || 255 < value⟩

/-! ## Shapes of operands -/

/-- An operand that starts like a number. -/
def startsNumber : Text → Bool
  | [] => false
  | '$' :: t => match t with
      | c :: _ => isHexDigit c
      | [] => false
  | '%' :: t => match t with
      | c :: _ => c = '0' || c = '1'
      | [] => false
  | c :: _ => Text.isDigit c

/-- Drop the mark of a base. -/
def dropBaseMark : Text → Text
  | '$' :: t => t
  | '%' :: t => t
  | t => t

/-- An operand that holds nothing but a number: behind the characters that select
a mode and the mark of a base, only hexadecimal digits up to a comma or a closing
parenthesis. -/
def isPlain (operand : Text) : Bool :=
  let t := (Text.trim operand).dropWhile fun c => c = '(' || c = '#' || c = '*'
  ((dropBaseMark t).takeWhile fun c => c ≠ ',' && c ≠ ')').all isHexDigit

theorem value_lt {t : Text} {l : Literal} (h : read t = .ok l) : l.value < 65536 := by
  simp only [read] at h
  split at h
  · cases h; decide
  · split at h
    · cases h
    · cases h
      simp only
      omega

end Literal

end Cross6502
