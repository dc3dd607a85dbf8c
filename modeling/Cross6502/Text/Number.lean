import Cross6502.Text.Basic

/-!
# Written numbers

Numbers are written in three dialects: decimal, hexadecimal with a fixed least
number of places, and hexadecimal marked by `0x`.  A negative number carries its
sign in front, and the sign and the mark count towards the width, so `-5` in four
hexadecimal places is `-005` and in six marked places `-0x005`.

Conversion between decimal digits and numbers is bounded in both directions: a number
with more digits than `digitLimit` is neither read nor written.  Hexadecimal has no such
bound.
-/

namespace Cross6502

/-- The largest number of decimal digits that are converted to a number, or from one. -/
def digitLimit : Nat := 4300

namespace Text

/-- Decimal digits, after `-` for a negative number. -/
def decimal (n : Int) : Text :=
  if n < 0 then '-' :: Nat.toDigits 10 n.natAbs else Nat.toDigits 10 n.natAbs

/-- Decimal, aligned to the right in a column. -/
def decimalColumn (width : Nat) (n : Int) : Text := padLeft width ' ' (decimal n)

/-- Hexadecimal digits in lower case with at least `width` places. -/
def lowerHex (width : Nat) (n : Int) : Text :=
  if n < 0 then '-' :: padLeft (width - 1) '0' (Nat.toDigits 16 n.natAbs)
  else padLeft width '0' (Nat.toDigits 16 n.natAbs)

/-- Hexadecimal digits in upper case with at least `width` places. -/
def upperHex (width : Nat) (n : Int) : Text := (lowerHex width n).map Char.toUpper

/-- Hexadecimal after `0x`; sign and mark belong to the `width` places. -/
def markedHex (width : Nat) (n : Int) : Text :=
  if n < 0 then '-' :: '0' :: 'x' :: padLeft (width - 3) '0' (Nat.toDigits 16 n.natAbs)
  else '0' :: 'x' :: padLeft (width - 2) '0' (Nat.toDigits 16 n.natAbs)

/-- A decimal number as a string, for messages. -/
def decimalString (n : Int) : String := String.ofList (decimal n)

/-- A number that is written in decimal: it does not have more digits than that. -/
def isWritable (n : Int) : Bool := (Nat.toDigits 10 n.natAbs).length ≤ digitLimit

/-- An address as a string, for messages: `$` and four upper-case places. -/
def addressString (n : Int) : String := String.ofList ('$' :: upperHex 4 n)

end Text

end Cross6502
