import Cross6502.Byte
import Cross6502.Diagnostic.Failure
import Cross6502.Instruction.Mnemonic

/-!
# What a name is replaced by

The literal that stands in for a name depends on where the name stands.  In a
branch it is the displacement from the instruction that follows, one byte, and a
target out of reach is an error.  After `*` or `#`, and after `(` in anything but a
`jmp`, it is the low byte of the address.  Everywhere else it is the whole address.

A name left to the linker is replaced by a zero of the same width.
-/

namespace Cross6502

namespace Replacement

/-- A place that takes one byte of an address, given the character before it. -/
def isZeroPage (mnemonic : Text) : Option Char → Bool
  | some '*' => true
  | some '#' => true
  | some '(' => mnemonic != "jmp".toList
  | _ => false

/-- A byte as a literal. -/
def byteText (n : Int) : Text := '$' :: Text.lowerHex 2 (n % 256)

/-- An address as a literal. -/
def wordText (n : Int) : Text := '$' :: Text.lowerHex 4 (n % 65536)

/-- The distance from the instruction behind a branch at `address`. -/
def displacement (target address : Int) : Int := target - (address + 2)

/-- The distances a branch can reach. -/
def reaches (d : Int) : Bool := -128 ≤ d && d ≤ 127

theorem reaches_iff {d : Int} : reaches d = true ↔ -128 ≤ d ∧ d ≤ 127 := by
  rw [reaches, Bool.and_eq_true, decide_eq_true_iff, decide_eq_true_iff]

/-- The literal for a name of the given address, in an instruction at `address`. -/
def text (mnemonic : Text) (before : Option Char) (value address : Int) (name : Text) :
    Except Failure Text :=
  if Mnemonic.isBranchText mnemonic then
    let d := displacement value address
    if reaches d then .ok (byteText d)
    else .error (Failure.ofCause (.branchRange name d)).worded
  else if isZeroPage mnemonic before then .ok (byteText value)
  else .ok (wordText value)

/-- The zero that holds the place of a name until it is linked. -/
def placeholder (mnemonic : Text) (before : Option Char) : Text :=
  if Mnemonic.isBranchText mnemonic || isZeroPage mnemonic before then "$00".toList
  else "$0000".toList

end Replacement

end Cross6502
