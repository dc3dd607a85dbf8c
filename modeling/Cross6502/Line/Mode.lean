import Cross6502.Instruction.Mode
import Cross6502.Line.Basic
import Cross6502.Literal
import Cross6502.Text.Lowercase

/-!
# The addressing mode of a line

The first character of the operand selects the mode before any name is resolved:
nothing is implied, `a` standing alone is the accumulator, `#` immediate, `*` zero
page, `(` indirect; a wide literal is an absolute address, a narrow one a branch
displacement, and any other text a name.  The letter after the first comma turns a
zero page, absolute or indirect operand into its indexed form.

A name has no width of its own.  `effectiveMode` gives it the width that its
replacement will have: a displacement for a branch, an absolute address for
everything else.  Both passes size lines by it.
-/

namespace Cross6502

namespace Line

/-- The indexed form of a mode, selected by the letter after the first comma. -/
def indexedBy (mode : Mode) (operand : Text) : Mode :=
  match mode.indexed?, operand.dropWhile (· ≠ ',') with
  | some (x, y), _ :: c :: _ =>
      if Text.lowerChar c = 'x' then x
      else if Text.lowerChar c = 'y' then y
      else mode
  | _, _ => mode

/-- Whether the operand goes on as a name after a first `a`. -/
def continuesName : Text → Bool
  | c :: _ => Text.isAlphanumeric c || c = '_'
  | [] => false

/-- The mode that an operand without leading blanks asks for. -/
def operandMode (operand : Text) : Except Failure Mode :=
  match operand with
  | [] => .ok .implied
  | ';' :: _ => .ok .implied
  | 'a' :: rest => .ok (if continuesName rest then .symbol else .accumulator)
  | '#' :: _ => .ok .immediate
  | '*' :: _ => .ok (indexedBy .zeroPage operand)
  | '(' :: _ => .ok (indexedBy .indirect operand)
  | _ => do
      let literal ← Literal.read operand
      if literal.wide then .ok (indexedBy .absolute operand)
      else if Literal.startsNumber operand then .ok .relative
      else .ok .symbol

/-- The mode of an instruction, `unknown` for an empty line. -/
def mode (line : Text) : Except Failure Mode :=
  let line := Text.trim line
  if line.isEmpty then .ok .unknown
  else operandMode (Text.trimLeft (line.drop 3))

/-- The mode a line is encoded with once its name is resolved. -/
def effectiveMode (line : Text) : Except Failure Mode := do
  let m ← mode line
  if m ≠ .symbol then .ok m
  else
    let line := Text.trim line
    if Mnemonic.isBranchText (mnemonic line) then .ok .relative
    else .ok (indexedBy .absolute (operand line))

end Line

end Cross6502
