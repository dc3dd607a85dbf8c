import Cross6502.Instruction.Opcode
import Cross6502.Line.Mode

/-!
# Encoded instructions

An instruction line in which every name has become a number is turned into an
opcode and operand bytes.  The mode decides how many of the literal's bytes are
kept: the low byte, or the low byte and then the high byte.
-/

namespace Cross6502

/-- One encoded instruction. -/
structure Encoded where
  /-- The mnemonic as it was written. -/
  mnemonic : Text
  mode : Mode
  opcode : UInt8
  /-- No, one or two bytes, the low byte first. -/
  operand : List UInt8
  deriving DecidableEq, Inhabited

namespace Encoded

/-- The bytes of an instruction in memory. -/
def bytes (e : Encoded) : List UInt8 := e.opcode :: e.operand

def size (e : Encoded) : Nat := e.operand.length + 1

@[simp] theorem length_bytes (e : Encoded) : e.bytes.length = e.size := rfl

/-- The operand bytes of a literal in an instruction of the given length. -/
def operandBytes (length : Nat) (literal : Literal) : List UInt8 :=
  if length = 3 then [literal.low, literal.high]
  else if length = 2 then [literal.low]
  else []

/-- Whether a trimmed line begins with a word of exactly three characters. -/
def hasMnemonicShape (line : Text) : Bool :=
  match line with
  | _ :: _ :: _ :: [] => true
  | _ :: _ :: _ :: c :: _ => Text.isBlank c
  | _ => false

/-- Encode an instruction line without names. -/
def ofLine (line : Text) : Except Failure Encoded := do
  let line := Text.trim line
  if !hasMnemonicShape line then
    .error (.ofCause (.unknownMnemonic (Text.firstWord line)))
  else
    let mnemonic := Line.mnemonic line
    let mode ← Line.mode line
    if mode = .unknown then .error (.reading (.noMode line))
    else
      let opcode ← Opcode.encode mnemonic mode
      let literal ← Literal.read (Line.operand line)
      .ok ⟨mnemonic, mode, opcode, operandBytes mode.length literal⟩

end Encoded

end Cross6502
