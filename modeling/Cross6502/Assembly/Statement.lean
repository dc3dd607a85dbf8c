import Cross6502.Instruction.Encoded
import Cross6502.Log
import Cross6502.Substitution.Arithmetic
import Cross6502.Substitution.Names

/-!
# Assembling one instruction

An instruction line is turned into bytes in four steps inside a line buffer: names
become literals, the first sum is folded, names that are left are replaced by zeros
if the linker may fill them in, and the line is encoded.  The names left to the
linker are given back with the instruction.
-/

namespace Cross6502

namespace Statement

/-- What an instruction is assembled against. -/
structure Context where
  symbols : SymbolTable
  /-- The capacity of the line buffer. -/
  capacity : Int
  /-- Whether unknown names are left to the linker. -/
  allowUnresolved : Bool
  file : String
  deriving DecidableEq, Inhabited

/-- The buffer that an instruction is worked on in. -/
def bufferFor (c : Context) (text : Text) (number : Nat) : LineBuffer :=
  { text := text, capacity := c.capacity
    location := some { file := c.file, line := number } }

/-- Replace the names a table defines. -/
def resolve (c : Context) (b : LineBuffer) (address : Int) : Except Failure LineBuffer :=
  let p := Names.resolve b c.symbols address
  match p.failure with
  | some e => .error e
  | none => .ok p.buffer

/-- Put zeros in place of names, one after another.  A name that is not found is
passed over. -/
def holdPlaces (number : Nat) : List Text → LineBuffer → Logged (LineBuffer × List Text)
  | [], b => Logged.ok (b, [])
  | name :: rest, b =>
      match Names.holdPlace b name with
      | .error e => Logged.fail e
      | .ok (b, none) => holdPlaces number rest b
      | .ok (b, some _) => do
          Logged.say (.deferred number name)
          let (b, pending) ← holdPlaces number rest b
          return (b, name :: pending)

/-- The names in a line that no table defines. -/
def unknownNames (c : Context) (line : Text) : List Text :=
  (Names.unresolved line).filter fun n => !c.symbols.contains n

/-- Leave the unknown names of a line to the linker, or refuse the line. -/
def deferNames (c : Context) (number : Nat) (b : LineBuffer) :
    Logged (LineBuffer × List Text) :=
  if Literal.isPlain (Line.operand b.text) then Logged.ok (b, [])
  else
    let names := unknownNames c b.text
    if !(c.allowUnresolved && !names.isEmpty) then
      Logged.fail (.reading (.badOperand (Line.operand b.text)))
    else do
      let (b, pending) ← holdPlaces number names b
      let (b, _) ← Logged.ofExcept (Arithmetic.fold b)
      return (b, pending)

/-- The instruction of a line at an address, and the names left to the linker. -/
def assemble (c : Context) (text : Text) (address : Int) (number : Nat) :
    Logged (Encoded × List Text) := do
  let b ← Logged.ofExcept (resolve c (bufferFor c text number) address)
  let (b, _) ← Logged.ofExcept (Arithmetic.fold b)
  let (b, pending) ← deferNames c number b
  Logged.say (.resolved number text b.text)
  let e ← Logged.ofExcept (Encoded.ofLine b.text)
  return (e, pending)

end Statement

end Cross6502
