import Cross6502.Text.Basic

/-!
# Addressing modes

The processor knows thirteen ways to find an operand.  Two more values stand for
operands that have no mode yet: `symbol`, a name whose width is open until it is
resolved, and `unknown`, a line that could not be classified.

The mode alone fixes the length of an instruction, and a mode without a length
cannot be encoded.
-/

namespace Cross6502

/-- How an instruction finds its operand. -/
inductive Mode where
  | implied
  | accumulator
  | immediate
  | zeroPage
  | zeroPageX
  | zeroPageY
  | absolute
  | absoluteX
  | absoluteY
  | indirect
  | indirectX
  | indirectY
  | relative
  | symbol
  | unknown
  deriving DecidableEq, Inhabited

namespace Mode

/-- Every mode, in the order of declaration. -/
def all : List Mode :=
  [implied, accumulator, immediate, zeroPage, zeroPageX, zeroPageY, absolute, absoluteX,
   absoluteY, indirect, indirectX, indirectY, relative, symbol, unknown]

/-- The name of a mode in messages and sidecar files. -/
def name : Mode → Text
  | implied => "implied".toList
  | accumulator => "accumulator".toList
  | immediate => "immediate".toList
  | zeroPage => "zeropage".toList
  | zeroPageX => "zeropage+x".toList
  | zeroPageY => "zeropage+y".toList
  | absolute => "absolute".toList
  | absoluteX => "absolute+x".toList
  | absoluteY => "absolute+y".toList
  | indirect => "indirect".toList
  | indirectX => "indirect+x".toList
  | indirectY => "indirect+y".toList
  | relative => "relative".toList
  | symbol => "symbol".toList
  | unknown => "unknown".toList

/-- The mode of a given name. -/
def ofName? (t : Text) : Option Mode := all.find? fun m => m.name == t

/-- The number of bytes of an instruction; zero when it cannot be encoded. -/
def length : Mode → Nat
  | implied | accumulator => 1
  | immediate | zeroPage | zeroPageX | zeroPageY | relative | indirectX | indirectY => 2
  | absolute | absoluteX | absoluteY | indirect => 3
  | symbol | unknown => 0

/-- The two register-indexed forms of a mode that has them, for `x` and for `y`. -/
def indexed? : Mode → Option (Mode × Mode)
  | zeroPage => some (zeroPageX, zeroPageY)
  | absolute => some (absoluteX, absoluteY)
  | indirect => some (indirectX, indirectY)
  | _ => none

/-- A mode whose operand is a whole address. -/
def isWide : Mode → Bool
  | absolute | absoluteX | absoluteY | indirect => true
  | _ => false

theorem mem_all (m : Mode) : m ∈ all := by
  cases m <;> decide

@[simp] theorem ofName?_name (m : Mode) : ofName? m.name = some m := by
  cases m <;> decide

theorem isWide_iff (m : Mode) : m.isWide = true ↔ m.length = 3 := by
  cases m <;> decide

end Mode

end Cross6502
