import Cross6502.Disassembly.Walk
import Cross6502.Index
import Cross6502.Symbol.Table

/-!
# Disassembled instructions

An instruction is shown in the syntax that the assembler reads.  The operand of a
branch, jump or call is shown by the name of a label at its target when there is
one; a branch without a name shows its displacement.  A byte that is no documented
opcode, and an operand cut short by the end of the data, are shown as `???`.

The target of a branch is counted from the instruction behind it and taken modulo
`2 ^ 16`; jumps and calls carry it in their operand.
-/

namespace Cross6502

/-! ## Targets -/

/-- Where a branch, jump or call goes.  It fails when an operand byte is missing. -/
def transferTarget (opcode : Int) (operand : List UInt8) (address : Int) : Except Failure Int :=
  if Opcode.isNumberOf Opcode.branches opcode then
    match operand with
    | d :: _ => .ok ((address + 2 + signed d) % 65536)
    | [] => .error (.index .bytes)
  else
    match operand with
    | low :: high :: _ => .ok (word low high)
    | _ => .error (.index .bytes)

/-! ## Operands -/

/-- The name of a label at an address, if it has one that can be shown. -/
def shownLabel? (t : SymbolTable) (address : Int) : Option Text :=
  (t.labelAt? address).filter fun name => !name.isEmpty

/-- The target of a branch, jump or call as it is shown. -/
def targetText (t : SymbolTable) (mode : Mode) (operand : List UInt8) (target : Int) : Text :=
  match shownLabel? t target, mode with
  | some name, .indirect => '(' :: name ++ [')']
  | none, .indirect => '(' :: '$' :: Text.lowerHex 4 target ++ [')']
  | some name, _ => name
  | none, .relative => '$' :: Text.lowerHex 2 (operand.headD 0).toNat
  | none, _ => '$' :: Text.lowerHex 4 target

/-- The number in the operand bytes, if there is one. -/
def operandValue : List UInt8 → Except Failure Nat
  | [low, high] => .ok (word low high)
  | low :: _ => .ok low.toNat
  | [] => .error (.index .bytes)

/-- A number as it is shown in a mode. -/
def valueText (mode : Mode) (n : Nat) : Text :=
  let byte := '$' :: Text.lowerHex 2 n
  let address := '$' :: Text.lowerHex 4 n
  match mode with
  | .immediate => '#' :: byte
  | .zeroPage => '*' :: byte
  | .zeroPageX => '*' :: byte ++ [',', 'X']
  | .zeroPageY => '*' :: byte ++ [',', 'Y']
  | .absolute => address
  | .absoluteX => address ++ [',', 'X']
  | .absoluteY => address ++ [',', 'Y']
  | .indirectX => '(' :: byte ++ [',', 'X', ')']
  | .indirectY => '(' :: byte ++ [')', ',', 'Y']
  | _ => []

/-- The operand of an instruction as it is shown. -/
def operandText (t : SymbolTable) (opcode : UInt8) (mode : Mode) (operand : List UInt8)
    (address : Int) : Except Failure Text :=
  match mode with
  | .implied => .ok []
  | .accumulator => .ok ['A']
  | _ =>
      if opcode ∈ Opcode.transfers then
        (transferTarget opcode.toNat operand address).map (targetText t mode operand)
      else (operandValue operand).map (valueText mode)

/-! ## Instructions -/

/-- A disassembled instruction. -/
structure Disassembled where
  address : Int
  opcode : UInt8
  mnemonic : Text
  mode : Mode
  operandBytes : List UInt8
  operand : Text
  /-- The number of bytes it takes. -/
  size : Nat
  bytes : List UInt8
  /-- The label at its address. -/
  label : Option Text
  deriving DecidableEq, Inhabited

namespace Disassembled

/-- Mnemonic and operand. -/
def text (d : Disassembled) : Text :=
  if d.operand.isEmpty then d.mnemonic else d.mnemonic ++ ' ' :: d.operand

/-- The bytes in hexadecimal. -/
def hexBytes (d : Disassembled) : Text :=
  Text.joinWith [' '] (d.bytes.map fun b => Text.lowerHex 2 b.toNat)

/-- Address and bytes in front of a text. -/
def annotate (address : Int) (bytes text : Text) : Text :=
  Text.markedHex 6 address ++ ": ".toList ++ Text.padRight 8 bytes ++ " -    ".toList ++ text

/-- The instruction with its address and bytes. -/
def annotated (d : Disassembled) : Text := annotate d.address d.hexBytes d.text

/-- An instruction all of whose bytes are given. -/
def complete (t : SymbolTable) (address : Int) (opcode : UInt8) (bytes : List UInt8) :
    Except Failure Disassembled :=
  (operandText t opcode (Opcode.mode opcode) (bytes.drop 1) address).map fun operand =>
    { address := address, opcode := opcode, mnemonic := Opcode.mnemonicText opcode
      mode := Opcode.mode opcode, operandBytes := bytes.drop 1, operand := operand
      size := Opcode.length opcode, bytes := bytes, label := t.labelAt? address }

/-- An instruction that is shown without reading its operand: an undocumented byte,
or one that the end of the data cuts short. -/
def unread (t : SymbolTable) (address : Int) (opcode : UInt8) (bytes : List UInt8)
    (operand : Text) : Disassembled :=
  { address := address, opcode := opcode, mnemonic := Opcode.mnemonicText opcode
    mode := Opcode.mode opcode, operandBytes := bytes.drop 1, operand := operand
    size := bytes.length, bytes := bytes, label := t.labelAt? address }

/-- The instruction at a site. -/
def ofSite (t : SymbolTable) (s : Site) : Disassembled :=
  if Opcode.decode s.opcode = none then unread t s.address s.opcode [s.opcode] []
  else if !s.isComplete then unread t s.address s.opcode s.bytes Opcode.undocumented
  else
    match complete t s.address s.opcode s.bytes with
    | .ok d => d
    | .error _ => unread t s.address s.opcode s.bytes Opcode.undocumented

/-- The instruction at an index from the end of the data.  Its bytes are cut at the
end of the data or, where the cut would pass it, at the front. -/
def fromEnd (t : SymbolTable) (data : List UInt8) (address offset : Int) :
    Except Failure Disassembled :=
  match itemAt? data offset with
  | none => .error (.index .bytes)
  | some opcode =>
      let size := Opcode.length opcode
      if Opcode.decode opcode = none then .ok (unread t address opcode [opcode] [])
      else if (data.length : Int) < offset + size then
        .ok (unread t address opcode (sliceFrom data offset) Opcode.undocumented)
      else complete t address opcode (slice data offset (offset + size))

/-- The instruction at an index of the data, as if it stood at an address. -/
def atOffset (t : SymbolTable) (data : List UInt8) (address offset : Int) :
    Except Failure Disassembled :=
  if (data.length : Int) ≤ offset then
    .error (Failure.value (.offsetBeyond offset data.length)).worded
  else if 0 ≤ offset then
    match data.drop offset.toNat with
    | opcode :: following => .ok (ofSite t ⟨address, opcode, following⟩)
    | [] => .error (.index .bytes)
  else fromEnd t data address offset

end Disassembled

/-- Show the bytes at an address, all or the first few instructions of them, after `skip`
bytes of the instruction shown before.  The next one begins behind as many bytes as the one
before it was shown to take. -/
def disassembleFrom (t : SymbolTable) : Nat → Int → List UInt8 → Option Int → List Disassembled
  | _, _, [], _ => []
  | skip + 1, address, _ :: rest, count => disassembleFrom t skip (address + 1) rest count
  | 0, address, opcode :: following, count =>
      if count.any (· ≤ 0) then []
      else
        let shown := Disassembled.ofSite t ⟨address, opcode, following⟩
        shown :: disassembleFrom t (shown.size - 1) (address + 1) following (count.map (· - 1))

/-- The instructions of bytes at an address, all or the first few. -/
def disassemble (t : SymbolTable) (address : Int) (bytes : List UInt8) (count : Option Int) :
    List Disassembled :=
  disassembleFrom t 0 address bytes count

end Cross6502
