import Cross6502.Byte
import Cross6502.Diagnostic.Failure
import Cross6502.Instruction.Mnemonic
import Cross6502.Instruction.Mode

/-!
# Opcodes

One table holds all that is known of the processor: for every mnemonic, the modes
it supports and the opcode of each.  Encoding looks an opcode up by mnemonic and
mode, decoding searches the same table for the opcode, so the two cannot disagree.
The order of the modes is the order in which they are shown when an instruction is
used with a mode it lacks.

A byte that is not in the table is undocumented.  It decodes to nothing and counts
as an instruction of one byte, so that a walk over any bytes makes progress.
-/

namespace Cross6502

/-- The modes of a mnemonic and their opcodes, in the order they are listed. -/
def Mnemonic.opcodes : Mnemonic → List (Mode × UInt8)
  | .lda =>
      [(.immediate, 0xA9), (.zeroPage, 0xA5), (.zeroPageX, 0xB5), (.absolute, 0xAD),
       (.absoluteX, 0xBD), (.absoluteY, 0xB9), (.indirectX, 0xA1), (.indirectY, 0xB1)]
  | .ldx =>
      [(.immediate, 0xA2), (.zeroPage, 0xA6), (.zeroPageY, 0xB6), (.absolute, 0xAE),
       (.absoluteY, 0xBE)]
  | .ldy =>
      [(.immediate, 0xA0), (.zeroPage, 0xA4), (.zeroPageX, 0xB4), (.absolute, 0xAC),
       (.absoluteX, 0xBC)]
  | .sta =>
      [(.zeroPage, 0x85), (.zeroPageX, 0x95), (.absolute, 0x8D), (.absoluteX, 0x9D),
       (.absoluteY, 0x99), (.indirectX, 0x81), (.indirectY, 0x91)]
  | .stx => [(.zeroPage, 0x86), (.zeroPageY, 0x96), (.absolute, 0x8E)]
  | .sty => [(.zeroPage, 0x84), (.zeroPageX, 0x94), (.absolute, 0x8C)]
  | .adc =>
      [(.immediate, 0x69), (.zeroPage, 0x65), (.zeroPageX, 0x75), (.absolute, 0x6D),
       (.absoluteX, 0x7D), (.absoluteY, 0x79), (.indirectX, 0x61), (.indirectY, 0x71)]
  | .sbc =>
      [(.immediate, 0xE9), (.zeroPage, 0xE5), (.zeroPageX, 0xF5), (.absolute, 0xED),
       (.absoluteX, 0xFD), (.absoluteY, 0xF9), (.indirectX, 0xE1), (.indirectY, 0xF1)]
  | .and =>
      [(.immediate, 0x29), (.zeroPage, 0x25), (.zeroPageX, 0x35), (.absolute, 0x2D),
       (.absoluteX, 0x3D), (.absoluteY, 0x39), (.indirectX, 0x21), (.indirectY, 0x31)]
  | .ora =>
      [(.immediate, 0x09), (.zeroPage, 0x05), (.zeroPageX, 0x15), (.absolute, 0x0D),
       (.absoluteX, 0x1D), (.absoluteY, 0x19), (.indirectX, 0x01), (.indirectY, 0x11)]
  | .eor =>
      [(.immediate, 0x49), (.zeroPage, 0x45), (.zeroPageX, 0x55), (.absolute, 0x4D),
       (.absoluteX, 0x5D), (.absoluteY, 0x59), (.indirectX, 0x41), (.indirectY, 0x51)]
  | .cmp =>
      [(.immediate, 0xC9), (.zeroPage, 0xC5), (.zeroPageX, 0xD5), (.absolute, 0xCD),
       (.absoluteX, 0xDD), (.absoluteY, 0xD9), (.indirectX, 0xC1), (.indirectY, 0xD1)]
  | .cpx => [(.immediate, 0xE0), (.zeroPage, 0xE4), (.absolute, 0xEC)]
  | .cpy => [(.immediate, 0xC0), (.zeroPage, 0xC4), (.absolute, 0xCC)]
  | .bit => [(.zeroPage, 0x24), (.absolute, 0x2C)]
  | .asl =>
      [(.accumulator, 0x0A), (.zeroPage, 0x06), (.zeroPageX, 0x16), (.absolute, 0x0E),
       (.absoluteX, 0x1E)]
  | .lsr =>
      [(.accumulator, 0x4A), (.zeroPage, 0x46), (.zeroPageX, 0x56), (.absolute, 0x4E),
       (.absoluteX, 0x5E)]
  | .rol =>
      [(.accumulator, 0x2A), (.zeroPage, 0x26), (.zeroPageX, 0x36), (.absolute, 0x2E),
       (.absoluteX, 0x3E)]
  | .ror =>
      [(.accumulator, 0x6A), (.zeroPage, 0x66), (.zeroPageX, 0x76), (.absolute, 0x6E),
       (.absoluteX, 0x7E)]
  | .inc => [(.zeroPage, 0xE6), (.zeroPageX, 0xF6), (.absolute, 0xEE), (.absoluteX, 0xFE)]
  | .dec => [(.zeroPage, 0xC6), (.zeroPageX, 0xD6), (.absolute, 0xCE), (.absoluteX, 0xDE)]
  | .inx => [(.implied, 0xE8)]
  | .iny => [(.implied, 0xC8)]
  | .dex => [(.implied, 0xCA)]
  | .dey => [(.implied, 0x88)]
  | .tax => [(.implied, 0xAA)]
  | .tay => [(.implied, 0xA8)]
  | .txa => [(.implied, 0x8A)]
  | .tya => [(.implied, 0x98)]
  | .tsx => [(.implied, 0xBA)]
  | .txs => [(.implied, 0x9A)]
  | .clc => [(.implied, 0x18)]
  | .cld => [(.implied, 0xD8)]
  | .cli => [(.implied, 0x58)]
  | .clv => [(.implied, 0xB8)]
  | .sec => [(.implied, 0x38)]
  | .sed => [(.implied, 0xF8)]
  | .sei => [(.implied, 0x78)]
  | .nop => [(.implied, 0xEA)]
  | .brk => [(.implied, 0x00)]
  | .pha => [(.implied, 0x48)]
  | .php => [(.implied, 0x08)]
  | .pla => [(.implied, 0x68)]
  | .plp => [(.implied, 0x28)]
  | .rti => [(.implied, 0x40)]
  | .rts => [(.implied, 0x60)]
  | .jsr => [(.absolute, 0x20)]
  | .jmp => [(.absolute, 0x4C), (.indirect, 0x6C)]
  | .bcc => [(.relative, 0x90)]
  | .bcs => [(.relative, 0xB0)]
  | .beq => [(.relative, 0xF0)]
  | .bne => [(.relative, 0xD0)]
  | .bmi => [(.relative, 0x30)]
  | .bpl => [(.relative, 0x10)]
  | .bvc => [(.relative, 0x50)]
  | .bvs => [(.relative, 0x70)]

namespace Opcode

/-! ## Looking up -/

/-- The opcode of a mnemonic in a mode. -/
def find? (m : Mnemonic) (mode : Mode) : Option UInt8 :=
  (m.opcodes.find? fun e => e.1 == mode).map Prod.snd

/-- The opcode of a written mnemonic in a mode.  An operand that is still a name
cannot be encoded, and a mode the mnemonic lacks is reported beside those it
has. -/
def encode (mnemonic : Text) (mode : Mode) : Except Failure UInt8 :=
  match Mnemonic.ofText? mnemonic with
  | none => .error (.ofCause (.unknownMnemonic mnemonic))
  | some m =>
      if mode = .symbol then .error (.reading (.unresolvedOperand m.name))
      else
        match find? m mode with
        | some opcode => .ok opcode
        | none =>
            .error (.ofCause (.unsupportedMode m.name (String.ofList mode.name)
              (m.opcodes.map fun e => String.ofList e.1.name)))

/-- The mnemonic and mode an opcode stands for, if it is documented. -/
def decode (b : UInt8) : Option (Mnemonic × Mode) :=
  Mnemonic.all.findSome? fun m =>
    (m.opcodes.find? fun e => e.2 == b).map fun e => (m, e.1)

/-- The name shown for a byte that is no documented opcode. -/
def undocumented : Text := "???".toList

/-- The name of the instruction an opcode starts. -/
def mnemonicText (b : UInt8) : Text :=
  match decode b with
  | some (m, _) => m.name
  | none => undocumented

/-- The mode of the instruction an opcode starts. -/
def mode (b : UInt8) : Mode :=
  match decode b with
  | some (_, mode) => mode
  | none => .unknown

/-- The number of bytes of the instruction an opcode starts, at least one. -/
def length (b : UInt8) : Nat := max 1 (mode b).length

/-- A one-line account of an opcode. -/
def summary (b : UInt8) : String :=
  "InstructionInfo(opcode=$" ++ String.ofList (Text.upperHex 2 b.toNat) ++ ", size="
    ++ Text.decimalString (mode b).length ++ ")"

/-! ## Control flow -/

/-- The opcodes of the jumps and of the subroutine call. -/
def jumps : List UInt8 := [0x4C, 0x6C, 0x20]

/-- The opcodes of the conditional branches. -/
def branches : List UInt8 :=
  (Mnemonic.all.filter Mnemonic.isBranch).flatMap fun m => m.opcodes.map Prod.snd

/-- The opcodes that pass control to another address. -/
def transfers : List UInt8 := jumps ++ branches

/-- A number that is one of the opcodes in a list, without being cut to a byte. -/
def isNumberOf (opcodes : List UInt8) (n : Int) : Bool :=
  opcodes.any fun b => (b.toNat : Int) == n

theorem length_pos (b : UInt8) : 0 < length b := by
  simp only [length]
  omega

end Opcode

end Cross6502
