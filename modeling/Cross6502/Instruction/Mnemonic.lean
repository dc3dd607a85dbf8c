import Cross6502.Text.Lowercase

/-!
# Mnemonics

The documented instruction set has fifty-six mnemonics.  A mnemonic is written in
either case and is looked up by its lower-case name.
-/

namespace Cross6502

/-- The name of an operation of the processor. -/
inductive Mnemonic where
  | lda | ldx | ldy | sta | stx | sty | adc | sbc | and | ora | eor | cmp | cpx | cpy | bit
  | asl | lsr | rol | ror | inc | dec | inx | iny | dex | dey | tax | tay | txa | tya | tsx
  | txs | clc | cld | cli | clv | sec | sed | sei | nop | brk | pha | php | pla | plp | rti
  | rts | jsr | jmp | bcc | bcs | beq | bne | bmi | bpl | bvc | bvs
  deriving DecidableEq, Inhabited

namespace Mnemonic

/-- Every mnemonic, in the order of the instruction table. -/
def all : List Mnemonic :=
  [lda, ldx, ldy, sta, stx, sty, adc, sbc, and, ora, eor, cmp, cpx, cpy, bit, asl, lsr, rol,
   ror, inc, dec, inx, iny, dex, dey, tax, tay, txa, tya, tsx, txs, clc, cld, cli, clv, sec,
   sed, sei, nop, brk, pha, php, pla, plp, rti, rts, jsr, jmp, bcc, bcs, beq, bne, bmi, bpl,
   bvc, bvs]

/-- The three letters of a mnemonic. -/
def name : Mnemonic → Text
  | lda => "lda".toList
  | ldx => "ldx".toList
  | ldy => "ldy".toList
  | sta => "sta".toList
  | stx => "stx".toList
  | sty => "sty".toList
  | adc => "adc".toList
  | sbc => "sbc".toList
  | and => "and".toList
  | ora => "ora".toList
  | eor => "eor".toList
  | cmp => "cmp".toList
  | cpx => "cpx".toList
  | cpy => "cpy".toList
  | bit => "bit".toList
  | asl => "asl".toList
  | lsr => "lsr".toList
  | rol => "rol".toList
  | ror => "ror".toList
  | inc => "inc".toList
  | dec => "dec".toList
  | inx => "inx".toList
  | iny => "iny".toList
  | dex => "dex".toList
  | dey => "dey".toList
  | tax => "tax".toList
  | tay => "tay".toList
  | txa => "txa".toList
  | tya => "tya".toList
  | tsx => "tsx".toList
  | txs => "txs".toList
  | clc => "clc".toList
  | cld => "cld".toList
  | cli => "cli".toList
  | clv => "clv".toList
  | sec => "sec".toList
  | sed => "sed".toList
  | sei => "sei".toList
  | nop => "nop".toList
  | brk => "brk".toList
  | pha => "pha".toList
  | php => "php".toList
  | pla => "pla".toList
  | plp => "plp".toList
  | rti => "rti".toList
  | rts => "rts".toList
  | jsr => "jsr".toList
  | jmp => "jmp".toList
  | bcc => "bcc".toList
  | bcs => "bcs".toList
  | beq => "beq".toList
  | bne => "bne".toList
  | bmi => "bmi".toList
  | bpl => "bpl".toList
  | bvc => "bvc".toList
  | bvs => "bvs".toList

/-- The mnemonic a text spells, in either case. -/
def ofText? (t : Text) : Option Mnemonic := all.find? fun m => m.name == Text.lower t

/-- The conditional branches. -/
def isBranch : Mnemonic → Bool
  | bcc | bcs | beq | bne | bmi | bpl | bvc | bvs => true
  | _ => false

/-- A text that spells a mnemonic. -/
def isMnemonic (t : Text) : Bool := (ofText? t).isSome

/-- A text that spells a conditional branch. -/
def isBranchText (t : Text) : Bool :=
  match ofText? t with
  | some m => m.isBranch
  | none => false

theorem mem_all (m : Mnemonic) : m ∈ all := by
  cases m <;> decide

theorem length_name (m : Mnemonic) : m.name.length = 3 := by
  cases m <;> decide

end Mnemonic

end Cross6502
