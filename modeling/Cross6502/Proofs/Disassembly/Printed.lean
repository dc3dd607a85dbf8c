import Cross6502.Disassembly.Labels
import Cross6502.Proofs.Assembly.NamedLine
import Cross6502.Proofs.Disassembly.DerivedLabels
import Cross6502.Proofs.Disassembly.Tiling
import Cross6502.Proofs.Text.Case

/-!
# Printed instructions

What the disassembler prints for an instruction is, once the capitals are gone, a line
of the assembler in the form that belongs to the mode of the instruction.  In its
operand stands either the number that the operand bytes hold, with as many digits as
the mode has room for, or the name of the label at the target (`PrintedCore`).  The
main result is `exists_printedBody`.
-/

namespace Cross6502

open OperandForm Token Replacement Disassembler

/-! ## Forms of modes -/

/-- The form in which an operand of a mode is written. -/
def formOf : Mode → OperandForm
  | .immediate => .immediate
  | .zeroPage => .zeroPage
  | .zeroPageX => .zeroPageX
  | .zeroPageY => .zeroPageY
  | .absoluteX => .plainX
  | .absoluteY => .plainY
  | .indirect => .paren
  | .indirectX => .parenX
  | .indirectY => .parenY
  | _ => .plain

/-- A mode without an operand in the line. -/
def standsAlone (mode : Mode) : Bool := mode = .implied || mode = .accumulator

/-- In the form of its mode, the operand of an instruction takes as many digits as the
mode has room for, and reads back as the mode. -/
theorem takesWord_formOf (m : Mnemonic) : ∀ p ∈ m.opcodes, standsAlone p.1 = false →
    takesWord m.name (beforeCore [' '] (formOf p.1)) = p.1.isWide
      ∧ (formOf p.1).mode p.1.isWide = p.1 := by
  cases m <;> decide

theorem isGap_blank : IsGap [' '] := ⟨by decide, by decide⟩

/-! ## Lower case -/

theorem isPrintable_of_isLowerHexDigit {c : Char} (hc : Arithmetic.isLowerHexDigit c = true) :
    Text.IsPrintable c ∧ c.isUpper = false := by
  have hrange := isLowerHexDigit_iff.mp hc
  have hne : c ≠ ';' := by
    rintro rfl
    exact absurd hc (by decide)
  refine ⟨⟨by omega, by omega, hne⟩, ?_⟩
  refine decide_eq_false fun h => ?_
  have h₁ : 65 ≤ c.toNat := UInt32.le_iff_toNat_le.mp h.1
  have h₂ : c.toNat ≤ 90 := UInt32.le_iff_toNat_le.mp h.2
  omega

/-- A printed text and what becomes of it in lower case. -/
structure Lowers (printed lowered : Text) : Prop where
  printable : ∀ c ∈ printed, Text.IsPrintable c
  lower : printed.map Char.toLower = lowered

namespace Lowers

theorem append {s s' t t' : Text} (hs : Lowers s s') (ht : Lowers t t') :
    Lowers (s ++ t) (s' ++ t') where
  printable c hc := (List.mem_append.mp hc).elim (hs.printable c) (ht.printable c)
  lower := by rw [List.map_append, hs.lower, ht.lower]

/-- Hexadecimal digits are in lower case already. -/
theorem hexRun {ds : Text} (hds : ∀ c ∈ ds, Arithmetic.isLowerHexDigit c = true) :
    Lowers ds ds where
  printable c hc := (isPrintable_of_isLowerHexDigit (hds c hc)).1
  lower := Text.map_toLower_of_forall fun c hc => (isPrintable_of_isLowerHexDigit (hds c hc)).2

theorem literal (word : Bool) (n : Int) :
    Lowers (Replacement.literal word n) (Replacement.literal word n) := by
  rw [literal_eq]
  have hdollar : Lowers ['$'] ['$'] := ⟨by decide, by decide⟩
  exact hdollar.append (hexRun (isHexRun_lowerHex word n).2)

theorem plain {t core : Text} (h : Lowers t core) : Lowers t (OperandForm.plain.operand core) := by
  rw [operand, opening, closing, List.nil_append, List.append_nil]
  exact h

end Lowers

/-- The name of a made-up label in lower case. -/
def localName (k : Nat) : Text := "label".toList ++ Text.decimal k

theorem localName_eq (k : Nat) : localName k = "label".toList ++ Text.decimal k := rfl

theorem isLowerHexDigit_of_mem_decimal {k : Nat} {c : Char} (hc : c ∈ Text.decimal (k : Int)) :
    Arithmetic.isLowerHexDigit c = true := by
  rw [Text.decimal_natCast] at hc
  obtain ⟨d, hd, rfl⟩ := Text.mem_toDigits (by decide) hc
  exact Text.isLowerHexDigit_digitChar d (by omega)

theorem lowers_labelName (k : Nat) : Lowers (labelName k) (localName k) := by
  have hword : Lowers "Label".toList "label".toList := ⟨by decide, by decide⟩
  exact hword.append (Lowers.hexRun fun c hc => isLowerHexDigit_of_mem_decimal hc)

theorem localName_inj {k l : Nat} (h : localName k = localName l) : k = l :=
  Text.decimal_natCast_inj (List.append_cancel_left h)

theorem isWord_localName (k : Nat) : IsWord (localName k) := by
  refine ⟨List.append_ne_nil_of_left_ne_nil (by decide) _, ?_⟩
  intro c hc
  have hword : ∀ d ∈ "label".toList, Names.isFurther d = true := by decide
  rcases List.mem_append.mp hc with hc | hc
  · exact hword c hc
  · exact isFurther_of_isLowerHexDigit (isLowerHexDigit_of_mem_decimal hc)

/-- A name with a number that an address can have is short. -/
theorem length_localName {k : Nat} (hk : k ≤ 65536) : (localName k).length ≤ 10 := by
  have hdigits : (Nat.toDigits 10 k).length ≤ 5 :=
    (Nat.length_toDigits_le_iff (by decide) (by decide)).mpr (by omega)
  rw [localName_eq, List.length_append, Text.decimal_natCast]
  change 5 + _ ≤ 10
  omega

/-! ## Bytes and numbers -/

theorem lowByte_word (low high : UInt8) : lowByte (word low high : Int) = low := by
  have h := low.toNat_lt
  apply UInt8.toNat_inj.mp
  have hbyte := toNat_lowByte (word low high : Int)
  rw [word] at hbyte ⊢
  omega

theorem highByte_word (low high : UInt8) : highByte (word low high : Int) = high := by
  have h := low.toNat_lt
  have h' := high.toNat_lt
  apply UInt8.toNat_inj.mp
  have hbyte := toNat_highByte (word low high : Int)
  rw [word] at hbyte ⊢
  omega

theorem lowByte_signed (b : UInt8) : lowByte (signed b) = b := by
  have h := b.toNat_lt
  apply UInt8.toNat_inj.mp
  have hbyte := toNat_lowByte (signed b)
  rw [signed] at hbyte ⊢
  split at hbyte <;> rename_i hlt <;> simp only [hlt, if_true, if_false] <;> omega

theorem reaches_signed (b : UInt8) : reaches (signed b) = true := by
  have h := b.toNat_lt
  rw [reaches_iff, signed]
  split <;> omega

/-- A number that fits is printed as its literal. -/
theorem literal_natCast (word : Bool) {n : Nat} (hn : n < 16 ^ places word) :
    Replacement.literal word (n : Int) = '$' :: Text.lowerHex (places word) (n : Int) := by
  have hkept : kept word (n : Int) = n := by
    cases word
    · have hn : n < 256 := hn
      rw [kept, if_neg (by decide)]
      omega
    · have hn : n < 65536 := hn
      rw [kept, if_pos rfl]
      omega
  rw [literal_eq, hkept]

theorem literal_byte (b : UInt8) :
    Replacement.literal false (b.toNat : Int) = '$' :: Text.lowerHex 2 (b.toNat : Int) :=
  literal_natCast false b.toNat_lt

theorem literal_word (low high : UInt8) :
    Replacement.literal true (word low high : Int) = '$' :: Text.lowerHex 4 (word low high : Int) :=
  literal_natCast true (word_lt low high)

/-! ## What stands in a printed operand -/

/-- What a printed operand holds, in lower case: the number in the operand bytes, or the
name of the label at the target of a transfer. -/
inductive PrintedCore (table : SymbolTable) (s : Site) (m : Mnemonic) (mode : Mode) : Text → Prop
  | number (n : Int) (hoperand : s.operand = operandOf mode n) :
      PrintedCore table s m mode (Replacement.literal mode.isWide n)
  | target (a : Int) (k : Nat) (hlabel : table.labelAt? a = some (labelName k))
      (hform : formOf mode = .plain ∨ formOf mode = .paren)
      (hreach : m.isBranch = true → reaches (displacement a s.address) = true)
      (hoperand : s.operand
        = operandOf mode (if m.isBranch then displacement a s.address else a)) :
      PrintedCore table s m mode (localName k)

theorem PrintedCore.ne_nil {table : SymbolTable} {s : Site} {m : Mnemonic} {mode : Mode}
    {core : Text} (h : PrintedCore table s m mode core) : core ≠ [] := by
  cases h with
  | number n _ =>
    rw [literal_eq]
    exact List.cons_ne_nil _ _
  | target a k => exact (isWord_localName k).1

/-- The operand bytes of a whole instruction that has any. -/
theorem operand_cases {s : Site} {m : Mnemonic} {mode : Mode}
    (hdecode : Opcode.decode s.opcode = some (m, mode)) (hcomplete : s.isComplete = true)
    (halone : standsAlone mode = false) :
    (mode.isWide = true ∧ ∃ low high, s.operand = [low, high])
      ∨ (mode.isWide = false ∧ ∃ b, s.operand = [b]) := by
  have hpos : 0 < mode.length :=
    Opcode.length_pos_of_mem m _ (Opcode.mem_opcodes_of_decode hdecode)
  have hlength : mode.length = if mode.isWide then 3 else 2 := by
    cases mode <;> first | rfl | exact absurd halone (by decide) | exact absurd hpos (by decide)
  rw [Site.isComplete, beq_iff_eq, Opcode.length_of_decode hdecode, hlength] at hcomplete
  cases hwide : mode.isWide with
  | true =>
    rw [hwide] at hcomplete
    exact .inl ⟨rfl, List.length_eq_two.mp hcomplete⟩
  | false =>
    rw [hwide] at hcomplete
    exact .inr ⟨rfl, List.length_eq_one_iff.mp hcomplete⟩

/-- Jumps and calls have one of two modes. -/
theorem mode_of_jump (m : Mnemonic) : ∀ p ∈ m.opcodes, m = .jmp ∨ m = .jsr →
    p.1 = .absolute ∨ p.1 = .indirect := by
  cases m <;> decide

/-- Other instructions have neither of the modes of transfers, apart from the absolute
one. -/
theorem mode_of_not_transfer (m : Mnemonic) : ∀ p ∈ m.opcodes, ¬ p.2 ∈ Opcode.transfers →
    p.1 ≠ .relative ∧ p.1 ≠ .indirect := by
  cases m <;> decide

/-- A number is printed in the form of its mode, with the register in capitals. -/
theorem valueText_eq {mode : Mode} (halone : standsAlone mode = false)
    (hmode : mode ≠ .relative ∧ mode ≠ .indirect) (hlength : 0 < mode.length) {n : Nat}
    (hn : n < 16 ^ places mode.isWide) :
    valueText mode n = (formOf mode).opening ++ Replacement.literal mode.isWide (n : Int)
      ++ (formOf mode).closing.map Char.toUpper := by
  rw [literal_natCast mode.isWide hn]
  cases mode <;> first
    | rfl
    | exact absurd halone (by decide)
    | exact absurd rfl hmode.1
    | exact absurd rfl hmode.2
    | exact absurd hlength (by decide)
    | simp [valueText, formOf, opening, closing, places, Mode.isWide]

theorem lowers_opening (f : OperandForm) : Lowers f.opening f.opening := by
  cases f <;> exact ⟨by decide, by decide⟩

theorem lowers_closing (f : OperandForm) : Lowers (f.closing.map Char.toUpper) f.closing := by
  cases f <;> exact ⟨by decide, by decide⟩

/-- The operand of an instruction that passes control nowhere. -/
theorem exists_printed_value {s : Site} {m : Mnemonic} {mode : Mode} (table : SymbolTable)
    (hdecode : Opcode.decode s.opcode = some (m, mode)) (hcomplete : s.isComplete = true)
    (halone : standsAlone mode = false) (hmode : mode ≠ .relative ∧ mode ≠ .indirect) :
    ∃ n, operandValue s.operand = .ok n
      ∧ Lowers (valueText mode n) ((formOf mode).operand (Replacement.literal mode.isWide n))
      ∧ PrintedCore table s m mode (Replacement.literal mode.isWide n) := by
  have hpos : 0 < mode.length :=
    Opcode.length_pos_of_mem m _ (Opcode.mem_opcodes_of_decode hdecode)
  have hlowers : ∀ n : Nat, n < 16 ^ places mode.isWide →
      Lowers (valueText mode n) ((formOf mode).operand (Replacement.literal mode.isWide n)) := by
    intro n hn
    rw [valueText_eq halone hmode hpos hn]
    exact ((lowers_opening _).append (Lowers.literal _ _)).append (lowers_closing _)
  rcases operand_cases hdecode hcomplete halone with
    ⟨hwide, low, high, hoperand⟩ | ⟨hwide, b, hoperand⟩
  · refine ⟨word low high, by rw [hoperand]; rfl, hlowers _ ?_, .number _ ?_⟩
    · rw [hwide]
      exact word_lt low high
    · rw [hoperand, operandOf, if_pos hwide, lowByte_word, highByte_word]
  · refine ⟨b.toNat, by rw [hoperand]; rfl, hlowers _ ?_, .number _ ?_⟩
    · rw [hwide]
      exact b.toNat_lt
    · rw [hoperand, operandOf, if_neg (by simp [hwide]), lowByte_toNat]

/-- A branch stays inside the address space. -/
def StaysInside (s : Site) : Prop := ∀ d ∈ s.operand.head?,
  0 ≤ s.address + 2 + signed d ∧ s.address + 2 + signed d < 65536

/-- A branch stays inside the address space if its target is shown by a name. -/
def NamedInside (table : SymbolTable) (s : Site) : Prop := ∀ d ∈ s.operand.head?,
  shownLabel? table ((s.address + 2 + signed d) % 65536) ≠ none →
    0 ≤ s.address + 2 + signed d ∧ s.address + 2 + signed d < 65536

theorem StaysInside.named {s : Site} (h : StaysInside s) (table : SymbolTable) :
    NamedInside table s := fun d hd _ => h d hd

section Print

variable {table : SymbolTable} {sites : List Site} (hlabels : Labelling table sites)
  {s : Site} {m : Mnemonic} {mode : Mode}
include hlabels

/-- The label that is shown for an address. -/
theorem shownLabel?_cases (a : Int) :
    shownLabel? table a = none
      ∨ ∃ k, table.labelAt? a = some (labelName k) ∧ shownLabel? table a = some (labelName k) := by
  rw [shownLabel?]
  cases h : table.labelAt? a with
  | none => exact .inl rfl
  | some name =>
    obtain ⟨⟨k, -, rfl⟩, -⟩ := hlabels.shape a name h
    have hname : (labelName k).isEmpty = false := rfl
    exact .inr ⟨k, rfl, by simp [Option.filter, hname]⟩

/-- The operand of a branch.  The address space has to hold its target only where the target is
shown by a name, since a displacement is shown as it is. -/
theorem exists_printed_branch (hmode : mode = .relative) (hbranch : m.isBranch = true)
    {d : UInt8} (hoperand : s.operand = [d])
    (hwrap : shownLabel? table ((s.address + 2 + signed d) % 65536) ≠ none →
      0 ≤ s.address + 2 + signed d ∧ s.address + 2 + signed d < 65536) :
    ∃ core, Lowers (targetText table mode s.operand ((s.address + 2 + signed d) % 65536))
        ((formOf mode).operand core) ∧ PrintedCore table s m mode core := by
  subst hmode
  rcases shownLabel?_cases hlabels ((s.address + 2 + signed d) % 65536) with
    hnone | ⟨k, hlabel, hshown⟩
  · refine ⟨_, ?_, .number d.toNat ?_⟩
    · simp only [targetText, hnone, hoperand]
      rw [List.headD_cons, ← literal_byte]
      exact (Lowers.literal false d.toNat).plain
    · rw [hoperand, operandOf, if_neg (by decide), lowByte_toNat]
  · have hinside := hwrap (by rw [hshown]; exact Option.some_ne_none _)
    have hdistance : displacement ((s.address + 2 + signed d) % 65536) s.address = signed d := by
      rw [displacement]
      omega
    refine ⟨_, ?_, .target _ k hlabel (.inl rfl) ?_ ?_⟩
    · simp only [targetText, hshown]
      exact (lowers_labelName k).plain
    · intro _
      rw [hdistance]
      exact reaches_signed d
    · rw [hoperand, hbranch, if_pos rfl, hdistance, operandOf, if_neg (by decide), lowByte_signed]

/-- The operand of a jump or a call. -/
theorem exists_printed_jump (hmode : mode = .absolute ∨ mode = .indirect)
    (hbranch : m.isBranch = false) {low high : UInt8} (hoperand : s.operand = [low, high]) :
    ∃ core, Lowers (targetText table mode s.operand (word low high))
        ((formOf mode).operand core) ∧ PrintedCore table s m mode core := by
  have hwide : mode.isWide = true := by
    rcases hmode with rfl | rfl <;> rfl
  have hbytes : s.operand = operandOf mode (word low high) := by
    rw [hoperand, operandOf, if_pos hwide, lowByte_word, highByte_word]
  have hopen : Lowers ['('] ['('] := ⟨by decide, by decide⟩
  have hclose : Lowers [')'] [')'] := ⟨by decide, by decide⟩
  rcases shownLabel?_cases hlabels (word low high) with hnone | ⟨k, hlabel, hshown⟩
  · refine ⟨_, ?_, .number (word low high) hbytes⟩
    have h := Lowers.literal true (word low high)
    rw [hwide]
    rcases hmode with rfl | rfl
    · simp only [targetText, hnone]
      rw [← literal_word]
      exact h.plain
    · simp only [targetText, hnone]
      rw [← literal_word]
      exact (hopen.append h).append hclose
  · refine ⟨_, ?_, .target _ k hlabel ?_ ?_ ?_⟩
    · rcases hmode with rfl | rfl
      · simp only [targetText, hshown]
        exact (lowers_labelName k).plain
      · simp only [targetText, hshown]
        exact (hopen.append (lowers_labelName k)).append hclose
    · rcases hmode with rfl | rfl
      · exact .inl rfl
      · exact .inr rfl
    · rw [hbranch]
      exact fun h => absurd h (by decide)
    · rw [hbranch, if_neg (by decide)]
      exact hbytes

/-- The operand of a whole instruction as it is printed, and in lower case. -/
theorem exists_printed (hdecode : Opcode.decode s.opcode = some (m, mode))
    (hcomplete : s.isComplete = true) (halone : standsAlone mode = false)
    (hwrap : m.isBranch = true → NamedInside table s) :
    ∃ t core, operandText table s.opcode mode s.operand s.address = .ok t
      ∧ Lowers t ((formOf mode).operand core) ∧ PrintedCore table s m mode core := by
  have hmem := Opcode.mem_opcodes_of_decode hdecode
  have hbranches := Opcode.isNumberOf_branches m _ hmem
  have htext : operandText table s.opcode mode s.operand s.address
      = if s.opcode ∈ Opcode.transfers then
          (transferTarget s.opcode.toNat s.operand s.address).map
            (targetText table mode s.operand)
        else (operandValue s.operand).map (valueText mode) := by
    cases mode <;> first | rfl | exact absurd halone (by decide)
  have hcases := operand_cases hdecode hcomplete halone
  rw [htext]
  by_cases htransfer : s.opcode ∈ Opcode.transfers
  · rw [if_pos htransfer]
    cases hbranch : m.isBranch with
    | true =>
      have hmode : mode = .relative := (Opcode.relative_iff_isBranch m _ hmem).mpr hbranch
      rcases hcases with ⟨hwide, -⟩ | ⟨-, d, hoperand⟩
      · rw [hmode] at hwide
        cases hwide
      · obtain ⟨core, hlowers, hcore⟩ := exists_printed_branch hlabels hmode hbranch hoperand
          (hwrap hbranch d (by simp [hoperand]))
        refine ⟨_, core, ?_, hlowers, hcore⟩
        simp only [transferTarget, hbranches, hbranch, hoperand, if_true]
        rfl
    | false =>
      have hjump : m = .jmp ∨ m = .jsr := by
        rcases (Opcode.mem_transfers_iff m _ hmem).mp htransfer with h | h | h
        · exact .inl h
        · exact .inr h
        · rw [hbranch] at h
          cases h
      have hmode : mode = .absolute ∨ mode = .indirect := mode_of_jump m _ hmem hjump
      rcases hcases with ⟨-, low, high, hoperand⟩ | ⟨hwide, -⟩
      · obtain ⟨core, hlowers, hcore⟩ := exists_printed_jump hlabels hmode hbranch hoperand
        refine ⟨_, core, ?_, hlowers, hcore⟩
        simp only [transferTarget, hbranches, hbranch, hoperand, Bool.false_eq_true, if_false]
        rfl
      · rcases hmode with h | h <;> rw [h] at hwide <;> cases hwide
  · rw [if_neg htransfer]
    obtain ⟨n, hvalue, hlowers, hcore⟩ := exists_printed_value table hdecode hcomplete halone
      (mode_of_not_transfer m _ hmem htransfer)
    exact ⟨_, _, by rw [hvalue]; rfl, hlowers, hcore⟩

end Print

/-! ## Printed statements -/

/-- The statement that a whole instruction is printed as, in lower case. -/
inductive PrintedBody (table : SymbolTable) (s : Site) (m : Mnemonic) (mode : Mode) : Text → Prop
  | implied (hmode : mode = .implied) : PrintedBody table s m mode m.name
  | accumulator (hmode : mode = .accumulator) :
      PrintedBody table s m mode (line m [' '] .plain ['a'])
  | operand {core : Text} (halone : standsAlone mode = false)
      (hcore : PrintedCore table s m mode core) :
      PrintedBody table s m mode (line m [' '] (formOf mode) core)

theorem lowers_name (m : Mnemonic) : Lowers m.name m.name := by
  cases m <;> exact ⟨by decide, by decide⟩

theorem text_ofSite {table : SymbolTable} {s : Site} {m : Mnemonic} {mode : Mode} {t : Text}
    (hdecode : Opcode.decode s.opcode = some (m, mode)) (hcomplete : s.isComplete = true)
    (htext : operandText table s.opcode mode s.operand s.address = .ok t) :
    (Disassembled.ofSite table s).text = if t.isEmpty then m.name else m.name ++ ' ' :: t := by
  have hcond : ¬ Opcode.decode s.opcode = none := by
    rw [hdecode]
    exact Option.some_ne_none _
  have hdrop : s.bytes.drop 1 = s.operand := rfl
  rw [Disassembled.ofSite, if_neg hcond, hcomplete]
  simp only [Disassembled.complete, Opcode.mode_of_decode hdecode, hdrop, htext, Except.map,
    Bool.not_true, Bool.false_eq_true, if_false, Disassembled.text,
    Opcode.mnemonicText_of_decode hdecode]

/-- What the disassembler prints for a whole instruction. -/
theorem exists_printedBody {table : SymbolTable} {sites : List Site}
    (hlabels : Labelling table sites) {s : Site} {m : Mnemonic} {mode : Mode}
    (hdecode : Opcode.decode s.opcode = some (m, mode)) (hcomplete : s.isComplete = true)
    (hwrap : m.isBranch = true → NamedInside table s) :
    ∃ body, PrintedBody table s m mode body
      ∧ Lowers (Disassembled.ofSite table s).text body := by
  have hspace : Lowers [' '] [' '] := ⟨by decide, by decide⟩
  cases halone : standsAlone mode with
  | true =>
    rw [standsAlone, Bool.or_eq_true, decide_eq_true_eq, decide_eq_true_eq] at halone
    rcases halone with rfl | rfl
    · refine ⟨_, .implied rfl, ?_⟩
      rw [text_ofSite hdecode hcomplete rfl]
      exact lowers_name m
    · have hletter : Lowers ['A'] ['a'] := ⟨by decide, by decide⟩
      refine ⟨_, .accumulator rfl, ?_⟩
      rw [text_ofSite hdecode hcomplete rfl]
      exact (lowers_name m).append (hspace.append hletter.plain)
  | false =>
    obtain ⟨t, core, htext, hlowers, hcore⟩ :=
      exists_printed hlabels hdecode hcomplete halone hwrap
    refine ⟨_, .operand halone hcore, ?_⟩
    have hne : t.isEmpty = false := by
      cases t with
      | nil => exact absurd hlowers.lower.symm (operand_ne_nil _ hcore.ne_nil)
      | cons c t => rfl
    rw [text_ofSite hdecode hcomplete htext, hne]
    exact (lowers_name m).append (hspace.append hlowers)

end Cross6502
