import Cross6502.Instruction.Encoded
import Cross6502.Proofs.Text.Cutting
import Cross6502.Proofs.Text.Digits

/-!
# Forms of operands

An instruction with an operand is a mnemonic, a gap, and a name or a number inside
some decoration: nothing, `#`, `*` or parentheses, and perhaps an index register.
`OperandForm` lists the decorations, and `OperandForm.line` writes the line.  The
same ten forms are what the disassembler prints and what names are replaced in, so
everything the assembler does with such a line is proved here once, for any name
or number in it.

The main result is `ofLine_line`: when a hexadecimal literal stands inside the form,
the line is encoded in the mode that the form and the width of the literal give,
with the literal's value in its operand bytes.
-/

namespace Cross6502

/-- How an operand is written around the name or number it holds. -/
inductive OperandForm where
  | plain
  | plainX
  | plainY
  | immediate
  | zeroPage
  | zeroPageX
  | zeroPageY
  | paren
  | parenX
  | parenY
  deriving DecidableEq, Inhabited

/-- What stands between a mnemonic and its operand: spaces and tabs, at least one. -/
def IsGap (gap : Text) : Prop := gap ≠ [] ∧ ∀ c ∈ gap, c = ' ' ∨ c = '\t'

namespace OperandForm

/-! ## Writing a line -/

/-- What stands before the name or number. -/
def opening : OperandForm → Text
  | plain | plainX | plainY => []
  | immediate => ['#']
  | zeroPage | zeroPageX | zeroPageY => ['*']
  | paren | parenX | parenY => ['(']

/-- What stands behind the name or number. -/
def closing : OperandForm → Text
  | plain | immediate | zeroPage => []
  | plainX | zeroPageX => [',', 'x']
  | plainY | zeroPageY => [',', 'y']
  | paren => [')']
  | parenX => [',', 'x', ')']
  | parenY => [')', ',', 'y']

/-- The operand with `core` in it. -/
def operand (f : OperandForm) (core : Text) : Text := f.opening ++ core ++ f.closing

/-- The instruction line with `core` in its operand. -/
def line (m : Mnemonic) (gap : Text) (f : OperandForm) (core : Text) : Text :=
  m.name ++ (gap ++ f.operand core)

/-- The mode of the operand, given whether the number in it is wide. -/
def mode : OperandForm → Bool → Mode
  | plain, wide => if wide then .absolute else .relative
  | plainX, wide => if wide then .absoluteX else .relative
  | plainY, wide => if wide then .absoluteY else .relative
  | immediate, _ => .immediate
  | zeroPage, _ => .zeroPage
  | zeroPageX, _ => .zeroPageX
  | zeroPageY, _ => .zeroPageY
  | paren, _ => .indirect
  | parenX, _ => .indirectX
  | parenY, _ => .indirectY

/-- The operand without its gap, cut into its parts. -/
theorem drop_three_line (m : Mnemonic) (gap : Text) (f : OperandForm) (core : Text) :
    (line m gap f core).drop 3 = gap ++ f.operand core := by
  rw [line, ← m.length_name, List.drop_left]

theorem take_three_line (m : Mnemonic) (gap : Text) (f : OperandForm) (core : Text) :
    (line m gap f core).take 3 = m.name := by
  rw [line, ← m.length_name, List.take_left]

theorem mnemonic_line (m : Mnemonic) (gap : Text) (f : OperandForm) (core : Text) :
    Line.mnemonic (line m gap f core) = m.name :=
  take_three_line m gap f core

/-! ## Ends of a line -/

theorem isBlank_of_mem_gap {gap : Text} (hg : IsGap gap) {c : Char} (hc : c ∈ gap) :
    Text.isBlank c = true := by
  rcases hg.2 c hc with rfl | rfl <;> decide

theorem isBlank_of_mem_opening (f : OperandForm) {c : Char} (hc : c ∈ f.opening) :
    Text.isBlank c = false := by
  cases f <;> simp only [opening, List.not_mem_nil, List.mem_singleton] at hc <;>
    (rw [hc]; decide)

theorem isBlank_of_mem_closing (f : OperandForm) {c : Char} (hc : c ∈ f.closing) :
    Text.isBlank c = false := by
  have h : ∀ f : OperandForm, ∀ c ∈ f.closing, Text.isBlank c = false := by
    intro f
    cases f <;> decide
  exact h f c hc

theorem isBlank_of_mem_name (m : Mnemonic) {c : Char} (hc : c ∈ m.name) :
    Text.isBlank c = false := by
  have h : ∀ c ∈ m.name, Text.isBlank c = false := by
    cases m <;> decide
  exact h c hc

/-- An operand around a text without blanks has no blank. -/
theorem isBlank_of_mem_operand {f : OperandForm} {core : Text}
    (hcore : ∀ c ∈ core, Text.isBlank c = false) {c : Char} (hc : c ∈ f.operand core) :
    Text.isBlank c = false := by
  rw [operand, List.mem_append, List.mem_append] at hc
  rcases hc with (hc | hc) | hc
  · exact isBlank_of_mem_opening f hc
  · exact hcore c hc
  · exact isBlank_of_mem_closing f hc

theorem operand_ne_nil (f : OperandForm) {core : Text} (hne : core ≠ []) :
    f.operand core ≠ [] := by
  intro h
  rw [operand, List.append_eq_nil_iff, List.append_eq_nil_iff] at h
  exact hne h.1.2

section Shape

variable {m : Mnemonic} {gap : Text} {f : OperandForm} {core : Text}

theorem tight_line (hne : core ≠ []) (hcore : ∀ c ∈ core, Text.isBlank c = false) :
    Text.Tight (line m gap f core) := by
  have hoperand := operand_ne_nil f hne
  have hname : m.name ≠ [] := by
    intro h
    have hlen := m.length_name
    rw [h] at hlen
    exact absurd hlen (by decide)
  refine Text.tight_append hname (by simp [hoperand]) ?_ ?_
  · intro c hc
    exact isBlank_of_mem_name m (List.mem_of_mem_head? hc)
  · intro c hc
    rw [List.getLast?_append, List.getLast?_eq_some_getLast hoperand, Option.some_or] at hc
    have hmem : c ∈ f.operand core := by
      rw [← Option.some_inj.mp hc]
      exact List.getLast_mem hoperand
    exact isBlank_of_mem_operand hcore hmem

theorem trim_line (hne : core ≠ []) (hcore : ∀ c ∈ core, Text.isBlank c = false) :
    Text.trim (line m gap f core) = line m gap f core :=
  Text.trim_of_tight (tight_line hne hcore)

/-- Behind the three letters and the gap stands the operand. -/
theorem trimLeft_drop_line (hg : IsGap gap) (hcore : ∀ c ∈ core, Text.isBlank c = false) :
    Text.trimLeft ((line m gap f core).drop 3) = f.operand core := by
  rw [drop_three_line, Text.trimLeft_append fun c hc => isBlank_of_mem_gap hg hc]
  exact Text.trimLeft_of_head fun c hc =>
    isBlank_of_mem_operand hcore (List.mem_of_mem_head? hc)

theorem operand_line (hg : IsGap gap) (hcore : ∀ c ∈ core, Text.isBlank c = false) :
    Line.operand (line m gap f core) = f.operand core := by
  rw [Line.operand, Text.trim, trimLeft_drop_line hg hcore]
  exact Text.trimRight_of_getLast fun c hc =>
    isBlank_of_mem_operand hcore (List.mem_of_mem_getLast? hc)

theorem hasMnemonicShape_line (hg : IsGap gap) :
    Encoded.hasMnemonicShape (line m gap f core) = true := by
  obtain ⟨c, rest, rfl⟩ := List.exists_cons_of_ne_nil hg.1
  have hc : Text.isBlank c = true := isBlank_of_mem_gap hg List.mem_cons_self
  have h := m.length_name
  rw [line]
  match hm : m.name with
  | [a, b, d] => simpa [Encoded.hasMnemonicShape] using hc
  | [] | [_] | [_, _] | _ :: _ :: _ :: _ :: _ => simp [hm] at h

/-- The operand alone decides on the mode. -/
theorem mode_line_eq (hg : IsGap gap) (hne : core ≠ [])
    (hcore : ∀ c ∈ core, Text.isBlank c = false) :
    Line.mode (line m gap f core) = Line.operandMode (f.operand core) := by
  have hempty : (line m gap f core).isEmpty = false := by
    have h : Encoded.hasMnemonicShape (line m gap f core) = true := hasMnemonicShape_line hg
    cases hline : line m gap f core with
    | nil =>
      rw [hline] at h
      exact absurd h (by decide)
    | cons c t => rfl
  rw [Line.mode, trim_line hne hcore]
  simp only [hempty]
  rw [if_neg (by decide), trimLeft_drop_line hg hcore]

end Shape

/-! ## A hexadecimal literal inside a form -/

/-- The digits of a literal as the assembler writes them. -/
def IsHexRun (ds : Text) : Prop := ds ≠ [] ∧ ∀ c ∈ ds, Arithmetic.isLowerHexDigit c = true

/-- A lower-case hexadecimal digit is one of sixteen characters. -/
theorem isLowerHexDigit_iff {c : Char} : Arithmetic.isLowerHexDigit c = true ↔
    (48 ≤ c.toNat ∧ c.toNat ≤ 57) ∨ (97 ≤ c.toNat ∧ c.toNat ≤ 102) := by
  have ha : ∀ d : Char, 'a' ≤ d ↔ 97 ≤ d.toNat := fun d => UInt32.le_iff_toNat_le
  have hf : ∀ d : Char, d ≤ 'f' ↔ d.toNat ≤ 102 := fun d => UInt32.le_iff_toNat_le
  rw [Arithmetic.isLowerHexDigit, Bool.or_eq_true, Bool.and_eq_true, decide_eq_true_iff,
    decide_eq_true_iff, ha, hf, Char.isDigit_iff_toNat]
  rfl

/-- The part of the closing that is left of it when a literal is cleaned. -/
def commaOf : OperandForm → Text
  | plain | immediate | zeroPage | paren => []
  | _ => [',']

theorem clean_append_of_decoration {s : Text}
    (hs : ∀ c ∈ s, c ≠ ',' ∧ Literal.isDecoration c = true)
    (t : Text) : Literal.clean (s ++ t) = Literal.clean t := by
  induction s with
  | nil => rfl
  | cons c s ih =>
    have hc := hs c List.mem_cons_self
    rw [List.cons_append, Literal.clean, if_neg hc.1, if_pos hc.2,
      ih fun d hd => hs d (List.mem_cons_of_mem c hd)]

theorem clean_append_of_plain {s : Text}
    (hs : ∀ c ∈ s, c ≠ ',' ∧ Literal.isDecoration c = false) (t : Text) :
    Literal.clean (s ++ t) = s ++ Literal.clean t := by
  induction s with
  | nil => rfl
  | cons c s ih =>
    have hc := hs c List.mem_cons_self
    rw [List.cons_append, Literal.clean, if_neg hc.1, if_neg (by simp [hc.2]),
      ih fun d hd => hs d (List.mem_cons_of_mem c hd), List.cons_append]

theorem decoration_opening (f : OperandForm) :
    ∀ c ∈ f.opening, c ≠ ',' ∧ Literal.isDecoration c = true := by
  cases f <;> decide

theorem clean_closing (f : OperandForm) : Literal.clean f.closing = f.commaOf := by
  cases f <;> decide

theorem not_decoration_of_isLowerHexDigit {c : Char} (hc : Arithmetic.isLowerHexDigit c = true) :
    c ≠ ',' ∧ Literal.isDecoration c = false := by
  have hrange := isLowerHexDigit_iff.mp hc
  have hne : ∀ d : Char, ¬ ((48 ≤ d.toNat ∧ d.toNat ≤ 57) ∨ (97 ≤ d.toNat ∧ d.toNat ≤ 102)) →
      c ≠ d := by
    rintro d hd rfl
    exact hd hrange
  refine ⟨hne ',' (by decide), ?_⟩
  have hlt : ¬ (0x7F ≤ c.toNat) := by omega
  simp [Literal.isDecoration, hne ' ' (by decide), hne '\t' (by decide), hne '#' (by decide),
    hne '*' (by decide), hne '(' (by decide), hne ')' (by decide), hne ';' (by decide), hlt]

/-- What a reader of numbers sees of a literal inside a form. -/
theorem clean_operand (f : OperandForm) {ds : Text}
    (hds : ∀ c ∈ ds, Arithmetic.isLowerHexDigit c = true) :
    Literal.clean (f.operand ('$' :: ds)) = '$' :: (ds ++ f.commaOf) := by
  have hcore : ∀ c ∈ '$' :: ds, c ≠ ',' ∧ Literal.isDecoration c = false := by
    intro c hc
    rcases List.mem_cons.mp hc with rfl | hc
    · decide
    · exact not_decoration_of_isLowerHexDigit (hds c hc)
  rw [operand, List.append_assoc, clean_append_of_decoration f.decoration_opening,
    clean_append_of_plain hcore, clean_closing, List.cons_append]

theorem takeWhile_run_append_comma {p : Char → Bool} (hcomma : p ',' = false) (f : OperandForm)
    {ds : Text} (hds : ∀ c ∈ ds, p c = true) : (ds ++ f.commaOf).takeWhile p = ds := by
  rw [List.takeWhile_append_of_pos hds]
  cases f <;> simp [commaOf, hcomma]

theorem isDigitOf_sixteen {c : Char} (hc : Arithmetic.isLowerHexDigit c = true) :
    Literal.isDigitOf 16 c = true := by
  have hrange := isLowerHexDigit_iff.mp hc
  have hhex : Literal.isHexDigit c = true := by
    rw [Arithmetic.isLowerHexDigit] at hc
    rw [Literal.isHexDigit, hc, Bool.true_or]
  rw [Literal.isDigitOf, hhex, Bool.true_and, decide_eq_true_iff, Literal.hexDigitValue]
  split
  · rename_i hdigit
    have hle : c.toNat ≤ 57 := (Char.isDigit_iff_toNat.mp hdigit).2
    omega
  · split
    · omega
    · rename_i hdigit hletter
      rw [Arithmetic.isLowerHexDigit, Bool.or_eq_true] at hc
      exact absurd (hc.resolve_left hdigit) hletter

/-- The number in a form, read with all its decoration. -/
theorem read_operand (f : OperandForm) {ds : Text} (hds : IsHexRun ds) :
    Literal.read (f.operand ('$' :: ds)) =
      .ok ⟨Literal.digitsValue 16 ds % 65536,
        2 < ds.length || 255 < Literal.digitsValue 16 ds % 65536⟩ := by
  have hsign : Literal.splitSign (ds ++ f.commaOf) = (1, ds ++ f.commaOf) := by
    refine Literal.splitSign_of_unsigned fun c hc => ?_
    rw [List.head?_append, List.head?_eq_some_head hds.1, Option.some_or, Option.mem_some] at hc
    have hdigit := hds.2 c (hc ▸ List.head_mem hds.1)
    constructor
    · rintro rfl
      exact absurd hdigit (by decide)
    · rintro rfl
      exact absurd hdigit (by decide)
  have hdigits : Literal.digitsOf 16 (ds ++ f.commaOf) = ds := by
    rw [Literal.digitsOf, hsign]
    exact takeWhile_run_append_comma (by decide) f fun c hc => isDigitOf_sixteen (hds.2 c hc)
  have hwidth : Literal.widthRun (ds ++ f.commaOf) = ds.length := by
    rw [Literal.widthRun]
    exact congrArg List.length (takeWhile_run_append_comma (by decide) f hds.2)
  have hvalue : Literal.leadingValue 16 (ds ++ f.commaOf)
      = .ok (Literal.digitsValue 16 ds : Int) := by
    simp [Literal.leadingValue, hdigits, hsign]
  rw [Literal.read, clean_operand f hds.2]
  simp only [Literal.form, hvalue, hwidth]
  congr

/-! ## The mode of a line -/

theorem dropWhile_comma_operand (f : OperandForm) {core : Text} (hcore : ∀ c ∈ core, c ≠ ',') :
    (f.operand core).dropWhile (· ≠ ',') = f.closing.dropWhile (· ≠ ',') := by
  have hcore' : ∀ c ∈ f.opening ++ core, decide (c ≠ ',') = true := by
    intro c hc
    rw [decide_eq_true_iff]
    rcases List.mem_append.mp hc with hc | hc
    · exact (f.decoration_opening c hc).1
    · exact hcore c hc
  rw [operand, List.dropWhile_append_of_pos hcore']

/-- The register behind the comma turns a mode into its indexed form. -/
theorem indexedBy_operand (base : Mode) (f : OperandForm) {core : Text}
    (hcore : ∀ c ∈ core, c ≠ ',') :
    Line.indexedBy base (f.operand core) = Line.indexedBy base f.closing := by
  rw [Line.indexedBy, Line.indexedBy, dropWhile_comma_operand f hcore]

theorem ne_comma_of_isHexRun {ds : Text} (hds : IsHexRun ds) : ∀ c ∈ '$' :: ds, c ≠ ',' := by
  intro c hc
  rcases List.mem_cons.mp hc with rfl | hc
  · decide
  · exact (not_decoration_of_isLowerHexDigit (hds.2 c hc)).1

/-- A bare number is an address when it is wide and a displacement when it is not. -/
theorem operandMode_dollar {t : Text} {l : Literal} (hl : Literal.read ('$' :: t) = .ok l)
    (ht : Literal.startsNumber ('$' :: t) = true) :
    Line.operandMode ('$' :: t)
      = .ok (if l.wide then Line.indexedBy .absolute ('$' :: t) else .relative) := by
  rw [Line.operandMode.eq_7 _ (by simp) (by simp) (by simp) (by simp) (by simp) (by simp), hl]
  simp only [bind, Except.bind, ht]
  split <;> rfl

/-- A literal inside a form has the mode of the form. -/
theorem operandMode_operand (f : OperandForm) {ds : Text} (hds : IsHexRun ds) {l : Literal}
    (hl : Literal.read (f.operand ('$' :: ds)) = .ok l) :
    Line.operandMode (f.operand ('$' :: ds)) = .ok (f.mode l.wide) := by
  have hcomma := ne_comma_of_isHexRun hds
  have hstart : Literal.startsNumber ('$' :: (ds ++ f.closing)) = true := by
    obtain ⟨d, ds, rfl⟩ := List.exists_cons_of_ne_nil hds.1
    have hd := isDigitOf_sixteen (hds.2 d List.mem_cons_self)
    rw [Literal.isDigitOf, Bool.and_eq_true] at hd
    exact hd.1
  cases f with
  | plain =>
    refine (operandMode_dollar hl hstart).trans (congrArg Except.ok ?_)
    exact congrArg (if l.wide then · else .relative) (indexedBy_operand .absolute plain hcomma)
  | plainX =>
    refine (operandMode_dollar hl hstart).trans (congrArg Except.ok ?_)
    exact congrArg (if l.wide then · else .relative) (indexedBy_operand .absolute plainX hcomma)
  | plainY =>
    refine (operandMode_dollar hl hstart).trans (congrArg Except.ok ?_)
    exact congrArg (if l.wide then · else .relative) (indexedBy_operand .absolute plainY hcomma)
  | immediate => rfl
  | zeroPage => exact congrArg Except.ok (indexedBy_operand .zeroPage zeroPage hcomma)
  | zeroPageX => exact congrArg Except.ok (indexedBy_operand .zeroPage zeroPageX hcomma)
  | zeroPageY => exact congrArg Except.ok (indexedBy_operand .zeroPage zeroPageY hcomma)
  | paren => exact congrArg Except.ok (indexedBy_operand .indirect paren hcomma)
  | parenX => exact congrArg Except.ok (indexedBy_operand .indirect parenX hcomma)
  | parenY => exact congrArg Except.ok (indexedBy_operand .indirect parenY hcomma)

theorem isBlank_of_isLowerHexDigit {c : Char} (hc : Arithmetic.isLowerHexDigit c = true) :
    Text.isBlank c = false := by
  have hrange := isLowerHexDigit_iff.mp hc
  have h₁ : ¬ (c.toNat ≤ 13) := by omega
  have h₂ : ¬ (c.toNat ≤ 32) := by omega
  have h₃ : ¬ (128 ≤ c.toNat) := by omega
  simp [Text.isBlank, h₁, h₂, h₃]

theorem isBlank_of_mem_literal {ds : Text} (hds : IsHexRun ds) :
    ∀ c ∈ '$' :: ds, Text.isBlank c = false := by
  intro c hc
  rcases List.mem_cons.mp hc with rfl | hc
  · decide
  · exact isBlank_of_isLowerHexDigit (hds.2 c hc)

theorem mode_ne_unknown (f : OperandForm) (wide : Bool) : f.mode wide ≠ .unknown := by
  cases f <;> cases wide <;> decide

section Literal

variable {m : Mnemonic} {gap : Text} {f : OperandForm} {ds : Text} {l : Literal}

theorem mode_line (hg : IsGap gap) (hds : IsHexRun ds)
    (hl : Literal.read (f.operand ('$' :: ds)) = .ok l) :
    Line.mode (line m gap f ('$' :: ds)) = .ok (f.mode l.wide) := by
  rw [mode_line_eq hg (List.cons_ne_nil _ _) (isBlank_of_mem_literal hds),
    operandMode_operand f hds hl]

/-- An instruction whose operand is a literal in some form is encoded in the mode of
the form, with the literal in its operand bytes. -/
theorem ofLine_line (hg : IsGap gap) (hds : IsHexRun ds)
    (hl : Literal.read (f.operand ('$' :: ds)) = .ok l) :
    Encoded.ofLine (line m gap f ('$' :: ds)) =
      (Opcode.encode m.name (f.mode l.wide)).map fun opcode =>
        ⟨m.name, f.mode l.wide, opcode, Encoded.operandBytes (f.mode l.wide).length l⟩ := by
  have hblank := isBlank_of_mem_literal hds
  rw [Encoded.ofLine, trim_line (List.cons_ne_nil _ _) hblank]
  simp only [hasMnemonicShape_line hg, Bool.not_true, Bool.false_eq_true, if_false,
    mnemonic_line, mode_line hg hds hl, operand_line hg hblank, hl, bind, Except.bind,
    mode_ne_unknown]
  cases Opcode.encode m.name (f.mode l.wide) <;> rfl

end Literal

end OperandForm

end Cross6502
