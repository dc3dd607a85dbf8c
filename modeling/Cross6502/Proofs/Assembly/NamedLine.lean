import Cross6502.Proofs.Instruction.Opcode
import Cross6502.Proofs.Substitution.Reported
import Cross6502.Proofs.Substitution.SingleName

/-!
# Assembling a line that holds one name

The instruction of a line in one of the operand forms, in closed form, for the three
things that can stand in the operand.

* A literal: the line is encoded as it is (`assemble_literal_line`).
* A name of the table: its literal is put in its place and the line is encoded
  (`assemble_known_line`).
* A name that no table defines: a zero of the same width is put in its place, the
  line is encoded, and the name is left to the linker (`assemble_unknown_line`).

A name that is left to the linker must not be taken for a number, so it has a
character that is no hexadecimal digit (`IsName`).
-/

namespace Cross6502

open OperandForm Token Replacement

/-- A name is replaced by its displacement in a branch that reaches it, and by its address
in any other instruction. -/
theorem Replacement.text_of_reaches {m : Mnemonic} {value address : Int}
    (h : m.isBranch = true → reaches (displacement value address) = true) (before : Option Char)
    (name : Text) :
    text m.name before value address name = .ok (literal (takesWord m.name before)
      (if m.isBranch then displacement value address else value)) := by
  cases hbranch : m.isBranch with
  | true =>
    rw [text_of_branch (by rw [Opcode.isBranchText_name, hbranch]), h hbranch]
    rfl
  | false =>
    rw [text_of_not_branch (by rw [Opcode.isBranchText_name, hbranch])]
    rfl

/-! ## Operands that hold a number, operands that hold a name -/

/-- A name that cannot be taken for a number. -/
structure IsName (x : Text) : Prop where
  isWord : IsWord x
  first : ∀ c ∈ x.head?, Names.isFirst c = true
  notHex : ∃ c ∈ x, Literal.isHexDigit c = false

namespace OperandForm

theorem isBlank_of_mem_word {x : Text} (hx : IsWord x) : ∀ c ∈ x, Text.isBlank c = false :=
  fun c hc => isBlank_of_isFurther (hx.2 c hc)

theorem isBlank_of_mem_sum {x tail : Text} (hx : IsWord x)
    (htail : ∀ c ∈ tail, isSumChar c = true) : ∀ c ∈ x ++ tail, Text.isBlank c = false := by
  intro c hc
  rcases List.mem_append.mp hc with hc | hc
  · exact isBlank_of_mem_word hx c hc
  · exact isBlank_of_isSumChar (htail c hc)

/-- What is left of an operand without the marks in front of its number. -/
theorem dropWhile_marks_operand (f : OperandForm) {core : Text} (hne : core ≠ [])
    (hcore : ∀ c ∈ core, Text.isBlank c = false)
    (hhead : ∀ c ∈ core.head?, (c = '(' || c = '#' || c = '*') = false) :
    (Text.trim (f.operand core)).dropWhile (fun c => c = '(' || c = '#' || c = '*')
      = core ++ f.closing := by
  have hopening : ∀ c ∈ f.opening, (c = '(' || c = '#' || c = '*') = true := by
    cases f <;> decide
  have htrim : Text.trim (f.operand core) = f.operand core :=
    Text.trim_of_tight (Text.tight_of_forall fun c hc => isBlank_of_mem_operand hcore hc)
  obtain ⟨c, t, rfl⟩ := List.exists_cons_of_ne_nil hne
  rw [htrim, operand, List.append_assoc, List.dropWhile_append_of_pos hopening, List.cons_append,
    List.dropWhile_cons_of_neg]
  rw [hhead c (by simp)]
  decide

theorem takeWhile_number_closing (f : OperandForm) {t : Text}
    (ht : ∀ c ∈ t, (c ≠ ',' && c ≠ ')') = true) :
    (t ++ f.closing).takeWhile (fun c => c ≠ ',' && c ≠ ')') = t := by
  rw [List.takeWhile_append_of_pos ht]
  cases f <;> simp [closing]

theorem isPlain_operand_literal (f : OperandForm) (word : Bool) (n : Int) :
    Literal.isPlain (f.operand (literal word n)) = true := by
  have hds := isHexRun_lowerHex word n
  have hnumber : ∀ c ∈ Text.lowerHex (places word) (kept word n : Int),
      (c ≠ ',' && c ≠ ')') = true := by
    intro c hc
    have hc := isFurther_of_isLowerHexDigit (hds.2 c hc)
    simp [ne_of_isFurther hc (d := ',') (by decide), ne_of_isFurther hc (d := ')') (by decide)]
  have hhex : ∀ c ∈ Text.lowerHex (places word) (kept word n : Int),
      Literal.isHexDigit c = true := by
    intro c hc
    have hdigit := isDigitOf_sixteen (hds.2 c hc)
    rw [Literal.isDigitOf, Bool.and_eq_true] at hdigit
    exact hdigit.1
  rw [literal_eq, Literal.isPlain, dropWhile_marks_operand f (List.cons_ne_nil _ _)
    (isBlank_of_mem_literal hds) (by simp), List.cons_append, Literal.dropBaseMark,
    takeWhile_number_closing f hnumber, List.all_eq_true]
  exact hhex

theorem isPlain_line_literal {gap : Text} (hg : IsGap gap) (m : Mnemonic) (f : OperandForm)
    (word : Bool) (n : Int) :
    Literal.isPlain (Line.operand (line m gap f (literal word n))) = true := by
  have hblank : ∀ c ∈ literal word n, Text.isBlank c = false := by
    rw [literal_eq]
    exact isBlank_of_mem_literal (isHexRun_lowerHex word n)
  rw [operand_line hg hblank]
  exact isPlain_operand_literal f word n

/-- An operand that holds a name is no plain number, whatever follows the name. -/
theorem isPlain_operand_name (f : OperandForm) {x tail : Text} (hx : IsName x)
    (htail : ∀ c ∈ tail, isSumChar c = true) :
    Literal.isPlain (f.operand (x ++ tail)) = false := by
  obtain ⟨d, hd, hdhex⟩ := hx.notHex
  have hne : ∀ e, Names.isFurther e = false → ∀ c ∈ x, c ≠ e :=
    fun e he c hc => ne_of_isFurther (hx.isWord.2 c hc) he
  have hnumber : ∀ c ∈ x ++ tail, (c ≠ ',' && c ≠ ')') = true := by
    intro c hc
    rcases List.mem_append.mp hc with hc | hc
    · simp [hne ',' (by decide) c hc, hne ')' (by decide) c hc]
    · simp [ne_of_isSumChar (htail c hc) (d := ',') (by decide),
        ne_of_isSumChar (htail c hc) (d := ')') (by decide)]
  obtain ⟨c, t, hx'⟩ := List.exists_cons_of_ne_nil hx.isWord.1
  have hc : c ∈ x := hx' ▸ List.mem_cons_self
  have hmarks : ∀ e ∈ (x ++ tail).head?, (e = '(' || e = '#' || e = '*') = false := by
    intro e he
    rw [hx', List.cons_append, List.head?_cons, Option.mem_some] at he
    subst he
    simp [hne '(' (by decide) c hc, hne '#' (by decide) c hc, hne '*' (by decide) c hc]
  have hbase : Literal.dropBaseMark (x ++ tail ++ f.closing) = x ++ tail ++ f.closing := by
    rw [hx', List.cons_append, List.cons_append, Literal.dropBaseMark.eq_3]
    · rintro u h
      exact hne '$' (by decide) c hc (List.cons.inj h).1
    · rintro u h
      exact hne '%' (by decide) c hc (List.cons.inj h).1
  rw [Literal.isPlain, dropWhile_marks_operand f (by simp [hx.isWord.1])
    (isBlank_of_mem_sum hx.isWord htail) hmarks, hbase, takeWhile_number_closing f hnumber,
    List.all_eq_false]
  exact ⟨d, List.mem_append_left tail hd, by simp [hdhex]⟩

end OperandForm

/-! ## The bytes of a number -/

theorem lowByte_emod (n k : Int) : lowByte (n % (256 * k)) = lowByte n := by
  rw [lowByte, lowByte, Int.emod_emod_of_dvd n ⟨k, rfl⟩]

theorem lowByte_kept (word : Bool) (n : Int) : lowByte (kept word n : Int) = lowByte n := by
  cases word
  · have h : ((n % 256).toNat : Int) = n % (256 * 1) := by omega
    rw [kept, if_neg (by decide), h, lowByte_emod]
  · have h : ((n % 65536).toNat : Int) = n % (256 * 256) := by omega
    rw [kept, if_pos rfl, h, lowByte_emod]

theorem highByte_kept (n : Int) : highByte (kept true n : Int) = highByte n := by
  have h : ((n % 65536).toNat : Int) / 256 % 256 = n / 256 % 256 := by omega
  rw [kept, if_pos rfl, highByte, highByte, lowByte, lowByte, h]

/-- The operand bytes of a number in a mode that has an operand. -/
def operandOf (mode : Mode) (n : Int) : List UInt8 :=
  if mode.isWide then [lowByte n, highByte n] else [lowByte n]

theorem length_operandOf (mode : Mode) (n : Int) :
    (operandOf mode n).length = if mode.isWide then 2 else 1 := by
  rw [operandOf]
  split <;> rfl

/-! ## The instruction of a line that holds a literal -/

section Instruction

variable {m : Mnemonic} {gap : Text} {f : OperandForm} {opcode : UInt8}

/-- Where nothing stands between the gap and the name, only branches take less than both
bytes. -/
theorem takesWord_of_opening_eq_nil (hg : IsGap gap) (hopening : f.opening = []) :
    takesWord m.name (beforeCore gap f) = !m.isBranch := by
  have hlast := hg.2 _ (List.getLast_mem hg.1)
  rw [takesWord, Opcode.isBranchText_name, beforeCore, hopening, List.append_nil,
    List.getLast?_eq_some_getLast hg.1]
  rcases hlast with h | h <;> rw [h] <;> cases m.isBranch <;> rfl

/-- Where the operand is two bytes long, the place of the name takes both bytes. -/
theorem takesWord_of_isWide
    (hop : Opcode.encode m.name (f.mode (takesWord m.name (beforeCore gap f))) = .ok opcode)
    (hwide : (f.mode (takesWord m.name (beforeCore gap f))).isWide = true) :
    takesWord m.name (beforeCore gap f) = true := by
  cases hword : takesWord m.name (beforeCore gap f) with
  | true => rfl
  | false =>
    rw [hword] at hop hwide
    -- of the narrow forms only the parenthesised one is wide, and that is a `jmp`
    have hf : f = .paren := by
      cases f <;> first | rfl | exact absurd hwide (by decide)
    subst hf
    have hm := Opcode.eq_jmp_of_indirect m _ (Opcode.mem_opcodes_of_encode hop) rfl
    rw [hm, beforeCore, opening, List.getLast?_append, List.getLast?_singleton,
      Option.some_or] at hword
    exact absurd hword (by decide)

/-- The operand of a line that holds a literal, read off the number. -/
theorem operandBytes_kept {word : Bool} (hwide : (f.mode word).isWide = true → word = true)
    (n : Int) :
    Encoded.operandBytes (f.mode word).length ⟨kept word n, word⟩ = operandOf (f.mode word) n := by
  have hlength : (f.mode word).length = if (f.mode word).isWide then 3 else 2 := by
    cases f <;> cases word <;> rfl
  rw [Encoded.operandBytes, operandOf, hlength, Literal.low, Literal.high]
  simp only [lowByte_kept]
  cases hmode : (f.mode word).isWide with
  | false => rfl
  | true =>
    rw [hwide hmode, highByte_kept]
    rfl

/-- The instruction of a line with a literal for the number `n` in it. -/
def instruction (m : Mnemonic) (gap : Text) (f : OperandForm) (opcode : UInt8) (n : Int) :
    Encoded :=
  ⟨m.name, f.mode (takesWord m.name (beforeCore gap f)), opcode,
    operandOf (f.mode (takesWord m.name (beforeCore gap f))) n⟩

theorem ofLine_of_encode (hg : IsGap gap)
    (hop : Opcode.encode m.name (f.mode (takesWord m.name (beforeCore gap f))) = .ok opcode)
    (n : Int) :
    Encoded.ofLine (line m gap f (literal (takesWord m.name (beforeCore gap f)) n))
      = .ok (instruction m gap f opcode n) := by
  rw [ofLine_literal hg, hop, instruction, ← operandBytes_kept (takesWord_of_isWide hop)]
  rfl

theorem ofLine_eq_ok (hg : IsGap gap) {n : Int} {e : Encoded}
    (h : Encoded.ofLine (line m gap f (literal (takesWord m.name (beforeCore gap f)) n)) = .ok e) :
    ∃ opcode, Opcode.encode m.name (f.mode (takesWord m.name (beforeCore gap f))) = .ok opcode
      ∧ e = instruction m gap f opcode n := by
  cases hop : Opcode.encode m.name (f.mode (takesWord m.name (beforeCore gap f))) with
  | error err =>
    rw [ofLine_literal hg, hop] at h
    cases h
  | ok opcode =>
    rw [ofLine_of_encode hg hop] at h
    exact ⟨opcode, rfl, (Except.ok.inj h).symm⟩

end Instruction

/-! ## The names of a line -/

namespace Names

/-- A stretch in which no name begins adds nothing. -/
theorem scan_append_of_not_first {s : Text} (hs : ∀ c ∈ s, isFirst c = false)
    (before : Option Char) (t : Text) : scan before (s ++ t) = scan (lastOr before s) t := by
  induction s generalizing before with
  | nil => rfl
  | cons c s ih =>
    have hlast : lastOr (some c) s = lastOr before (c :: s) := by
      rw [lastOr, lastOr, List.getLast?_cons]
      cases s.getLast? <;> rfl
    rw [List.cons_append, scan, hs c List.mem_cons_self, Bool.and_false, Bool.false_and,
      if_neg (by decide), ih (fun d hd => hs d (List.mem_cons_of_mem c hd)), hlast]

/-- No name begins behind a character that stands in front of none. -/
theorem scan_eq_nil {b : Char} (hb : mayBegin (some b) = false) {t : Text}
    (ht : ∀ c ∈ t, mayBegin (some c) = false) : scan (some b) t = [] := by
  induction t generalizing b with
  | nil => rfl
  | cons c t ih =>
    rw [scan, hb, Bool.false_and, Bool.false_and, if_neg (by decide)]
    exact ih (ht c List.mem_cons_self) fun d hd => ht d (List.mem_cons_of_mem c hd)

theorem mayBegin_of_isSumChar {c : Char} (hc : isSumChar c = true) :
    mayBegin (some c) = false := by
  simp [mayBegin, isBlank_of_isSumChar hc, ne_of_isSumChar hc (d := '(') (by decide),
    ne_of_isSumChar hc (d := '#') (by decide), ne_of_isSumChar hc (d := '*') (by decide)]

/-- An operand that holds a name is not the accumulator. -/
theorem trim_line_ne_accumulator {m : Mnemonic} {gap : Text} {f : OperandForm} (hg : IsGap gap)
    {x tail : Text} (hx : IsName x) (htail : ∀ c ∈ tail, isSumChar c = true) :
    Text.trim ((line m gap f (x ++ tail)).drop operandStart) ≠ ['a'] := by
  intro h
  have hoperand := operand_line (m := m) (f := f) hg (isBlank_of_mem_sum hx.isWord htail)
  rw [Line.operand] at hoperand
  obtain ⟨c, hc, hhex⟩ := hx.notHex
  have hmem : c ∈ f.operand (x ++ tail) := by
    rw [operand]
    simp [hc]
  rw [← hoperand, show 3 = operandStart from rfl, h, List.mem_singleton] at hmem
  rw [hmem] at hhex
  exact absurd hhex (by decide)

/-- What stands behind a name does not go on with it. -/
theorem isFurther_split_closing {tail : Text} (hhead : ∀ c ∈ tail.head?, isFurther c = false)
    (f : OperandForm) :
    (tail ++ f.closing).takeWhile isFurther = []
      ∧ (tail ++ f.closing).dropWhile isFurther = tail ++ f.closing := by
  cases tail with
  | nil => cases f <;> decide
  | cons d tail =>
    have hd : isFurther d = false := hhead d rfl
    rw [List.cons_append, List.takeWhile_cons_of_neg (by simp [hd]),
      List.dropWhile_cons_of_neg (by simp [hd])]
    exact ⟨rfl, rfl⟩

/-- A line that holds one name holds just that, if the name may end where it does. -/
theorem unresolved_line_append {gap : Text} (hg : IsGap gap) {x tail : Text} (hx : IsName x)
    (htail : ∀ c ∈ tail, isSumChar c = true)
    (hhead : ∀ c ∈ tail.head?, isFurther c = false) (m : Mnemonic) (f : OperandForm) :
    unresolved (line m gap f (x ++ tail))
      = if mayEnd (tail ++ f.closing) then [x] else [] := by
  have hlead : ∀ c ∈ gap ++ f.opening, isFirst c = false := by
    intro c hc
    have h := (isFurther_of_mem_lead hg f hc).1
    rw [isFurther, Bool.or_eq_false_iff] at h
    exact h.1
  have hbegin : mayBegin (beforeCore gap f) = true := by
    rw [beforeCore, List.getLast?_eq_some_getLast (lead_ne_nil hg f)]
    exact mayBegin_of_opens (isFurther_of_mem_lead hg f (List.getLast_mem _)).2
  have hdrop : (line m gap f (x ++ tail)).drop operandStart
      = (gap ++ f.opening) ++ (x ++ (tail ++ f.closing)) := by
    rw [operandStart, drop_three_line, operand]
    simp only [List.append_assoc]
  have haccumulator := trim_line_ne_accumulator (m := m) (f := f) hg hx htail
  have hrest := isFurther_split_closing hhead f
  have hclosing : ∀ c ∈ f.closing, mayBegin (some c) = false := by
    cases f <;> decide
  rw [unresolved, if_neg haccumulator, hdrop, scan_append_of_not_first hlead, lastOr,
    List.getLast?_eq_some_getLast (lead_ne_nil hg f), Option.some_or,
    ← List.getLast?_eq_some_getLast (lead_ne_nil hg f), ← beforeCore]
  obtain ⟨c, t, rfl⟩ := List.exists_cons_of_ne_nil hx.isWord.1
  have ht : ∀ d ∈ t, isFurther d = true := fun d hd => hx.isWord.2 d (List.mem_cons_of_mem c hd)
  have hbehind : scan (some c) (t ++ (tail ++ f.closing)) = [] := by
    refine scan_eq_nil (mayBegin_of_isFurther (hx.isWord.2 c List.mem_cons_self)) ?_
    intro d hd
    rcases List.mem_append.mp hd with hd | hd
    · exact mayBegin_of_isFurther (ht d hd)
    · rcases List.mem_append.mp hd with hd | hd
      · exact mayBegin_of_isSumChar (htail d hd)
      · exact hclosing d hd
  rw [List.cons_append, scan, hbegin, hx.first c (by simp), List.dropWhile_append_of_pos ht,
    List.takeWhile_append_of_pos ht, hrest.1, hrest.2, List.append_nil, hbehind, Bool.and_self,
    Bool.true_and]

theorem mayEnd_of_isAddend {tail : Text} (htail : IsAddend tail) (f : OperandForm) :
    mayEnd (tail ++ f.closing) = true := by
  have hhead := htail.head_closing f
  cases h : tail ++ f.closing with
  | nil => rfl
  | cons c t =>
    rw [h] at hhead
    rcases hhead c rfl with rfl | rfl | rfl | rfl <;> rfl

theorem unresolved_line_of_isAddend {gap : Text} (hg : IsGap gap) {x tail : Text} (hx : IsName x)
    (htail : IsAddend tail) (m : Mnemonic) (f : OperandForm) :
    unresolved (line m gap f (x ++ tail)) = [x] := by
  have hhead : ∀ c ∈ tail.head?, isFurther c = false := by
    intro c hc
    rcases htail.head c hc with rfl | rfl <;> decide
  rw [unresolved_line_append hg hx htail.mem hhead, if_pos (mayEnd_of_isAddend htail f)]

theorem holdPlace_line {gap : Text} (hg : IsGap gap) {x tail : Text} (hx : IsWord x)
    (htail : IsAddend tail) {m : Mnemonic} {f : OperandForm} {b : LineBuffer}
    (hb : b.text = line m gap f (x ++ tail)) :
    holdPlace b x =
      (b.splice (corePosition gap f) x.length
        (literal (takesWord m.name (beforeCore gap f)) 0)).bind
          fun b' => .ok (b', some (corePosition gap f)) := by
  have hfind : Token.find? b.text x operandStart = some (corePosition gap f) := by
    rw [hb, find?_line_append hg (hx.beginsOutside hg f) htail]
  have hbefore : before? b.text (corePosition gap f) = beforeCore gap f := by
    rw [hb, before?_line hg]
  have htake : b.text.take 3 = m.name := by
    rw [hb, take_three_line]
  rw [holdPlace, hfind]
  simp only [htake, hbefore, placeholder_eq]
  rfl

end Names

/-! ## The instruction of a line -/

namespace Statement

section Steps

variable {c : Context} {text : Text} {address : Int} {number : Nat} {b : LineBuffer}

theorem assemble_of_resolve_error {e : Failure}
    (hresolve : resolve c (bufferFor c text number) address = .error e) :
    (assemble c text address number).outcome = .error e := by
  rw [assemble, hresolve]
  rfl

theorem assemble_of_fold_error {e : Failure}
    (hresolve : resolve c (bufferFor c text number) address = .ok b)
    (hfold : Arithmetic.fold b = .error e) :
    (assemble c text address number).outcome = .error e := by
  rw [assemble, hresolve]
  simp only [Logged.ofExcept, Logged.bind_ok, hfold, Logged.bind_error]

section Folded

variable {b₁ : LineBuffer} {folded : Bool}
  (hresolve : resolve c (bufferFor c text number) address = .ok b)
  (hfold : Arithmetic.fold b = .ok (b₁, folded))
include hresolve hfold

/-- A line that holds a plain number once its names are replaced and its sum is folded. -/
theorem assemble_of_plain (hplain : Literal.isPlain (Line.operand b₁.text) = true) :
    (assemble c text address number).outcome = (Encoded.ofLine b₁.text).map fun e => (e, []) := by
  rw [assemble, hresolve]
  simp only [Logged.ofExcept, Logged.bind_ok, hfold, deferNames, hplain, if_true, Logged.ok,
    Logged.say]
  cases Encoded.ofLine b₁.text <;> rfl

/-- A line that holds neither a plain number nor a name. -/
theorem assemble_of_no_names (hplain : Literal.isPlain (Line.operand b₁.text) = false)
    (hnames : Names.unresolved b₁.text = []) :
    (assemble c text address number).outcome
      = .error (.reading (.badOperand (Line.operand b₁.text))) := by
  have hunknown : unknownNames c b₁.text = [] := by
    rw [unknownNames, hnames, List.filter_nil]
  rw [assemble, hresolve]
  simp only [Logged.ofExcept, Logged.bind_ok, hfold, deferNames, hplain, hunknown,
    Bool.false_eq_true, if_false, List.isEmpty_nil, Bool.not_true, Bool.and_false, Bool.not_false,
    if_true, Logged.fail, Logged.bind_error]

/-- A line in which one name is left that no table defines. -/
theorem assemble_of_unknown (hallow : c.allowUnresolved = true)
    (hplain : Literal.isPlain (Line.operand b₁.text) = false) {x : Text}
    (hnames : unknownNames c b₁.text = [x]) {i : Nat} {held : Except Failure LineBuffer}
    (hhold : Names.holdPlace b₁ x = held.bind fun b' => .ok (b', some i)) :
    (assemble c text address number).outcome =
      held.bind fun b' => (Arithmetic.fold b').bind fun p =>
        (Encoded.ofLine p.1.text).map fun e => (e, [x]) := by
  rw [assemble, hresolve]
  simp only [Logged.ofExcept, Logged.bind_ok, hfold, deferNames, hplain, hnames, hallow,
    Bool.false_eq_true, if_false, List.isEmpty_cons, Bool.not_false, Bool.and_self, Bool.not_true,
    holdPlaces, hhold]
  cases held with
  | error e => rfl
  | ok b' =>
    simp only [Except.bind, Logged.say, Logged.ok, Logged.pure_eq, Logged.bind_ok]
    cases Arithmetic.fold b' with
    | error e => rfl
    | ok p =>
      simp only [Logged.bind_ok]
      cases Encoded.ofLine p.1.text <;> rfl

end Folded

/-- A line without names and sums is encoded as it is. -/
theorem assemble_of_absent (habsent : Names.Absent c.symbols.symbols text)
    (hunsigned : Arithmetic.Unsigned (text.drop operandStart))
    (hplain : Literal.isPlain (Line.operand text) = true) (address : Int) (number : Nat) :
    (assemble c text address number).outcome = (Encoded.ofLine text).map fun e => (e, []) :=
  assemble_of_plain (b := bufferFor c text number) (resolve_of_absent habsent address)
    (Arithmetic.fold_of_unsigned hunsigned) hplain

end Steps

section Forms

variable {m : Mnemonic} {gap : Text} {f : OperandForm} {c : Context}

/-- A line that holds a literal is encoded as it is. -/
theorem assemble_literal_line (hg : IsGap gap) {word : Bool} {n : Int}
    (habsent : Names.Absent c.symbols.symbols (line m gap f (literal word n))) (address : Int)
    (number : Nat) :
    (assemble c (line m gap f (literal word n)) address number).outcome
      = (Encoded.ofLine (line m gap f (literal word n))).map fun e => (e, []) :=
  assemble_of_absent habsent
    (Arithmetic.unsigned_line hg (Arithmetic.unsigned_literal word n) m f)
    (isPlain_line_literal hg m f word n) address number

/-- A line that holds a name of the table is encoded with the literal of the symbol in
its place. -/
theorem assemble_known_line (hg : IsGap gap) {x : Text}
    (hx : BeginsOutside x (gap ++ f.opening)) {s : Symbol} {above below : List Symbol}
    (hsymbols : c.symbols.symbols = above ++ s :: below) (hs : s.name = x) {address : Int}
    (habove : Names.Absent above (line m gap f x))
    (hbelow : ∀ t, Replacement.text m.name (beforeCore gap f) s.address address x = .ok t →
      Names.Absent below (line m gap f t)) (number : Nat) :
    (assemble c (line m gap f x) address number).outcome =
      (Replacement.text m.name (beforeCore gap f) s.address address x).bind fun t =>
        ((bufferFor c (line m gap f x) number).splice (corePosition gap f) x.length t).bind
          fun _ => (Encoded.ofLine (line m gap f t)).map fun e => (e, []) := by
  have hresolve := resolve_line (b := bufferFor c (line m gap f x) number) hg hx rfl hsymbols hs
    habove hbelow
  cases ht : Replacement.text m.name (beforeCore gap f) s.address address x with
  | error e =>
    rw [ht] at hresolve
    exact assemble_of_resolve_error hresolve
  | ok t =>
    rw [ht] at hresolve
    change _ = Except.bind (LineBuffer.splice _ _ _ t) _
    cases hsplice :
      (bufferFor c (line m gap f x) number).splice (corePosition gap f) x.length t with
    | error e =>
      exact assemble_of_resolve_error (hresolve.trans hsplice)
    | ok b =>
      have hb := text_of_splice_line (b := bufferFor c (line m gap f x) number) rfl hsplice
      obtain ⟨n, rfl⟩ := exists_literal_of_text ht
      rw [assemble_of_plain (hresolve.trans hsplice), hb]
      · rfl
      · refine Arithmetic.fold_of_unsigned ?_
        rw [hb]
        exact Arithmetic.unsigned_line hg (Arithmetic.unsigned_literal _ n) m f
      · rw [hb]
        exact isPlain_line_literal hg m f _ n

/-- A line that holds a name no table defines is encoded with a zero in its place, and
the name is left to the linker. -/
theorem assemble_unknown_line (hg : IsGap gap) {x : Text} (hx : IsName x)
    (hallow : c.allowUnresolved = true) (hfind : c.symbols.find? x = none)
    (habsent : Names.Absent c.symbols.symbols (line m gap f x)) (address : Int) (number : Nat) :
    (assemble c (line m gap f x) address number).outcome =
      ((bufferFor c (line m gap f x) number).splice (corePosition gap f) x.length
        (literal (takesWord m.name (beforeCore gap f)) 0)).bind fun _ =>
          (Encoded.ofLine (line m gap f (literal (takesWord m.name (beforeCore gap f)) 0))).map
            fun e => (e, [x]) := by
  have hnames : unknownNames c (line m gap f x) = [x] := by
    have hunresolved := Names.unresolved_line_of_isAddend hg hx isAddend_nil m f
    rw [List.append_nil] at hunresolved
    rw [unknownNames, hunresolved, List.filter_cons, SymbolTable.contains, hfind]
    rfl
  have htext : ∀ b', (bufferFor c (line m gap f x) number).splice (corePosition gap f) x.length
      (literal (takesWord m.name (beforeCore gap f)) 0) = .ok b' →
      b'.text = line m gap f (literal (takesWord m.name (beforeCore gap f)) 0) :=
    fun b' h => text_of_splice_line (b := bufferFor c (line m gap f x) number) rfl h
  have hresolve : resolve c (bufferFor c (line m gap f x) number) address
      = .ok (bufferFor c (line m gap f x) number) := resolve_of_absent habsent address
  have hfold := Arithmetic.fold_of_unsigned (b := bufferFor c (line m gap f x) number)
    (Arithmetic.unsigned_line hg (Arithmetic.unsigned_of_isWord hx.isWord) m f)
  have hplain : Literal.isPlain (Line.operand (line m gap f x)) = false := by
    have hname := isPlain_operand_name f hx isAddend_nil.mem
    rwa [List.append_nil, ← operand_line hg (isBlank_of_mem_word hx.isWord)] at hname
  have hhold := Names.holdPlace_line (m := m) (f := f) (b := bufferFor c (line m gap f x) number) hg
    hx.isWord isAddend_nil (by rw [List.append_nil]; rfl)
  rw [assemble_of_unknown hresolve hfold hallow hplain hnames hhold]
  cases hsplice : (bufferFor c (line m gap f x) number).splice (corePosition gap f) x.length
      (literal (takesWord m.name (beforeCore gap f)) 0) with
  | error e => rfl
  | ok b' =>
    have hb' := htext b' hsplice
    have hunsigned : Arithmetic.Unsigned (b'.text.drop operandStart) := by
      rw [hb']
      exact Arithmetic.unsigned_line hg (Arithmetic.unsigned_literal _ 0) m f
    rw [Except.bind, Except.bind, Arithmetic.fold_of_unsigned hunsigned, Except.bind, hb']

end Forms

end Statement

end Cross6502
