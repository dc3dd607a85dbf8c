import Cross6502.Proofs.Assembly.NamedLine
import Cross6502.Proofs.Outcome
import Cross6502.Proofs.Substitution.Sum
import Mathlib.Data.List.DropRight

/-!
# Assembling a line that holds a name and an addend

The instruction of a line in which a sign and a literal stand behind a name, for every
mnemonic that is no branch.  What happens to the sum depends on the name.

* A name of the table: its literal is folded with the addend (`assemble_folded_sum`), and
  the operand is the sum (`assemble_known_sum`).
* A name that no table defines and that does not end in a digit: the zero that holds its
  place is folded with the addend, so the operand is the addend alone, and the name is left
  to the linker (`assemble_unknown_sum`).
* A name that no table defines and that ends in a digit: the sum is folded before names are
  looked for, and takes the digits for its left side.  What is left is no name, and the line
  is refused (`assemble_unknown_digit_sum`).

Folding may widen a literal.  Outside branches this changes no mode: where the mode depends
on the width, the place of the name takes a word from the start (`mode_or`).
-/

namespace Cross6502

open OperandForm Token Replacement Arithmetic

/-! ## Sums modulo the width of the operand -/

/-- The sum or the difference. -/
def summed (minus : Bool) (a b : Int) : Int := if minus then a - b else a + b

/-- Operands of the mode hold numbers modulo this one. -/
def Mode.modulus (mode : Mode) : Int := if mode.isWide then 65536 else 256

theorem lowByte_eq_iff (a b : Int) : lowByte a = lowByte b ↔ (256 : Int) ∣ a - b := by
  rw [lowByte, lowByte, ← UInt8.toNat_inj, UInt8.toNat_ofNat', UInt8.toNat_ofNat']
  omega

/-- Two numbers have one operand if they agree in as many bytes as the operand has. -/
theorem operandOf_eq_iff (mode : Mode) (a b : Int) :
    operandOf mode a = operandOf mode b
      ↔ mode.modulus ∣ a - b := by
  rw [operandOf, operandOf, Mode.modulus]
  cases mode.isWide with
  | false => simp [lowByte_eq_iff]
  | true =>
    simp only [if_true, List.cons.injEq, and_true, highByte, lowByte_eq_iff]
    omega

/-- No operand has room for more than two bytes. -/
theorem operandOf_emod (mode : Mode) (n : Int) :
    operandOf mode (n % 65536) = operandOf mode n := by
  rw [operandOf_eq_iff, Mode.modulus]
  split <;> omega

/-- An addend leaves the operand as it is if the operand has no room for it. -/
theorem operandOf_summed_iff (mode : Mode) (minus : Bool) (a b : Int) :
    operandOf mode (summed minus a b) = operandOf mode a
      ↔ mode.modulus ∣ b := by
  rw [operandOf_eq_iff]
  cases minus with
  | false =>
    have hdifference : summed false a b - a = b := by
      simp only [summed, Bool.false_eq_true, if_false]
      omega
    rw [hdifference]
  | true =>
    have hdifference : summed true a b - a = -b := by
      simp only [summed, if_true]
      omega
    rw [hdifference, Int.dvd_neg]

/-- The folded sum is the sum, as far as the literal on its left goes. -/
theorem operandOf_total {mode : Mode} {word : Bool} (hwide : mode.isWide = true → word = true)
    (minus : Bool) (v : Int) (k : Nat) :
    operandOf mode (total minus (kept word v) k : Int) = operandOf mode (summed minus v k) := by
  rw [operandOf_eq_iff, Mode.modulus, total, summed, kept]
  cases hmode : mode.isWide with
  | false =>
    cases word <;> cases minus <;>
      simp only [if_true, if_false, Bool.false_eq_true] <;> omega
  | true =>
    rw [hwide hmode]
    cases minus <;> simp only [if_true, if_false, Bool.false_eq_true] <;> omega

/-! ## The instruction of a line that holds a folded sum -/

section Folded

variable {m : Mnemonic} {gap : Text} {f : OperandForm}

/-- Where the place of the name takes one byte, the mode does not depend on the width. -/
theorem mode_or (hg : IsGap gap) (hbranch : Mnemonic.isBranchText m.name = false) (wide : Bool) :
    f.mode (takesWord m.name (beforeCore gap f) || wide)
      = f.mode (takesWord m.name (beforeCore gap f)) := by
  have hblank : f.opening = [] → takesWord m.name (beforeCore gap f) = true := by
    intro hopening
    rw [takesWord_of_opening_eq_nil hg hopening, ← Opcode.isBranchText_name, hbranch]
    rfl
  cases f with
  | plain => rw [hblank rfl, Bool.true_or]
  | plainX => rw [hblank rfl, Bool.true_or]
  | plainY => rw [hblank rfl, Bool.true_or]
  | _ => rfl

/-- A line that holds a folded sum is encoded with the sum. -/
theorem ofLine_folded (hg : IsGap gap) (hbranch : Mnemonic.isBranchText m.name = false)
    (minus : Bool) (v : Int) (r : Literal) :
    Encoded.ofLine
        (line m gap f (folded minus (takesWord m.name (beforeCore gap f)) v r)) =
      (Opcode.encode m.name (f.mode (takesWord m.name (beforeCore gap f)))).map fun opcode =>
        instruction m gap f opcode (summed minus v r.value) := by
  rw [folded, ofLine_literal hg, Bool.or_assoc, mode_or hg hbranch]
  cases hop : Opcode.encode m.name (f.mode (takesWord m.name (beforeCore gap f))) with
  | error e => rfl
  | ok opcode =>
    have hwide := takesWord_of_isWide hop
    have hbytes : ∀ (wide : Bool) (k : Int),
        Encoded.operandBytes (f.mode (takesWord m.name (beforeCore gap f))).length
            ⟨kept (takesWord m.name (beforeCore gap f) || wide) k,
              takesWord m.name (beforeCore gap f) || wide⟩
          = operandOf (f.mode (takesWord m.name (beforeCore gap f))) k := by
      intro wide k
      rw [← mode_or hg hbranch wide]
      refine operandBytes_kept (fun h => ?_) k
      rw [mode_or hg hbranch] at h
      rw [hwide h, Bool.true_or]
    rw [Except.map, Except.map, hbytes, operandOf_total hwide, instruction]

end Folded

/-- The text ends in a decimal digit. -/
def EndsInDigit (x : Text) : Prop := ∃ d ∈ x.getLast?, d.isDigit = true

theorem not_endsInDigit_iff {x : Text} :
    ¬ EndsInDigit x ↔ ∀ d ∈ x.getLast?, d.isDigit = false := by
  simp [EndsInDigit]

namespace Statement

/-! ## The instruction of a line that holds a sum -/

section Forms

variable {m : Mnemonic} {gap : Text} {f : OperandForm} {c : Context} {x n : Text} {minus : Bool}

/-- A name of the table in front of an addend: the literal that takes its place is folded
with the addend. -/
theorem assemble_folded_sum (hg : IsGap gap) (hx : BeginsOutside x (gap ++ f.opening))
    (hn : IsLiteral n) {s : Symbol} {above below : List Symbol}
    (hsymbols : c.symbols.symbols = above ++ s :: below) (hs : s.name = x)
    (habove : Names.Absent above (line m gap f (x ++ signOf minus :: n))) {address : Int}
    {word : Bool} {v : Int}
    (htext : text m.name (beforeCore gap f) s.address address x = .ok (literal word v))
    (hbelow : Names.Absent below (line m gap f (literal word v ++ signOf minus :: n)))
    (number : Nat) :
    (assemble c (line m gap f (x ++ signOf minus :: n)) address number).outcome =
      ((bufferFor c (line m gap f (x ++ signOf minus :: n)) number).splice (corePosition gap f)
        x.length (literal word v)).bind fun _ =>
          (Literal.read n).bind fun r =>
            (Encoded.ofLine (line m gap f (folded minus word v r))).map fun e => (e, []) := by
  have hbelow' : ∀ t, text m.name (beforeCore gap f) s.address address x = .ok t →
      Names.Absent below (line m gap f (t ++ signOf minus :: n)) := by
    intro t ht
    rw [htext] at ht
    exact Except.ok.inj ht ▸ hbelow
  have hresolve := resolve_line_append
    (b := bufferFor c (line m gap f (x ++ signOf minus :: n)) number) hg hx
    (isAddend_of_isLiteral hn minus) rfl hsymbols hs habove hbelow'
  rw [htext] at hresolve
  cases hsplice : (bufferFor c (line m gap f (x ++ signOf minus :: n)) number).splice
      (corePosition gap f) x.length (literal word v) with
  | error e => exact assemble_of_resolve_error (hresolve.trans hsplice)
  | ok b =>
    have hb := text_of_splice_line_append
      (b := bufferFor c (line m gap f (x ++ signOf minus :: n)) number) rfl hsplice
    have hfold := fold_literal_line hg hn hb
    cases hread : Literal.read n with
    | error e =>
      rw [hread] at hfold
      exact assemble_of_fold_error (hresolve.trans hsplice) hfold
    | ok r =>
      rw [hread] at hfold
      rw [assemble_of_plain (hresolve.trans hsplice) hfold (isPlain_line_literal hg m f _ _)]
      rfl

/-- Outside branches the operand is the sum. -/
theorem assemble_known_sum (hg : IsGap gap) (hx : BeginsOutside x (gap ++ f.opening))
    (hn : IsLiteral n) (hbranch : Mnemonic.isBranchText m.name = false) {s : Symbol}
    {above below : List Symbol} (hsymbols : c.symbols.symbols = above ++ s :: below)
    (hs : s.name = x) (habove : Names.Absent above (line m gap f (x ++ signOf minus :: n)))
    (hbelow : Names.Absent below (line m gap f
      (literal (takesWord m.name (beforeCore gap f)) s.address ++ signOf minus :: n)))
    (address : Int) (number : Nat) :
    (assemble c (line m gap f (x ++ signOf minus :: n)) address number).outcome =
      ((bufferFor c (line m gap f (x ++ signOf minus :: n)) number).splice (corePosition gap f)
        x.length (literal (takesWord m.name (beforeCore gap f)) s.address)).bind fun _ =>
          (Literal.read n).bind fun r =>
            (Opcode.encode m.name (f.mode (takesWord m.name (beforeCore gap f)))).map
              fun opcode => (instruction m gap f opcode (summed minus s.address r.value), []) := by
  rw [assemble_folded_sum hg hx hn hsymbols hs habove
    (text_of_not_branch hbranch (beforeCore gap f) s.address address x) hbelow]
  simp only [ofLine_folded hg hbranch]
  cases Opcode.encode m.name (f.mode (takesWord m.name (beforeCore gap f))) <;> rfl

/-- A name that no table defines in front of an addend: the operand is the addend, and the
name is left to the linker. -/
theorem assemble_unknown_sum (hg : IsGap gap) (hx : IsName x)
    (hlast : ¬ EndsInDigit x) (hn : IsLiteral n)
    (hbranch : Mnemonic.isBranchText m.name = false) (hallow : c.allowUnresolved = true)
    (hfind : c.symbols.find? x = none)
    (habsent : Names.Absent c.symbols.symbols (line m gap f (x ++ signOf minus :: n)))
    (address : Int) (number : Nat) :
    (assemble c (line m gap f (x ++ signOf minus :: n)) address number).outcome =
      ((bufferFor c (line m gap f (x ++ signOf minus :: n)) number).splice (corePosition gap f)
        x.length (literal (takesWord m.name (beforeCore gap f)) 0)).bind fun _ =>
          (Literal.read n).bind fun r =>
            (Opcode.encode m.name (f.mode (takesWord m.name (beforeCore gap f)))).map
              fun opcode => (instruction m gap f opcode (summed minus 0 r.value), [x]) := by
  have haddend := isAddend_of_isLiteral hn minus
  have hnames : unknownNames c (line m gap f (x ++ signOf minus :: n)) = [x] := by
    rw [unknownNames, Names.unresolved_line_of_isAddend hg hx haddend, List.filter_cons,
      SymbolTable.contains, hfind]
    rfl
  have hplain : Literal.isPlain (Line.operand (line m gap f (x ++ signOf minus :: n))) = false := by
    rw [operand_line hg (isBlank_of_mem_sum hx.isWord haddend.mem)]
    exact isPlain_operand_name f hx haddend.mem
  have hfold := fold_name_line
    (b := bufferFor c (line m gap f (x ++ signOf minus :: n)) number) hg hx.isWord
    (not_endsInDigit_iff.mp hlast) hn rfl
  have hhold := Names.holdPlace_line
    (b := bufferFor c (line m gap f (x ++ signOf minus :: n)) number) hg hx.isWord haddend rfl
  rw [assemble_of_unknown (resolve_of_absent habsent address) hfold hallow hplain hnames hhold]
  cases hsplice : (bufferFor c (line m gap f (x ++ signOf minus :: n)) number).splice
      (corePosition gap f) x.length (literal (takesWord m.name (beforeCore gap f)) 0) with
  | error e => rfl
  | ok b =>
    have hb := text_of_splice_line_append
      (b := bufferFor c (line m gap f (x ++ signOf minus :: n)) number) rfl hsplice
    simp only [Except.bind, fold_literal_line hg hn hb]
    cases Literal.read n with
    | error e => rfl
    | ok r =>
      simp only [Except.map, ofLine_folded hg hbranch]
      cases Opcode.encode m.name (f.mode (takesWord m.name (beforeCore gap f))) <;> rfl

/-! ## Names that end in a digit -/

/-- A name that ends in a digit is a shorter name with a literal behind it. -/
theorem exists_digits_of_name (hx : IsName x) (hlast : EndsInDigit x) :
    ∃ y ds, x = y ++ ds ∧ IsName y ∧ (∀ d ∈ y.getLast?, d.isDigit = false) ∧ IsLiteral ds := by
  have hsplit : x.rdropWhile Char.isDigit ++ x.rtakeWhile Char.isDigit = x :=
    List.rdropWhile_append_rtakeWhile
  have hfront := List.rdropWhile_prefix Char.isDigit (l := x)
  -- digits are hexadecimal digits, so the character that is none stands in front of them
  have hnotHex : ∃ d ∈ x.rdropWhile Char.isDigit, Literal.isHexDigit d = false := by
    obtain ⟨d, hd, hhex⟩ := hx.notHex
    refine ⟨d, ?_, hhex⟩
    rw [← hsplit] at hd
    refine (List.mem_append.mp hd).resolve_right fun hd => ?_
    rw [Literal.isHexDigit, List.mem_rtakeWhile_imp hd] at hhex
    cases hhex
  have hne : x.rdropWhile Char.isDigit ≠ [] := by
    obtain ⟨d, hd, -⟩ := hnotHex
    exact List.ne_nil_of_mem hd
  refine ⟨x.rdropWhile Char.isDigit, x.rtakeWhile Char.isDigit, hsplit.symm,
    ⟨⟨hne, fun d hd => hx.isWord.2 d (hfront.subset hd)⟩, fun d hd => ?_, hnotHex⟩,
    fun d hd => ?_, .decimal ?_ fun d hd => List.mem_rtakeWhile_imp hd⟩
  · refine hx.first d ?_
    rw [← hsplit, List.head?_append, Option.mem_def.mp hd]
    rfl
  · rw [List.getLast?_eq_some_getLast hne, Option.mem_some] at hd
    subst hd
    exact Bool.eq_false_iff.mpr (List.rdropWhile_last_not Char.isDigit x hne)
  · obtain ⟨d, hd, hdigit⟩ := hlast
    intro hnil
    rw [List.getLast?_eq_some_getLast hx.isWord.1, Option.mem_some] at hd
    exact List.rtakeWhile_eq_nil_iff.mp hnil hx.isWord.1 (hd ▸ hdigit)

/-- A literal right behind a name is neither a number with it nor the end of a name. -/
theorem assemble_of_glued (hg : IsGap gap) (hx : IsName x) {text : Text} {address : Int}
    {number : Nat} {b b' : LineBuffer} {word folded : Bool} {k : Int}
    (hresolve : resolve c (bufferFor c text number) address = .ok b)
    (hfold : fold b = .ok (b', folded)) (hb' : b'.text = line m gap f (x ++ literal word k)) :
    (assemble c text address number).outcome
      = .error (.reading (.badOperand (f.operand (x ++ literal word k)))) := by
  have hsum := (isLiteral_literal word k).isSumChar_of_mem
  have hoperand : Line.operand b'.text = f.operand (x ++ literal word k) := by
    rw [hb', operand_line hg (isBlank_of_mem_sum hx.isWord hsum)]
  have hnames : Names.unresolved b'.text = [] := by
    rw [hb', Names.unresolved_line_append hg hx hsum]
    · rw [literal_eq]
      rfl
    · intro d hd
      rw [literal_eq, List.head?_cons, Option.mem_some] at hd
      rw [← hd]
      decide
  rw [← hoperand]
  refine assemble_of_no_names hresolve hfold ?_ hnames
  rw [hoperand]
  exact isPlain_operand_name f hx hsum

/-- A name that no table defines and that ends in a digit cannot have an addend. -/
theorem assemble_unknown_digit_sum (hg : IsGap gap) (hx : IsName x)
    (hlast : EndsInDigit x) (hn : IsLiteral n)
    (habsent : Names.Absent c.symbols.symbols (line m gap f (x ++ signOf minus :: n)))
    (address : Int) (number : Nat) :
    ∃ e, (assemble c (line m gap f (x ++ signOf minus :: n)) address number).outcome
      = .error e := by
  obtain ⟨y, ds, rfl, hy, hylast, hds⟩ := exists_digits_of_name hx hlast
  rw [List.append_assoc] at habsent ⊢
  have hresolve := resolve_of_absent
    (b := bufferFor c (line m gap f (y ++ (ds ++ signOf minus :: n))) number) habsent address
  have hfold := fold_sum_line
    (b := bufferFor c (line m gap f (y ++ (ds ++ signOf minus :: n))) number) hg hy.isWord.2 hylast
    hds hn rfl
  cases h : fold (bufferFor c (line m gap f (y ++ (ds ++ signOf minus :: n))) number) with
  | error e => exact ⟨e, assemble_of_fold_error hresolve h⟩
  | ok p =>
    rw [h] at hfold
    obtain ⟨left, -, hfold⟩ := Outcome.bind_eq_ok_iff.mp hfold.symm
    obtain ⟨right, -, hfold⟩ := Outcome.bind_eq_ok_iff.mp hfold
    obtain ⟨b', hsplice, hfold⟩ := Outcome.bind_eq_ok_iff.mp hfold
    cases hfold
    rw [splice_behind rfl, resultText_eq_literal _ _ (total_lt _ _ _)] at hsplice
    split at hsplice
    · cases hsplice
    · cases hsplice
      exact ⟨_, assemble_of_glued hg hy hresolve h rfl⟩

end Forms

end Statement

end Cross6502
