import Cross6502.Literal
import Cross6502.Substitution.Arithmetic
import Mathlib.Algebra.Group.Nat.Defs

/-!
# Digits that were written

Numbers are printed by `Nat.toDigits` and read by folding over the characters.  A
reader sees characters and not digits, so each fact it needs is a fact about one
character: which class it belongs to and what it is worth.  `mem_toDigits` turns a
character of a printed number into a digit below the base, and the rest of the file
decides the question for the sixteen digits there are.

The literals that the assembler writes itself have two or four places, and it tells
them apart by counting; `length_lowerHex` is the count.

Which characters are digits of a base is told by their code points, for each of the four
bases that a literal can have.
-/

namespace Cross6502

namespace Text

/-! ## Characters of a printed number -/

/-- A character of a printed number is a digit below the base. -/
theorem mem_toDigits {b n : Nat} (hb : 1 < b) {c : Char} (hc : c ∈ Nat.toDigits b n) :
    ∃ d, d < b ∧ c = Nat.digitChar d := by
  induction n using Nat.base_induction b hb with
  | single m hm =>
    rw [Nat.toDigits_of_lt_base hm, List.mem_singleton] at hc
    exact ⟨m, hm, hc⟩
  | digit m k hk hm ih =>
    rw [← Nat.toDigits_append_toDigits hb hm hk, List.mem_append] at hc
    rcases hc with hc | hc
    · exact ih hc
    · rw [Nat.toDigits_of_lt_base hk, List.mem_singleton] at hc
      exact ⟨k, hk, hc⟩

theorem isLowerHexDigit_digitChar :
    ∀ d, d < 16 → Arithmetic.isLowerHexDigit (Nat.digitChar d) = true := by
  decide

theorem hexDigitValue_digitChar : ∀ d, d < 16 → Literal.hexDigitValue (Nat.digitChar d) = d := by
  decide

theorem isLowerHexDigit_of_mem_toDigits {n : Nat} {c : Char} (hc : c ∈ Nat.toDigits 16 n) :
    Arithmetic.isLowerHexDigit c = true := by
  obtain ⟨d, hd, rfl⟩ := mem_toDigits (by decide) hc
  exact isLowerHexDigit_digitChar d hd

/-- Every character of a number printed in lower-case hexadecimal is such a digit,
the zeros in front included. -/
theorem isLowerHexDigit_of_mem_lowerHex {width n : Nat} {c : Char}
    (hc : c ∈ lowerHex width (n : Int)) : Arithmetic.isLowerHexDigit c = true := by
  have hn : ¬ ((n : Int) < 0) := by omega
  rw [lowerHex, if_neg hn, padLeft, List.mem_append] at hc
  rcases hc with hc | hc
  · rw [List.eq_of_mem_replicate hc]
    decide
  · exact isLowerHexDigit_of_mem_toDigits hc

/-! ## The value of a printed number -/

theorem digitsValue_append (base : Nat) (s t : Text) :
    Literal.digitsValue base (s ++ t)
      = t.foldl (fun n c => n * base + Literal.hexDigitValue c) (Literal.digitsValue base s) := by
  rw [Literal.digitsValue, List.foldl_append]
  rfl

theorem digitsValue_toDigits {b : Nat} (hb : 1 < b) (hb' : b ≤ 16) (n : Nat) :
    Literal.digitsValue b (Nat.toDigits b n) = n := by
  induction n using Nat.base_induction b hb with
  | single m hm =>
    rw [Nat.toDigits_of_lt_base hm]
    simp [Literal.digitsValue, hexDigitValue_digitChar m (Nat.lt_of_lt_of_le hm hb')]
  | digit m k hk hm ih =>
    rw [← Nat.toDigits_append_toDigits hb hm hk, digitsValue_append, ih,
      Nat.toDigits_of_lt_base hk, List.foldl_cons, List.foldl_nil,
      hexDigitValue_digitChar k (Nat.lt_of_lt_of_le hk hb'), Nat.mul_comm]

/-- A decimal numeral is the number that was printed, and no other. -/
theorem decimal_natCast (n : Nat) : decimal (n : Int) = Nat.toDigits 10 n := by
  rw [decimal, if_neg (by omega), Int.natAbs_natCast]

theorem decimal_natCast_inj {m n : Nat} (h : decimal (m : Int) = decimal (n : Int)) : m = n := by
  rw [decimal_natCast, decimal_natCast] at h
  have hm := digitsValue_toDigits (b := 10) (by decide) (by decide) m
  rw [h, digitsValue_toDigits (by decide) (by decide)] at hm
  exact hm.symm

theorem digitsValue_replicate_zero (k : Nat) :
    Literal.digitsValue 16 (List.replicate k '0') = 0 := by
  induction k with
  | zero => rfl
  | succ k ih =>
    rw [List.replicate_succ', digitsValue_append, ih]
    decide

/-- A number printed in hexadecimal is worth what was printed. -/
theorem digitsValue_lowerHex (width n : Nat) :
    Literal.digitsValue 16 (lowerHex width (n : Int)) = n := by
  have hn : ¬ ((n : Int) < 0) := by omega
  rw [lowerHex, if_neg hn, padLeft, digitsValue_append, digitsValue_replicate_zero,
    Int.natAbs_natCast]
  exact digitsValue_toDigits (by decide) (by decide) n

/-! ## The places of a literal -/

theorem length_lowerHex {width n : Nat} (hw : 0 < width) (hn : n < 16 ^ width) :
    (lowerHex width (n : Int)).length = width := by
  have hneg : ¬ ((n : Int) < 0) := by omega
  have hlen : (Nat.toDigits 16 n).length ≤ width :=
    (Nat.length_toDigits_le_iff (by decide) hw).mpr hn
  rw [lowerHex, if_neg hneg, length_padLeft, Int.natAbs_natCast]
  omega

end Text

/-! ## Digits of a base -/

namespace Literal

variable {base : Nat} {c : Char}

theorem splitSign_of_unsigned {t : Text} (ht : ∀ c ∈ t.head?, c ≠ '-' ∧ c ≠ '+') :
    splitSign t = (1, t) := by
  rw [splitSign.eq_3]
  · rintro u rfl
    exact (ht '-' rfl).1 rfl
  · rintro u rfl
    exact (ht '+' rfl).2 rfl

theorem isHexDigit_iff : isHexDigit c = true ↔ (48 ≤ c.toNat ∧ c.toNat ≤ 57)
    ∨ (97 ≤ c.toNat ∧ c.toNat ≤ 102) ∨ (65 ≤ c.toNat ∧ c.toNat ≤ 70) := by
  have ha : 'a' ≤ c ↔ 97 ≤ c.toNat := UInt32.le_iff_toNat_le
  have hf : c ≤ 'f' ↔ c.toNat ≤ 102 := UInt32.le_iff_toNat_le
  have hA : 'A' ≤ c ↔ 65 ≤ c.toNat := UInt32.le_iff_toNat_le
  have hF : c ≤ 'F' ↔ c.toNat ≤ 70 := UInt32.le_iff_toNat_le
  simp only [isHexDigit, Bool.or_eq_true, Bool.and_eq_true, decide_eq_true_iff, ha, hf, hA, hF,
    Char.isDigit_iff_toNat, or_assoc]
  rfl

theorem hexDigitValue_eq : hexDigitValue c = if 48 ≤ c.toNat ∧ c.toNat ≤ 57 then c.toNat - 48
    else if 97 ≤ c.toNat ∧ c.toNat ≤ 102 then c.toNat - 87
    else if 65 ≤ c.toNat ∧ c.toNat ≤ 70 then c.toNat - 55 else 0 := by
  have hdigit : c.isDigit = true ↔ 48 ≤ c.toNat ∧ c.toNat ≤ 57 := Char.isDigit_iff_toNat
  have ha : 'a' ≤ c ↔ 97 ≤ c.toNat := UInt32.le_iff_toNat_le
  have hf : c ≤ 'f' ↔ c.toNat ≤ 102 := UInt32.le_iff_toNat_le
  have hA : 'A' ≤ c ↔ 65 ≤ c.toNat := UInt32.le_iff_toNat_le
  have hF : c ≤ 'F' ↔ c.toNat ≤ 70 := UInt32.le_iff_toNat_le
  simp only [hexDigitValue, hdigit, Bool.and_eq_true, decide_eq_true_iff, ha, hf, hA, hF]

/-- Up to base ten the digits are decimal ones. -/
theorem isDigitOf_iff_of_le_ten (hbase : base ≤ 10) :
    isDigitOf base c = true ↔ 48 ≤ c.toNat ∧ c.toNat < 48 + base := by
  rw [isDigitOf, Bool.and_eq_true, isHexDigit_iff, decide_eq_true_iff, hexDigitValue_eq]
  split
  · omega
  · split
    · omega
    · split <;> omega

theorem isDigitOf_sixteen_iff : isDigitOf 16 c = true ↔ isHexDigit c = true := by
  rw [isDigitOf, Bool.and_eq_true, isHexDigit_iff, decide_eq_true_iff, hexDigitValue_eq]
  split
  · omega
  · split
    · omega
    · split <;> omega

theorem isDigitOf_two_iff : isDigitOf 2 c = true ↔ (c = '0' || c = '1') = true := by
  rw [isDigitOf_iff_of_le_ten (by decide), Bool.or_eq_true, decide_eq_true_iff,
    decide_eq_true_iff, ← Char.toNat_inj, ← Char.toNat_inj]
  have hzero : '0'.toNat = 48 := rfl
  have hone : '1'.toNat = 49 := rfl
  omega

theorem isDigitOf_eight_iff : isDigitOf 8 c = true ↔ ('0' ≤ c && c ≤ '7') = true := by
  have h₀ : '0' ≤ c ↔ 48 ≤ c.toNat := UInt32.le_iff_toNat_le
  have h₇ : c ≤ '7' ↔ c.toNat ≤ 55 := UInt32.le_iff_toNat_le
  rw [isDigitOf_iff_of_le_ten (by decide), Bool.and_eq_true, decide_eq_true_iff,
    decide_eq_true_iff, h₀, h₇]
  omega

theorem isDigitOf_ten_iff : isDigitOf 10 c = true ↔ c.isDigit = true := by
  rw [isDigitOf_iff_of_le_ten (by decide), Char.isDigit_iff_toNat]
  have h₉ : '9'.toNat = 57 := rfl
  have h₀ : '0'.toNat = 48 := rfl
  omega

end Literal

end Cross6502
