import Cross6502.Numeral
import Cross6502.Proofs.Text.Digits
import Mathlib.Data.List.TakeWhile

/-!
# Numerals that were written

What the program writes as a number it reads back as the same number.  A written number
is plain in every respect that a numeral need not be: no blanks around it, no
underscores, no mark of the base, only digits of the seven-bit range behind at most one
sign.  `IsDigits` says that of a run of characters, and `read_digits` reads such a run.

Hexadecimal numbers come back whatever they are (`read_upperHex`).  A decimal number
comes back if it has no more digits than a numeral may have (`read_decimal`).
-/

namespace Cross6502

namespace Numeral

/-! ## Runs of plain digits -/

theorem ne_of_isAlphanum {c d : Char} (hc : c.isAlphanum = true) (hd : d.isAlphanum = false) :
    c ≠ d := by
  rintro rfl
  rw [hc] at hd
  cases hd

theorem isBlank_of_isAlphanum {c : Char} (hc : c.isAlphanum = true) : Text.isBlank c = false := by
  have hrange : 48 ≤ c.toNat ∧ c.toNat ≤ 122 := by
    change ((decide (65 ≤ c.val ∧ c.val ≤ 90) || (decide (97 ≤ c.val) && decide (c.val ≤ 122)))
      || (decide (48 ≤ c.val) && decide (c.val ≤ 57))) = true at hc
    simp only [Bool.or_eq_true, Bool.and_eq_true, decide_eq_true_eq, UInt32.le_iff_toNat_le] at hc
    change (((65 ≤ c.toNat ∧ c.toNat ≤ 90) ∨ (97 ≤ c.toNat ∧ c.toNat ≤ 122))
      ∨ (48 ≤ c.toNat ∧ c.toNat ≤ 57)) at hc
    omega
  have h₁ : ¬ (c.toNat ≤ 13) := by omega
  have h₂ : ¬ (c.toNat ≤ 32) := by omega
  have h₃ : ¬ (128 ≤ c.toNat) := by omega
  simp [Text.isBlank, h₁, h₂, h₃]

/-- A run of digits of a base, with nothing in it that a reader of numerals treats apart. -/
structure IsDigits (base : Nat) (run : Text) : Prop where
  ne_nil : run ≠ []
  digit : ∀ c ∈ run, isDigitOf base c = true
  plain : ∀ c ∈ run, c.isAlphanum = true ∧ c ≠ 'x' ∧ c ≠ 'X'

theorem underscoresFit_of_forall {t : Text} (h : ∀ c ∈ t, c ≠ '_') : underscoresFit t = true := by
  fun_induction underscoresFit t with
  | case1 => rfl
  | case2 => exact absurd rfl (h '_' (by simp))
  | case3 => exact absurd rfl (h '_' (by simp))
  | case4 => rfl
  | case5 => exact absurd rfl (h '_' (by simp))
  | case6 => exact absurd rfl (h '_' (by simp))
  | case7 => exact absurd rfl (h '_' (by simp))
  | case8 b c rest _ _ _ _ ih => exact ih fun d hd => h d (List.mem_cons_of_mem b hd)

section Read

variable {base : Nat} {run : Text}

theorem dropMark_of_isDigits (h : IsDigits base run) : dropMark base run = run := by
  match run, h with
  | [], _ => rfl
  | [_], _ => rfl
  | z :: x :: rest, h =>
    have hx := (h.plain x (by simp)).2
    simp [dropMark, hx.1, hx.2]

/-- A run of plain digits behind a sign or none. -/
theorem read_digits (h : IsDigits base run) (hlimit : base = 10 → run.length ≤ digitLimit) :
    read base run = .ok (value base run)
      ∧ read base ('-' :: run) = .ok (-(value base run : Int)) := by
  have hclass : ∀ c ∈ run, (isDigitOf base c || c = '_') = true := fun c hc => by
    rw [h.digit c hc, Bool.true_or]
  have hne : ∀ d : Char, d.isAlphanum = false → ∀ c ∈ run, c ≠ d :=
    fun d hd c hc => ne_of_isAlphanum (h.plain c hc).1 hd
  have htake : run.takeWhile (fun c => isDigitOf base c || c = '_') = run :=
    List.takeWhile_eq_self_iff.mpr hclass
  have hdrop : run.dropWhile (fun c => isDigitOf base c || c = '_') = [] :=
    List.dropWhile_eq_nil_iff.mpr hclass
  have hfilter : run.filter (· ≠ '_') = run :=
    List.filter_eq_self.mpr fun c hc => by simpa using hne '_' (by decide) c hc
  have hfit := underscoresFit_of_forall fun c hc => hne '_' (by decide) c hc
  have hlong : ¬ ((base = 10 && digitLimit < run.length) = true) := by
    simp only [Bool.and_eq_true, decide_eq_true_eq]
    rintro ⟨hbase, hlt⟩
    exact absurd (hlimit hbase) (by omega)
  have hempty : run.isEmpty = false := by
    rw [List.isEmpty_eq_false_iff]
    exact h.ne_nil
  have hpadding : ('-' :: run).dropWhile isPadding = '-' :: run := rfl
  obtain ⟨c, t, rfl⟩ := List.exists_cons_of_ne_nil h.ne_nil
  have hfront : (c :: t).dropWhile isPadding = c :: t :=
    List.dropWhile_cons_of_neg
      (by simp [isPadding, isBlank_of_isAlphanum (h.plain c List.mem_cons_self).1])
  have hsign : splitSign (c :: t) = (false, c :: t) := by
    rw [splitSign.eq_3]
    · rintro u hu
      exact hne '-' (by decide) c List.mem_cons_self (List.cons.inj hu).1
    · rintro u hu
      exact hne '+' (by decide) c List.mem_cons_self (List.cons.inj hu).1
  constructor
  · simp only [read, hfront, hsign, dropMark_of_isDigits h, htake, hdrop, hfilter, hfit, hempty,
      if_neg hlong]
    simp
  · simp only [read, hpadding, splitSign, dropMark_of_isDigits h, htake, hdrop, hfilter, hfit,
      hempty, if_neg hlong]
    simp

end Read

/-! ## Values -/

theorem value_append (base : Nat) (s t : Text) :
    value base (s ++ t) = t.foldl (fun n c => match digitValue? c with
      | some d => n * base + d
      | none => n) (value base s) := by
  rw [value, List.foldl_append]
  rfl

/-- Digits in either case are worth the number they were written for. -/
theorem value_map_toDigits {base : Nat} (hbase : 1 < base) {f : Char → Char}
    (hf : ∀ d < base, digitValue? (f (Nat.digitChar d)) = some d) (n : Nat) :
    value base ((Nat.toDigits base n).map f) = n := by
  induction n using Nat.base_induction base hbase with
  | single m hm =>
    rw [Nat.toDigits_of_lt_base hm, List.map_singleton, value, List.foldl_cons, List.foldl_nil,
      hf m hm]
    change 0 * base + m = m
    omega
  | digit m k hk hm ih =>
    rw [← Nat.toDigits_append_toDigits hbase hm hk, List.map_append, value_append, ih,
      Nat.toDigits_of_lt_base hk, List.map_singleton, List.foldl_cons, List.foldl_nil, hf k hk,
      Nat.mul_comm]

theorem value_replicate_zero (k : Nat) : value 16 (List.replicate k '0') = 0 := by
  induction k with
  | zero => rfl
  | succ k ih =>
    rw [List.replicate_succ', value_append, ih]
    rfl

/-! ## Written numbers -/

theorem digit_decimal : ∀ d < 10, digitValue? (Nat.digitChar d) = some d
    ∧ isDigitOf 10 (Nat.digitChar d) = true
    ∧ (Nat.digitChar d).isAlphanum = true ∧ Nat.digitChar d ≠ 'x' ∧ Nat.digitChar d ≠ 'X' := by
  decide

theorem digit_upperHex : ∀ d < 16, digitValue? (Nat.digitChar d).toUpper = some d
    ∧ isDigitOf 16 (Nat.digitChar d).toUpper = true
    ∧ (Nat.digitChar d).toUpper.isAlphanum = true
    ∧ (Nat.digitChar d).toUpper ≠ 'x' ∧ (Nat.digitChar d).toUpper ≠ 'X' := by
  decide

theorem isDigits_decimal (n : Nat) : IsDigits 10 (Text.decimal (n : Int)) := by
  rw [Text.decimal_natCast]
  refine ⟨Nat.toDigits_ne_nil, fun c hc => ?_, fun c hc => ?_⟩ <;>
    obtain ⟨d, hd, rfl⟩ := Text.mem_toDigits (by decide) hc
  · exact (digit_decimal d hd).2.1
  · exact (digit_decimal d hd).2.2

/-- The least number whose decimal numeral is too long to be read. -/
def decimalLimit : Nat := 10 ^ digitLimit

/-- The limit is far away. -/
theorem lt_decimalLimit {n : Nat} (hn : n ≤ digitLimit) : n < decimalLimit :=
  Nat.lt_of_le_of_lt hn (Nat.lt_pow_self (by decide))

theorem isWritable_iff {n : Int} : Text.isWritable n = true ↔ n.natAbs < decimalLimit := by
  rw [Text.isWritable, decide_eq_true_iff]
  exact Nat.length_toDigits_le_iff (by decide) (by decide)

theorem isWritable_decimalLimit : Text.isWritable decimalLimit = false := by
  rw [← Bool.not_eq_true, isWritable_iff, Int.natAbs_natCast]
  exact Nat.lt_irrefl _

/-- A decimal number that is not too long is read back, whatever its sign. -/
theorem read_decimal {n : Int} (hn : n.natAbs < decimalLimit) :
    read 10 (Text.decimal n) = .ok n := by
  have hdigits := isDigits_decimal n.natAbs
  rw [Text.decimal_natCast] at hdigits
  have hlength : (Nat.toDigits 10 n.natAbs).length ≤ digitLimit :=
    of_decide_eq_true (isWritable_iff.mpr hn)
  have hvalue : value 10 (Nat.toDigits 10 n.natAbs) = n.natAbs := by
    have h := value_map_toDigits (f := id) (by decide) (fun d hd => (digit_decimal d hd).1) n.natAbs
    rwa [List.map_id] at h
  obtain ⟨hplain, hsigned⟩ := read_digits hdigits fun _ => hlength
  rw [hvalue] at hplain hsigned
  rw [Text.decimal]
  split
  · rw [hsigned, Int.ofNat_natAbs_of_nonpos (by omega), Int.neg_neg]
  · rw [hplain, Int.natAbs_of_nonneg (by omega)]

theorem isDigits_padLeft (width n : Nat) :
    IsDigits 16 ((Text.padLeft width '0' (Nat.toDigits 16 n)).map Char.toUpper) := by
  have hdigit : ∀ c ∈ (Text.padLeft width '0' (Nat.toDigits 16 n)).map Char.toUpper,
      ∃ d < 16, c = (Nat.digitChar d).toUpper := by
    intro c hc
    obtain ⟨b, hb, rfl⟩ := List.mem_map.mp hc
    rw [Text.padLeft, List.mem_append] at hb
    rcases hb with hb | hb
    · rw [List.eq_of_mem_replicate hb]
      exact ⟨0, by decide, rfl⟩
    · obtain ⟨d, hd, rfl⟩ := Text.mem_toDigits (by decide) hb
      exact ⟨d, hd, rfl⟩
  refine ⟨?_, fun c hc => ?_, fun c hc => ?_⟩
  · simp [Text.padLeft]
  · obtain ⟨d, hd, rfl⟩ := hdigit c hc
    exact (digit_upperHex d hd).2.1
  · obtain ⟨d, hd, rfl⟩ := hdigit c hc
    exact (digit_upperHex d hd).2.2

theorem value_padLeft (width n : Nat) :
    value 16 ((Text.padLeft width '0' (Nat.toDigits 16 n)).map Char.toUpper) = n := by
  rw [Text.padLeft, List.map_append, List.map_replicate, value_append]
  change List.foldl _ (value 16 (List.replicate _ '0')) _ = n
  rw [value_replicate_zero]
  exact value_map_toDigits (by decide) (fun d hd => (digit_upperHex d hd).1) n

/-- A written hexadecimal number is a run of digits, behind a sign if it is negative. -/
theorem upperHex_cases (width : Nat) (n : Int) :
    ∃ run, IsDigits 16 run ∧ ((Text.upperHex width n = run ∧ n = value 16 run)
      ∨ (Text.upperHex width n = '-' :: run ∧ n = -(value 16 run : Int))) := by
  rw [Text.upperHex, Text.lowerHex]
  split
  · refine ⟨_, isDigits_padLeft (width - 1) n.natAbs, .inr ⟨rfl, ?_⟩⟩
    rw [value_padLeft]
    omega
  · refine ⟨_, isDigits_padLeft width n.natAbs, .inl ⟨rfl, ?_⟩⟩
    rw [value_padLeft]
    omega

/-- A hexadecimal number is read back, whatever its sign and width. -/
theorem read_upperHex (width : Nat) (n : Int) : read 16 (Text.upperHex width n) = .ok n := by
  obtain ⟨run, hrun, ⟨htext, hn⟩ | ⟨htext, hn⟩⟩ := upperHex_cases width n
  · rw [htext, (read_digits hrun fun h => absurd h (by decide)).1, ← hn]
  · rw [htext, (read_digits hrun fun h => absurd h (by decide)).2, ← hn]

end Numeral

end Cross6502
