import Cross6502.Proofs.Line.Form
import Mathlib.Data.List.Induction
import Mathlib.Data.Nat.Digits.Defs

/-!
# Narrow literals

The width of a literal is told by two tests that look at different things.  One counts
characters: digits and the letters `a` to `f`, whatever the base, behind the first
character.  The other compares the value with 255, but only after it was cut to 16 bits.
Neither alone keeps a large number from passing as a byte.

Together they do.  The digits of a base are among the characters that are counted, as long as
no letter is a capital, so a literal that passes the first test has few digits.  So few
make a number below `2 ^ 16` (`numberOf_lt_of_narrow`), so nothing is cut, and the second test
sees the number that was written.

The number is given on its own terms here: the longest front that is made of digits of the
base (`IsDigitFront`), and the value of digits by their places (`numberOf`).
-/

namespace Cross6502

namespace Literal

variable {base : Nat} {c : Char} {t s digits : Text}

/-! ## Digits by their places -/

/-- The digits, each at the place of its value. -/
def digitOrder : Text := "0123456789abcdef".toList

/-- The number that digits of a base stand for, the last of them counting ones. -/
def numberOf (base : Nat) (digits : Text) : Nat :=
  Nat.ofDigits base (digits.reverse.map fun c => digitOrder.idxOf c)

/-- The longest front of a text that is made of digits of a base. -/
structure IsDigitFront (base : Nat) (t digits : Text) : Prop where
  front : digits <+: t
  mem : ∀ c ∈ digits, c ∈ digitOrder.take base
  longest : ∀ u, u <+: t → (∀ c ∈ u, c ∈ digitOrder.take base) → u.length ≤ digits.length

/-- Every text has a longest front of this kind. -/
theorem isDigitFront_takeWhile (base : Nat) (t : Text) :
    IsDigitFront base t (t.takeWhile fun c => c ∈ digitOrder.take base) where
  front := List.takeWhile_prefix _
  mem _ hc := by simpa using List.mem_takeWhile_imp hc
  longest u hu hmem := by
    obtain ⟨rest, rfl⟩ := hu
    rw [List.takeWhile_append_of_pos fun c hc => decide_eq_true (hmem c hc), List.length_append]
    exact Nat.le_add_right _ _

theorem digitOrder_eq : digitOrder = (List.range 16).map Nat.digitChar := by decide

theorem mem_digitOrder_take :
    c ∈ digitOrder.take base ↔ ∃ d, d < base ∧ d < 16 ∧ c = Nat.digitChar d := by
  rw [digitOrder_eq, ← List.map_take, List.take_range, List.mem_map]
  constructor
  · rintro ⟨d, hd, rfl⟩
    rw [List.mem_range, Nat.lt_min] at hd
    exact ⟨d, hd.1, hd.2, rfl⟩
  · rintro ⟨d, hbase, hd, rfl⟩
    exact ⟨d, List.mem_range.mpr (Nat.lt_min.mpr ⟨hbase, hd⟩), rfl⟩

theorem idxOf_digitChar : ∀ d, d < 16 → digitOrder.idxOf (Nat.digitChar d) = d := by decide

/-- A digit of a base is worth less than the base, and both ways to tell its value agree. -/
theorem idxOf_of_mem_take (hc : c ∈ digitOrder.take base) :
    digitOrder.idxOf c < base ∧ hexDigitValue c = digitOrder.idxOf c := by
  obtain ⟨d, hbase, hd, rfl⟩ := mem_digitOrder_take.mp hc
  rw [idxOf_digitChar d hd, Text.hexDigitValue_digitChar d hd]
  exact ⟨hbase, rfl⟩

theorem isLowerHexDigit_of_mem_take (hc : c ∈ digitOrder.take base) :
    Arithmetic.isLowerHexDigit c = true := by
  obtain ⟨d, -, hd, rfl⟩ := mem_digitOrder_take.mp hc
  exact Text.isLowerHexDigit_digitChar d hd

/-- Every hexadecimal digit that is no capital letter has its place in the order. -/
theorem eq_digitChar (hc : isHexDigit c = true) (hlower : c.isUpper = false) :
    hexDigitValue c < 16 ∧ c = Nat.digitChar (hexDigitValue c) := by
  have hdigits : ∀ n, n < 103 → isHexDigit (Char.ofNat n) = true →
      (Char.ofNat n).isUpper = false → hexDigitValue (Char.ofNat n) < 16
        ∧ Char.ofNat n = Nat.digitChar (hexDigitValue (Char.ofNat n)) := by decide
  have hrange := isHexDigit_iff.mp hc
  have h := hdigits c.toNat (by omega)
  rw [Char.ofNat_toNat] at h
  exact h hc hlower

/-- Apart from the capital letters, the digits that the reader takes are those of the order. -/
theorem isDigitOf_iff_mem_take (hlower : c.isUpper = false) :
    isDigitOf base c = true ↔ c ∈ digitOrder.take base := by
  rw [isDigitOf, Bool.and_eq_true, decide_eq_true_iff]
  constructor
  · rintro ⟨hhex, hvalue⟩
    obtain ⟨hlt, heq⟩ := eq_digitChar hhex hlower
    exact mem_digitOrder_take.mpr ⟨_, hvalue, hlt, heq⟩
  · intro hc
    obtain ⟨hlt, hvalue⟩ := idxOf_of_mem_take hc
    refine ⟨?_, hvalue ▸ hlt⟩
    rw [isHexDigit]
    exact Bool.or_eq_true_iff.mpr (.inl (isLowerHexDigit_of_mem_take hc))

/-! ## The number that digits stand for -/

theorem numberOf_concat (base : Nat) (digits : Text) (c : Char) :
    numberOf base (digits ++ [c]) = numberOf base digits * base + digitOrder.idxOf c := by
  rw [numberOf, List.reverse_append, List.map_append, List.reverse_singleton, List.map_singleton,
    List.singleton_append, Nat.ofDigits_cons, numberOf, Nat.mul_comm, Nat.add_comm]

/-- The reader adds up digits from left to right and gets their number. -/
theorem digitsValue_eq_numberOf (h : ∀ c ∈ digits, c ∈ digitOrder.take base) :
    digitsValue base digits = numberOf base digits := by
  induction digits using List.reverseRecOn with
  | nil => rfl
  | append_singleton digits c ih =>
    have hc := (idxOf_of_mem_take (h c (by simp))).2
    rw [Text.digitsValue_append, numberOf_concat, ih fun d hd => h d (List.mem_append_left _ hd),
      List.foldl_cons, List.foldl_nil, hc]

theorem numberOf_lt (hbase : 1 < base) (h : ∀ c ∈ digits, c ∈ digitOrder.take base) :
    numberOf base digits < base ^ digits.length := by
  have hlt : ∀ d ∈ digits.reverse.map fun c => digitOrder.idxOf c, d < base := by
    intro d hd
    obtain ⟨c, hc, rfl⟩ := List.mem_map.mp hd
    exact (idxOf_of_mem_take (h c (List.mem_reverse.mp hc))).1
  have hpow := Nat.ofDigits_lt_base_pow_length hbase hlt
  rwa [List.length_map, List.length_reverse] at hpow

/-! ## Digits and counted characters -/

theorem widthRun_eq (t : Text) : widthRun t = (t.takeWhile Arithmetic.isLowerHexDigit).length :=
  rfl

/-- A front made of digits is counted whole. -/
theorem length_le_widthRun (hfront : digits <+: t)
    (h : ∀ c ∈ digits, c ∈ digitOrder.take base) : digits.length ≤ widthRun t := by
  obtain ⟨rest, rfl⟩ := hfront
  have hrun : ∀ c ∈ digits, Arithmetic.isLowerHexDigit c = true := fun c hc =>
    isLowerHexDigit_of_mem_take (h c hc)
  have hcounted : widthRun (digits ++ rest) = digits.length + widthRun rest := by
    rw [widthRun_eq, List.takeWhile_append_of_pos hrun, List.length_append, widthRun_eq]
  omega

/-- The same for all but the first character of the front. -/
theorem length_le_widthRun_tail (hfront : digits <+: t)
    (h : ∀ c ∈ digits, c ∈ digitOrder.take base) : digits.length ≤ widthRun t.tail + 1 := by
  obtain ⟨rest, rfl⟩ := hfront
  cases digits with
  | nil => exact Nat.zero_le _
  | cons d digits =>
    exact Nat.succ_le_succ (length_le_widthRun (List.prefix_append digits rest) fun c hc =>
      h c (List.mem_cons_of_mem d hc))

/-- The digits of a literal stand behind its first character or begin with it, and either way a
byte's worth of counted characters holds a number of 16 bits at most. -/
theorem form_cases (s : Text) : 1 < (form s).base
    ∧ ((form s).body = s.tail ∧ (form s).base ^ (form s).byteDigits ≤ 65536
      ∨ (form s).body = s ∧ (form s).base ^ ((form s).byteDigits + 1) ≤ 65536) := by
  rw [form.eq_def]
  split
  · exact ⟨(by decide : 1 < 16), .inl ⟨rfl, (by decide : 16 ^ 2 ≤ 65536)⟩⟩
  · exact ⟨(by decide : 1 < 2), .inl ⟨rfl, (by decide : 2 ^ 8 ≤ 65536)⟩⟩
  · exact ⟨(by decide : 1 < 8), .inr ⟨rfl, (by decide : 8 ^ 4 ≤ 65536)⟩⟩
  · exact ⟨(by decide : 1 < 10), .inr ⟨rfl, (by decide : 10 ^ 4 ≤ 65536)⟩⟩

/-- A literal that is narrow by its characters loses nothing when it is cut to 16 bits. -/
theorem numberOf_lt_of_narrow (h : IsDigitFront (form s).base (form s).body digits)
    (hnarrow : widthRun s.tail ≤ (form s).byteDigits) :
    numberOf (form s).base digits < 65536 := by
  obtain ⟨hbase, hcases⟩ := form_cases s
  have hlt := numberOf_lt hbase h.mem
  rcases hcases with ⟨hbody, hpow⟩ | ⟨hbody, hpow⟩
  · have hfront : digits <+: s.tail := hbody ▸ h.front
    have hlength := (length_le_widthRun hfront h.mem).trans hnarrow
    exact hlt.trans_le ((Nat.pow_le_pow_right (by omega) hlength).trans hpow)
  · -- the first character is a digit too, but it is not counted
    have hfront : digits <+: s := hbody ▸ h.front
    have hlength := (length_le_widthRun_tail hfront h.mem).trans (Nat.succ_le_succ hnarrow)
    exact hlt.trans_le ((Nat.pow_le_pow_right (by omega) hlength).trans hpow)

/-- What passes both tests is a byte. -/
theorem numberOf_le_of_narrow (h : IsDigitFront (form s).base (form s).body digits)
    (hnarrow : ((form s).byteDigits < widthRun s.tail
      || 255 < numberOf (form s).base digits % 65536) = false) :
    numberOf (form s).base digits ≤ 255 := by
  rw [Bool.or_eq_false_iff, decide_eq_false_iff_not, decide_eq_false_iff_not, Nat.not_lt,
    Nat.not_lt] at hnarrow
  obtain ⟨hcount, hvalue⟩ := hnarrow
  rwa [Nat.mod_eq_of_lt (numberOf_lt_of_narrow h hcount)] at hvalue

/-! ## Reading -/

theorem mem_of_mem_clean (hc : c ∈ clean t) : c ∈ t := by
  induction t with
  | nil => exact hc
  | cons d t ih =>
    rw [clean] at hc
    split at hc
    · exact List.mem_singleton.mp hc ▸ List.mem_cons_self
    · split at hc
      · exact List.mem_cons_of_mem d (ih hc)
      · rcases List.mem_cons.mp hc with rfl | hc
        · exact List.mem_cons_self
        · exact List.mem_cons_of_mem d (ih hc)

theorem mem_of_mem_body (hc : c ∈ (form s).body) : c ∈ s := by
  rcases (form_cases s).2 with ⟨hbody, -⟩ | ⟨hbody, -⟩
  · exact List.mem_of_mem_tail (hbody ▸ hc)
  · exact hbody ▸ hc

/-- The longest front made of digits is what a run takes in. -/
theorem IsDigitFront.takeWhile_eq (h : IsDigitFront base t digits) {p : Char → Bool}
    (hp : ∀ c ∈ t, p c = true ↔ c ∈ digitOrder.take base) : t.takeWhile p = digits := by
  have hle : (t.takeWhile p).length ≤ digits.length := by
    refine h.longest _ (List.takeWhile_prefix p) fun c hc => ?_
    exact (hp c ((List.takeWhile_prefix p).subset hc)).mp (List.mem_takeWhile_imp hc)
  have hfront : digits <+: t.takeWhile p := by
    obtain ⟨rest, rfl⟩ := h.front
    rw [List.takeWhile_append_of_pos fun c hc =>
      (hp c (List.mem_append_left rest hc)).mpr (h.mem c hc)]
    exact List.prefix_append _ _
  exact (hfront.eq_of_length_le hle).symm

/-- Without a sign and without capital letters, the number is read off the digits in front. -/
theorem leadingValue_eq (hlower : ∀ c ∈ t, c.isUpper = false) (hplus : '+' ∉ t) (hminus : '-' ∉ t)
    (h : IsDigitFront base t digits) (hcount : digits.length ≤ digitLimit) :
    leadingValue base t = .ok (numberOf base digits) := by
  have hsign : splitSign t = (1, t) := by
    refine splitSign_of_unsigned fun c hc => ⟨?_, ?_⟩
    · exact fun h => hminus (h ▸ List.mem_of_mem_head? hc)
    · exact fun h => hplus (h ▸ List.mem_of_mem_head? hc)
  have hdigits : digitsOf base t = digits := by
    rw [digitsOf, hsign]
    exact h.takeWhile_eq fun c hc => isDigitOf_iff_mem_take (hlower c hc)
  rw [leadingValue, hdigits, hsign, digitsValue_eq_numberOf h.mem, if_neg (by simp [hcount])]
  simp

/-- The value that is read decides, with the characters that are counted, about the literal. -/
theorem read_of_leadingValue {n : Nat}
    (h : leadingValue (form (clean t)).base (form (clean t)).body = .ok n) :
    read t = .ok ⟨n % 65536, (form (clean t)).byteDigits < widthRun (clean t).tail
      || 255 < n % 65536⟩ := by
  have hcut : ((n : Int) % 65536).toNat = n % 65536 := by omega
  rw [read]
  cases hclean : clean t with
  | nil =>
    rw [hclean] at h
    obtain rfl : n = 0 := Int.natCast_eq_zero.mp (Except.ok.inj h).symm
    rfl
  | cons c cs =>
    rw [hclean] at h
    simp only [h, hcut]
    rfl

/-- A literal without sign and capital letters that is reported as narrow is the number that was
written, and this is a byte.  No larger number becomes narrow by being cut to 16 bits. -/
theorem narrow_literal_is_byte (t digits : Text) (hlower : ∀ c ∈ t, c.isUpper = false)
    (hplus : '+' ∉ t) (hminus : '-' ∉ t)
    (hdigits : IsDigitFront (form (clean t)).base (form (clean t)).body digits)
    (hcount : digits.length ≤ digitLimit) :
    ∃ l, read t = .ok l
      ∧ l.value = numberOf (form (clean t)).base digits % 65536
      ∧ (l.wide = false → numberOf (form (clean t)).base digits ≤ 255
          ∧ numberOf (form (clean t)).base digits = l.value)
      ∧ (255 < numberOf (form (clean t)).base digits → l.wide = true) := by
  have hmem : ∀ c ∈ (form (clean t)).body, c ∈ t := fun c hc =>
    mem_of_mem_clean (mem_of_mem_body hc)
  have hvalue := leadingValue_eq (fun c hc => hlower c (hmem c hc)) (mt (hmem '+') hplus)
    (mt (hmem '-') hminus) hdigits hcount
  refine ⟨_, read_of_leadingValue hvalue, rfl, fun hwide => ?_, fun hlarge => ?_⟩
  · have hbyte := numberOf_le_of_narrow hdigits hwide
    exact ⟨hbyte, (Nat.mod_eq_of_lt (Nat.lt_of_le_of_lt hbyte (by decide))).symm⟩
  · rw [← Bool.not_eq_false]
    exact fun hwide => absurd (numberOf_le_of_narrow hdigits hwide) (Nat.not_le.mpr hlarge)

/-- The largest byte in hexadecimal, and a number whose last 16 bits alone are a byte. -/
theorem narrow_literal_is_byte_hexadecimal :
    (read "($ff),y".toList = .ok ⟨255, false⟩ ∧ numberOf 16 "ff".toList = 255)
      ∧ 255 < numberOf 16 "10005".toList
      ∧ ∃ l, read "#$10005".toList = .ok l ∧ l.value = 5 ∧ l.wide = true := by
  have hnarrow : read "($ff),y".toList = .ok ⟨255, false⟩ := by decide
  have hlarge : 255 < numberOf 16 "10005".toList := by decide
  obtain ⟨l, hl, -, hbyte, -⟩ := narrow_literal_is_byte "($ff),y".toList "ff".toList (by decide)
    (by decide) (by decide) (isDigitFront_takeWhile 16 "ff,".toList) (by decide)
  obtain ⟨m, hm, hvalue, -, hwide⟩ := narrow_literal_is_byte "#$10005".toList "10005".toList
    (by decide) (by decide) (by decide) (isDigitFront_takeWhile 16 "10005".toList) (by decide)
  rw [hnarrow] at hl
  cases hl
  exact ⟨⟨hnarrow, (hbyte rfl).2⟩, hlarge, m, hm, hvalue, hwide hlarge⟩

end Literal

end Cross6502
