import Cross6502.Proofs.Substitution.Sum
import Cross6502.Proofs.Text.Case

/-!
# How many decimal digits a line can come to hold

A decimal number with more digits than `digitLimit` is not read.  A line that is short
enough cannot hold one, but a line grows: a name of one character becomes a literal of
five, and so does a sum.  The digits that come in this way stand behind a dollar sign.
So a line is measured by its *bulk* (`Text.bulk`): every character counts, except for up
to four digits behind a dollar sign.  Putting a literal in place of a name or of a sum
does not add to the bulk (`Text.bulk_splice_le`), and decimal digits in front of the first
dollar sign are part of it (`Text.countP_isDigit_le_bulk`).

The lower case of a capital `i` with a dot above is two characters, the second of which
is a combining dot.  It is no digit and is not counted, so that the bulk of a line is at
most the number of characters it was written with (`Text.countP_lower_le`).
-/

namespace Cross6502

open Arithmetic (isLowerHexDigit)

namespace Text

/-- The combining dot above. -/
def combiningDot : Char := Char.ofNat 0x307

/-- The number of characters of a text, without combining dots, without the first `free`
characters if they are digits, and without four digits behind each dollar sign. -/
def bulk : Nat → Text → Nat
  | _, [] => 0
  | free, c :: t =>
      if c = '$' then bulk 4 t + 1
      else if isLowerHexDigit c = true ∧ 0 < free then bulk (free - 1) t
      else bulk 0 t + if c = combiningDot then 0 else 1

/-- How many digits are not counted behind a text. -/
def freeAfter : Nat → Text → Nat
  | free, [] => free
  | free, c :: t =>
      if c = '$' then freeAfter 4 t
      else if isLowerHexDigit c = true ∧ 0 < free then freeAfter (free - 1) t
      else freeAfter 0 t

/-! ## Parts of a text -/

theorem bulk_append (free : Nat) (s t : Text) :
    bulk free (s ++ t) = bulk free s + bulk (freeAfter free s) t := by
  induction s generalizing free with
  | nil => rw [List.nil_append, bulk, freeAfter, Nat.zero_add]
  | cons c s ih =>
    rw [List.cons_append, bulk, bulk, freeAfter]
    split
    · rw [ih]
      omega
    · split
      · rw [ih]
      · rw [ih]
        omega

theorem bulk_zero_cons {c : Char} (hc : c ≠ '$') (t : Text) :
    bulk 0 (c :: t) = bulk 0 t + if c = combiningDot then 0 else 1 := by
  rw [bulk, if_neg hc, if_neg (by simp)]

/-- The more digits are free, the less counts. -/
theorem bulk_anti {j k : Nat} (h : j ≤ k) (t : Text) : bulk k t ≤ bulk j t := by
  induction t generalizing j k with
  | nil => exact Nat.le_refl 0
  | cons c t ih =>
    rw [bulk, bulk]
    split
    · exact Nat.le_refl _
    · by_cases hk : isLowerHexDigit c = true ∧ 0 < k
      · rw [if_pos hk]
        split
        · exact ih (by omega)
        · exact Nat.le_trans (ih (Nat.zero_le _)) (Nat.le_add_right _ _)
      · have hj : ¬ (isLowerHexDigit c = true ∧ 0 < j) := fun hj => hk ⟨hj.1, by omega⟩
        rw [if_neg hk, if_neg hj]

/-- Digits that are free are of no use to a text that does not begin with one. -/
theorem bulk_cons_of_not_digit {c : Char} (hc : isLowerHexDigit c = false) (free : Nat)
    (t : Text) : bulk free (c :: t) = bulk 0 (c :: t) := by
  simp only [bulk, hc, Bool.false_eq_true, false_and, if_false]

theorem bulk_of_head {t : Text} (ht : ∀ c ∈ t.head?, isLowerHexDigit c = false) (free : Nat) :
    bulk free t = bulk 0 t := by
  cases t with
  | nil => rfl
  | cons c t => exact bulk_cons_of_not_digit (ht c rfl) free t

theorem bulk_digits {ds : Text} (hds : ∀ c ∈ ds, isLowerHexDigit c = true) {free : Nat}
    (hlength : ds.length ≤ free) (t : Text) : bulk free (ds ++ t) = bulk (free - ds.length) t := by
  induction ds generalizing free with
  | nil => rfl
  | cons c ds ih =>
    have hc := hds c List.mem_cons_self
    have hne : c ≠ '$' := by
      rintro rfl
      exact absurd hc (by decide)
    rw [List.length_cons] at hlength
    rw [List.cons_append, bulk, if_neg hne, if_pos ⟨hc, by omega⟩,
      ih (fun d hd => hds d (List.mem_cons_of_mem c hd)) (by omega), List.length_cons]
    congr 1
    omega

/-- A literal in place of anything that counts does not add to the bulk, where nothing is
free behind it. -/
theorem bulk_splice_le {s x u ds : Text} (hds : ∀ c ∈ ds, isLowerHexDigit c = true)
    (hlength : ds.length ≤ 4) (hx : 0 < bulk (freeAfter 0 s) x)
    (hu : bulk (freeAfter (freeAfter 0 s) x) u = bulk 0 u) :
    bulk 0 (s ++ '$' :: ds ++ u) ≤ bulk 0 (s ++ x ++ u) := by
  have hliteral : bulk (freeAfter 0 s) ('$' :: (ds ++ u)) = bulk (4 - ds.length) u + 1 := by
    rw [bulk, if_pos rfl, bulk_digits hds hlength]
  have hfree := bulk_anti (Nat.zero_le (4 - ds.length)) u
  rw [List.append_assoc, List.append_assoc, bulk_append 0 s, bulk_append 0 s, List.cons_append,
    hliteral, bulk_append _ x, hu]
  omega

/-! ## Bounds -/

theorem bulk_le_countP (free : Nat) (t : Text) :
    bulk free t ≤ t.countP (· != combiningDot) := by
  induction t generalizing free with
  | nil => exact Nat.le_refl 0
  | cons c t ih =>
    rw [bulk]
    split
    · rename_i hdollar
      rw [List.countP_cons_of_pos (hdollar ▸ by decide)]
      exact Nat.succ_le_succ (ih 4)
    · have hgrow : t.countP (· != combiningDot) ≤ (c :: t).countP (· != combiningDot) :=
        (List.sublist_cons_self c t).countP_le
      split
      · exact Nat.le_trans (ih _) hgrow
      · split
        · exact Nat.le_trans (ih 0) hgrow
        · rename_i hdot
          rw [List.countP_cons_of_pos (by simpa using hdot)]
          exact Nat.succ_le_succ (ih 0)

theorem length_le_bulk (free : Nat) (t : Text) :
    t.length ≤ 5 * bulk free t + free + t.count combiningDot := by
  induction t generalizing free with
  | nil => exact Nat.zero_le _
  | cons c t ih =>
    rw [bulk, List.length_cons, List.count_cons]
    split
    · have htail := ih 4
      omega
    · split
      · have htail := ih (free - 1)
        omega
      · have htail := ih 0
        by_cases hdot : c = combiningDot
        · simp only [hdot, if_true, beq_self_eq_true]
          omega
        · rw [if_neg hdot]
          omega

/-- Decimal digits in front of the first dollar sign count. -/
theorem countP_isDigit_le_bulk (t : Text) :
    (t.takeWhile fun c => c ≠ '$').countP Char.isDigit ≤ bulk 0 t := by
  induction t with
  | nil => exact Nat.le_refl 0
  | cons c t ih =>
    rw [List.takeWhile_cons]
    split
    · rename_i hdollar
      rw [List.countP_cons, bulk_zero_cons (by simpa using hdollar)]
      by_cases hdot : c = combiningDot
      · rw [hdot]
        exact ih
      · rw [if_neg hdot]
        split <;> omega
    · exact Nat.zero_le _

/-! ## Where digits are free -/

/-- A character that is neither a digit nor a dollar sign ends the digits that are free. -/
theorem freeAfter_concat {c : Char} (hc : isLowerHexDigit c = false) (hdollar : c ≠ '$')
    (free : Nat) (s : Text) : freeAfter free (s ++ [c]) = 0 := by
  induction s generalizing free with
  | nil => simp [freeAfter, hc, hdollar]
  | cons d s ih =>
    rw [List.cons_append, freeAfter]
    split
    · exact ih 4
    · split
      · exact ih _
      · exact ih 0

/-- Nothing becomes free without a dollar sign. -/
theorem freeAfter_of_not_mem {s : Text} (hs : '$' ∉ s) : freeAfter 0 s = 0 := by
  induction s with
  | nil => rfl
  | cons c s ih =>
    rw [List.mem_cons, not_or] at hs
    rw [freeAfter, if_neg (Ne.symm hs.1), if_neg (by simp), ih hs.2]

theorem freeAfter_append (free : Nat) (s t : Text) :
    freeAfter free (s ++ t) = freeAfter (freeAfter free s) t := by
  induction s generalizing free with
  | nil => rfl
  | cons c s ih =>
    rw [List.cons_append, freeAfter, freeAfter]
    split
    · exact ih 4
    · split
      · exact ih _
      · exact ih 0

/-- Where digits are free, a dollar sign and other digits stand in front. -/
theorem exists_dollar_of_freeAfter {s : Text} (h : 0 < freeAfter 0 s) :
    ∃ p ds, s = p ++ '$' :: ds ∧ (∀ c ∈ ds, isLowerHexDigit c = true)
      ∧ freeAfter 0 s + ds.length ≤ 4 := by
  have hgeneral : ∀ free, 0 < freeAfter free s →
      ((∀ c ∈ s, isLowerHexDigit c = true) ∧ freeAfter free s + s.length ≤ free)
      ∨ ∃ p ds, s = p ++ '$' :: ds ∧ (∀ c ∈ ds, isLowerHexDigit c = true)
        ∧ freeAfter free s + ds.length ≤ 4 := by
    clear h
    induction s with
    | nil => exact fun free _ => .inl ⟨fun c hc => absurd hc List.not_mem_nil, Nat.le_refl _⟩
    | cons c s ih =>
      intro free h
      have hlater : ∀ k, (∃ p ds, s = p ++ '$' :: ds ∧ (∀ c ∈ ds, isLowerHexDigit c = true)
            ∧ k + ds.length ≤ 4) →
          ∃ p ds, c :: s = p ++ '$' :: ds ∧ (∀ c ∈ ds, isLowerHexDigit c = true)
            ∧ k + ds.length ≤ 4 := by
        rintro k ⟨p, ds, rfl, hds⟩
        exact ⟨c :: p, ds, rfl, hds⟩
      rw [freeAfter] at h ⊢
      split at h
      · rename_i hdollar
        rw [if_pos hdollar]
        rcases ih 4 h with ⟨hs, hle⟩ | hs
        · exact .inr ⟨[], s, by rw [hdollar, List.nil_append], hs, hle⟩
        · exact .inr (hlater _ hs)
      · rename_i hdollar
        rw [if_neg hdollar]
        split at h
        · rename_i hdigit
          rw [if_pos hdigit]
          rcases ih _ h with ⟨hs, hle⟩ | hs
          · rw [List.length_cons]
            exact .inl ⟨List.forall_mem_cons.mpr ⟨hdigit.1, hs⟩, by omega⟩
          · exact .inr (hlater _ hs)
        · rename_i hdigit
          rw [if_neg hdigit]
          rcases ih 0 h with ⟨hs, hle⟩ | hs
          · omega
          · exact .inr (hlater _ hs)
  rcases hgeneral 0 h with ⟨-, hle⟩ | hdollar
  · omega
  · exact hdollar

/-- Characters that are neither dollar signs nor combining dots count, up to those that
are free. -/
theorem length_le_bulk_add {w : Text} (hw : ∀ c ∈ w, c ≠ '$' ∧ c ≠ combiningDot) (free : Nat) :
    w.length ≤ bulk free w + free := by
  induction w generalizing free with
  | nil => exact Nat.zero_le _
  | cons c w ih =>
    obtain ⟨hdollar, hdot⟩ := hw c List.mem_cons_self
    have htail := fun free => ih (fun d hd => hw d (List.mem_cons_of_mem c hd)) free
    rw [bulk, if_neg hdollar, List.length_cons, if_neg hdot]
    split
    · have hrest := htail (free - 1)
      omega
    · have hrest := htail 0
      omega

/-! ## Trimming -/

theorem not_digit_of_isBlank {c : Char} (hc : isBlank c = true) :
    isLowerHexDigit c = false ∧ c ≠ '$' := by
  constructor
  · refine Bool.eq_false_iff.mpr fun hdigit => ?_
    rw [OperandForm.isBlank_of_isLowerHexDigit hdigit] at hc
    cases hc
  · rintro rfl
    exact absurd hc (by decide)

theorem bulk_trimLeft_le (t : Text) : bulk 0 (trimLeft t) ≤ bulk 0 t := by
  induction t with
  | nil => exact Nat.le_refl 0
  | cons c t ih =>
    rw [trimLeft, List.dropWhile_cons]
    split
    · rename_i hc
      rw [bulk_zero_cons (not_digit_of_isBlank hc).2]
      exact Nat.le_trans ih (Nat.le_add_right _ _)
    · exact Nat.le_refl _

theorem bulk_le_of_isPrefix {s t : Text} (h : s <+: t) (free : Nat) :
    bulk free s ≤ bulk free t := by
  obtain ⟨u, rfl⟩ := h
  rw [bulk_append]
  exact Nat.le_add_right _ _

theorem bulk_trim_le (t : Text) : bulk 0 (trim t) ≤ bulk 0 t := by
  refine Nat.le_trans (bulk_le_of_isPrefix ?_ 0) (bulk_trimLeft_le t)
  rw [trim, trimRight, ← List.reverse_suffix, List.reverse_reverse]
  exact List.dropWhile_suffix isBlank

/-- Behind a blank, bulk is counted afresh. -/
theorem bulk_behind_blank_le {c : Char} (hc : isBlank c = true) (s t : Text) :
    bulk 0 (c :: t) ≤ bulk 0 (s ++ c :: t) := by
  rw [bulk_append, bulk_cons_of_not_digit (not_digit_of_isBlank hc).1 (freeAfter 0 s)]
  exact Nat.le_add_left _ _

/-! ## Lower case -/

theorem lowerBetween_cases (before : Text) (c : Char) (after : Text) :
    (∃ d, lowerBetween before c after = [d])
      ∨ lowerBetween before c after = ['i', combiningDot] := by
  rw [lowerBetween]
  split
  · exact .inl ⟨_, rfl⟩
  · split
    · exact .inr rfl
    · exact .inl ⟨_, rfl⟩

theorem countP_lowerBetween_le (before : Text) (c : Char) (after : Text) :
    (lowerBetween before c after).countP (· != combiningDot) ≤ 1
      ∧ (lowerBetween before c after).count combiningDot ≤ 1 := by
  rcases lowerBetween_cases before c after with ⟨d, hd⟩ | hi
  · rw [hd]
    exact ⟨List.countP_le_length, List.count_le_length⟩
  · rw [hi]
    decide

theorem countP_lowerBehind_le (before t : Text) :
    (lowerBehind before t).countP (· != combiningDot) ≤ t.length
      ∧ (lowerBehind before t).count combiningDot ≤ t.length := by
  induction t generalizing before with
  | nil => exact ⟨Nat.le_refl 0, Nat.le_refl 0⟩
  | cons c t ih =>
    have hhead := countP_lowerBetween_le before c t
    have htail := ih (c :: before)
    rw [lowerBehind, List.countP_append, List.count_append, List.length_cons]
    omega

/-- A text in lower case is as long as the text, up to a combining dot for every
character. -/
theorem countP_lower_le (t : Text) :
    (lower t).countP (· != combiningDot) ≤ t.length
      ∧ (lower t).count combiningDot ≤ t.length :=
  countP_lowerBehind_le [] t

/-- A combining dot that stands behind no `i` was written as such, and it is not counted. -/
theorem countP_lower_lt {t front u : Text} (h : lower t = front ++ combiningDot :: u)
    (hfront : front.getLast? ≠ some 'i') : (lower t).countP (· != combiningDot) < t.length := by
  have hbehind : ∀ before front : Text, lowerBehind before t = front ++ combiningDot :: u →
      front.getLast? ≠ some 'i' →
      (lowerBehind before t).countP (· != combiningDot) < t.length := by
    clear h hfront front
    induction t with
    | nil =>
      intro before front h
      exact absurd h.symm (List.append_ne_nil_of_right_ne_nil _ (List.cons_ne_nil _ _))
    | cons c t ih =>
      intro before front h hfront
      have hhead := (countP_lowerBetween_le before c t).1
      -- the dot comes later, behind the lower case of the first character
      have hlater : ∀ front, lowerBehind (c :: before) t = front ++ combiningDot :: u →
          front.getLast? ≠ some 'i' →
          (lowerBehind before (c :: t)).countP (· != combiningDot) < (c :: t).length := by
        intro front h hfront
        have htail := ih (c :: before) front h hfront
        rw [lowerBehind, List.countP_append, List.length_cons]
        omega
      have hlast : ∀ (d : Char) (front : Text), (d :: front).getLast? ≠ some 'i' →
          front.getLast? ≠ some 'i' := by
        intro d front hfront hi
        rw [List.getLast?_cons, hi] at hfront
        exact hfront rfl
      rw [lowerBehind] at h
      rcases lowerBetween_cases before c t with ⟨d, hd⟩ | hi
      · rw [hd, List.singleton_append] at h
        cases front with
        | nil =>
          obtain ⟨rfl, -⟩ := List.cons.inj h
          have htail := (countP_lowerBehind_le (c :: before) t).1
          rw [lowerBehind, hd, List.singleton_append, List.countP_cons_of_neg (by simp),
            List.length_cons]
          omega
        | cons e front => exact hlater front (List.cons.inj h).2 (hlast e front hfront)
      · rw [hi, List.cons_append, List.singleton_append] at h
        rcases front with _ | ⟨e, _ | ⟨f, front⟩⟩
        · exact absurd (List.cons.inj h).1 (by decide)
        · rw [← (List.cons.inj h).1] at hfront
          exact absurd rfl hfront
        · exact hlater front (List.cons.inj (List.cons.inj h).2).2
            (hlast f front (hlast e _ hfront))
  exact hbehind [] front h hfront

end Text

/-! ## Reading -/

namespace Literal

theorem countP_clean_le (t : Text) :
    ((clean t).takeWhile fun c => c ≠ '$').countP Char.isDigit
      ≤ (t.takeWhile fun c => c ≠ '$').countP Char.isDigit := by
  induction t with
  | nil => exact Nat.le_refl 0
  | cons c t ih =>
    rw [clean]
    split
    · rename_i hcomma
      rw [hcomma]
      exact Nat.zero_le _
    · split
      · rename_i hdecoration
        have hne : c ≠ '$' := by
          rintro rfl
          exact absurd hdecoration (by decide)
        rw [List.takeWhile_cons_of_pos (by simpa using hne), List.countP_cons]
        exact Nat.le_trans ih (Nat.le_add_right _ _)
      · rw [List.takeWhile_cons, List.takeWhile_cons]
        split
        · rw [List.countP_cons, List.countP_cons]
          omega
        · exact Nat.le_refl _

/-- The run that a decimal value is read from lies in front of the first dollar sign. -/
theorem length_digitsOf_le (t : Text) :
    (digitsOf 10 t).length ≤ (t.takeWhile fun c => c ≠ '$').countP Char.isDigit := by
  have hrun : ∀ u : Text, (u.takeWhile (isDigitOf 10)).length
      ≤ (u.takeWhile fun c => c ≠ '$').countP Char.isDigit := by
    intro u
    induction u with
    | nil => exact Nat.le_refl 0
    | cons c u ih =>
      rw [List.takeWhile_cons]
      split
      · rename_i hc
        have hdigit := isDigitOf_ten_iff.mp hc
        have hne : c ≠ '$' := by
          rintro rfl
          exact absurd hdigit (by decide)
        rw [List.takeWhile_cons_of_pos (by simpa using hne), List.countP_cons_of_pos hdigit,
          List.length_cons]
        exact Nat.succ_le_succ ih
      · exact Nat.zero_le _
  rw [digitsOf, splitSign.eq_def]
  split
  · rename_i u
    rw [List.takeWhile_cons_of_pos (by decide), List.countP_cons]
    exact Nat.le_trans (hrun u) (Nat.le_add_right _ _)
  · rename_i u
    rw [List.takeWhile_cons_of_pos (by decide), List.countP_cons]
    exact Nat.le_trans (hrun u) (Nat.le_add_right _ _)
  · exact hrun t

/-- An operand without too many decimal digits in front of the first dollar sign is read. -/
theorem exists_read {t : Text}
    (h : (t.takeWhile fun c => c ≠ '$').countP Char.isDigit ≤ digitLimit) :
    ∃ l, read t = .ok l := by
  rw [read]
  split
  · exact ⟨_, rfl⟩
  · rename_i c cs hclean
    have hvalue : ∃ v, leadingValue (form (c :: cs)).base (form (c :: cs)).body = .ok v := by
      rw [leadingValue]
      split
      · rename_i hmany
        simp only [Bool.and_eq_true, decide_eq_true_iff] at hmany
        obtain ⟨hbase, hmany⟩ := hmany
        have hbody : (form (c :: cs)).body = c :: cs := by
          rw [form.eq_def] at hbase ⊢
          split at hbase
          · cases hbase
          · cases hbase
          · cases hbase
          · rfl
        have hbound := countP_clean_le t
        rw [hclean] at hbound
        have hlength := length_digitsOf_le (c :: cs)
        rw [hbase, hbody] at hmany
        omega
      · exact ⟨_, rfl⟩
    obtain ⟨v, hv⟩ := hvalue
    simp only [hv]
    exact ⟨_, rfl⟩

/-- An operand that is not bulky is read. -/
theorem exists_read_of_bulk {t : Text} (h : Text.bulk 0 t ≤ digitLimit) : ∃ l, read t = .ok l :=
  exists_read (Nat.le_trans (Text.countP_isDigit_le_bulk t) h)

end Literal

end Cross6502
