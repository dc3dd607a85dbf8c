import Cross6502.Proofs.Substitution.Light

/-!
# Folding the sum of a light line

Folding a sum reads its two sides, and a decimal side with too many digits cannot be read.
In a light line both are short enough.  For the right side that is so because a sign
stands in front of it, behind which every character counts.  The left side is more of a
problem: digits behind a dollar sign do not count, and a sum may begin among them.  But
the first sum of a line does not, since it would begin at the dollar sign
(`countP_isDigit_le_of_free`).  What is left are digits of other scripts, which are not
read, and a dollar sign within the first three characters, where no sum is looked for.

So folding leaves a light line, or the line outgrows its buffer (`endsWell_fold`).
-/

namespace Cross6502

namespace Arithmetic

/-! ## Literals and signs -/

/-- A literal that is split off, and what is left behind it. -/
inductive IsSplit : Text → Text → Prop
  | hexadecimal {ds rest : Text} (hds : ∀ c ∈ ds, isLowerHexDigit c = true)
      (hrest : ∀ c ∈ rest.head?, isLowerHexDigit c = false) : IsSplit ('$' :: ds) rest
  | binary {ds rest : Text} (hds : ∀ c ∈ ds, isBinaryDigit c = true) : IsSplit ('%' :: ds) rest
  | decimal {ds rest : Text} (hne : ds ≠ []) (hds : ∀ c ∈ ds, Text.isDecimal c = true) :
      IsSplit ds rest

theorem of_splitRun {p : Char → Bool} {t run rest : Text}
    (h : splitRun p t = some (run, rest)) :
    t = run ++ rest ∧ run ≠ [] ∧ (∀ c ∈ run, p c = true) ∧ ∀ c ∈ rest.head?, p c = false := by
  rw [splitRun] at h
  split at h
  · cases h
  · rename_i hne
    cases h
    refine ⟨(List.takeWhile_append_dropWhile).symm, hne, fun c hc => List.mem_takeWhile_imp hc, ?_⟩
    intro c hc
    have hhead := List.head?_dropWhile_not p t
    rw [Option.mem_def.mp hc] at hhead
    simpa using hhead

theorem of_splitLiteral {t l rest : Text} (h : splitLiteral t = some (l, rest)) :
    t = l ++ rest ∧ IsSplit l rest := by
  rw [splitLiteral.eq_def] at h
  split at h
  · obtain ⟨⟨run, rest'⟩, hrun, heq⟩ := Option.map_eq_some_iff.mp h
    cases heq
    obtain ⟨rfl, -, hds, hrest⟩ := of_splitRun hrun
    exact ⟨rfl, .hexadecimal hds hrest⟩
  · obtain ⟨⟨run, rest'⟩, hrun, heq⟩ := Option.map_eq_some_iff.mp h
    cases heq
    obtain ⟨rfl, -, hds, -⟩ := of_splitRun hrun
    exact ⟨rfl, .binary hds⟩
  · obtain ⟨rfl, hne, hds, -⟩ := of_splitRun h
    exact ⟨rfl, .decimal hne hds⟩

theorem isBlank_of_isDecimal {c : Char} (hc : Text.isDecimal c = true) :
    Text.isBlank c = false := by
  rw [Text.isDecimal, Bool.or_eq_true] at hc
  rcases hc with hc | hc
  · exact OperandForm.isBlank_of_isLowerHexDigit (isLowerHexDigit_of_isDigit hc)
  · rw [Bool.and_eq_true, decide_eq_true_eq] at hc
    exact Text.isBlank_of_inRanges (by decide) hc.1 hc.2

/-- A sign with blanks around it. -/
def IsOperator (minus : Bool) (o : Text) : Prop :=
  ∃ front back, o = front ++ signOf minus :: back ∧ (∀ c ∈ front, Text.isBlank c = true)
    ∧ ∀ c ∈ back, Text.isBlank c = true

theorem of_splitOperator {t rest : Text} {minus : Bool}
    (h : splitOperator t = some (minus, rest)) : ∃ o, t = o ++ rest ∧ IsOperator minus o := by
  have htrim : ∀ u : Text, u.takeWhile Text.isBlank ++ Text.trimLeft u = u := fun u =>
    List.takeWhile_append_dropWhile
  have hsign : ∀ (m : Bool) (u : Text), Text.trimLeft t = signOf m :: u →
      ∃ o, t = o ++ Text.trimLeft u ∧ IsOperator m o := by
    intro m u hu
    refine ⟨t.takeWhile Text.isBlank ++ signOf m :: u.takeWhile Text.isBlank, ?_, _, _, rfl,
      fun c hc => List.mem_takeWhile_imp hc, fun c hc => List.mem_takeWhile_imp hc⟩
    rw [List.append_assoc, List.cons_append, htrim u, ← hu, htrim t]
  rw [splitOperator] at h
  split at h
  · rename_i u hu
    cases h
    exact hsign false u hu
  · rename_i u hu
    cases h
    exact hsign true u hu
  · cases h

namespace IsOperator

variable {minus : Bool} {o : Text}

theorem endsLiteral (h : IsOperator minus o) (t : Text) : EndsLiteral (o ++ t) := by
  obtain ⟨front, back, rfl, hfront, -⟩ := h
  cases front with
  | nil =>
    intro c hc
    obtain rfl : signOf minus = c := Option.some_inj.mp hc
    cases minus <;> decide
  | cons d front =>
    intro c hc
    obtain rfl : d = c := Option.some_inj.mp hc
    have hblank := hfront d List.mem_cons_self
    refine ⟨(Text.not_digit_of_isBlank hblank).1, Bool.eq_false_iff.mpr fun hdecimal => ?_⟩
    rw [isBlank_of_isDecimal hdecimal] at hblank
    cases hblank

theorem bulk_pos (h : IsOperator minus o) (free : Nat) : 0 < Text.bulk free o := by
  obtain ⟨front, back, rfl, -, -⟩ := h
  have hsign : ∀ k, 0 < Text.bulk k (signOf minus :: back) := by
    intro k
    rw [Text.bulk_cons_of_not_digit (by cases minus <;> decide)]
    exact Text.bulk_pos (by cases minus <;> decide) back
  rw [Text.bulk_append]
  exact Nat.lt_of_lt_of_le (hsign _) (Nat.le_add_left _ _)

/-- No digits are free behind a sign. -/
theorem freeAfter_eq_zero (h : IsOperator minus o) (free : Nat) : Text.freeAfter free o = 0 := by
  obtain ⟨front, back, rfl, -, hback⟩ := h
  rcases List.eq_nil_or_concat back with rfl | ⟨back, c, rfl⟩
  · exact Text.freeAfter_concat (by cases minus <;> decide) (by cases minus <;> decide) free front
  · rw [List.concat_eq_append] at hback ⊢
    obtain ⟨hdigit, hdollar⟩ := Text.not_digit_of_isBlank (hback c (by simp))
    rw [← List.cons_append, ← List.append_assoc]
    exact Text.freeAfter_concat hdigit hdollar free _

end IsOperator

/-! ## The first sum -/

/-- How a sum at the front of a text is made up.  Any literal in place of its left side
would make a sum as well. -/
structure Parts (s : Sum) (o rest t : Text) : Prop where
  text : t = s.left ++ (o ++ (s.right ++ rest))
  length : s.length = (s.left ++ (o ++ s.right)).length
  operator : IsOperator s.minus o
  left : IsSplit s.left (o ++ (s.right ++ rest))
  right : IsSplit s.right rest
  again : ∀ l, IsLiteral l → sumAt? (l ++ (o ++ (s.right ++ rest))) ≠ none

theorem exists_parts_of_sumAt? {t : Text} {s : Sum} (h : sumAt? t = some s) :
    ∃ o rest, Parts s o rest t := by
  rw [sumAt?] at h
  obtain ⟨⟨left, rest₁⟩, hleft, h⟩ := Option.bind_eq_some_iff.mp h
  obtain ⟨⟨minus, rest₂⟩, hoperator, h⟩ := Option.bind_eq_some_iff.mp h
  obtain ⟨⟨right, rest⟩, hright, h⟩ := Option.bind_eq_some_iff.mp h
  cases h
  obtain ⟨rfl, hleftSplit⟩ := of_splitLiteral hleft
  obtain ⟨o, rfl, ho⟩ := of_splitOperator hoperator
  obtain ⟨rfl, hrightSplit⟩ := of_splitLiteral hright
  refine ⟨o, rest, rfl, ?_, ho, hleftSplit, hrightSplit, fun l hl => ?_⟩
  · simp only [List.length_append]
    omega
  · rw [sumAt?, splitLiteral_append hl (ho.endsLiteral _)]
    simp only [Option.bind_eq_bind, Option.bind_some, hoperator, hright]
    exact Option.some_ne_none _

/-- The first sum is found: none begins in front of it. -/
theorem of_findFrom? {t : Text} {i j : Nat} {s : Sum} (h : findFrom? i t = some (j, s)) :
    ∃ p r, t = p ++ r ∧ j = i + p.length ∧ sumAt? r = some s
      ∧ ∀ a b, p = a ++ b → b ≠ [] → sumAt? (b ++ r) = none := by
  induction t generalizing i with
  | nil => cases h
  | cons c t ih =>
    rw [findFrom?] at h
    split at h
    · rename_i hsum
      cases h
      refine ⟨[], c :: t, rfl, rfl, hsum, fun a b hab hb => ?_⟩
      exact absurd (List.append_eq_nil_iff.mp hab.symm).2 hb
    · rename_i hnone
      obtain ⟨p, r, rfl, rfl, hsum, hfirst⟩ := ih h
      refine ⟨c :: p, r, rfl, by rw [List.length_cons]; omega, hsum, fun a b hab hb => ?_⟩
      cases a with
      | nil =>
        rw [List.nil_append] at hab
        rw [← hab]
        exact hnone
      | cons d a => exact hfirst a b (List.cons.inj hab).2 hb

theorem of_find? {line : Text} {j : Nat} {s : Sum} (h : find? line = some (j, s)) :
    ∃ p r, line = p ++ r ∧ j = p.length ∧ 3 ≤ p.length ∧ sumAt? r = some s
      ∧ ∀ a b, p = a ++ b → 3 ≤ a.length → b ≠ [] → sumAt? (b ++ r) = none := by
  obtain ⟨p, r, hdrop, rfl, hsum, hfirst⟩ := of_findFrom? h
  have hline : line = (line.take 3 ++ p) ++ r := by
    rw [List.append_assoc]
    exact (List.take_append_drop 3 line).symm.trans (congrArg _ hdrop)
  have hlength : (line.take 3).length = 3 := by
    refine List.length_take_of_le (Nat.le_of_not_lt fun hshort => ?_)
    rw [Token.operandStart, List.drop_eq_nil_of_le (Nat.le_of_lt hshort)] at hdrop
    rw [(List.append_eq_nil_iff.mp hdrop.symm).2] at hsum
    cases hsum
  refine ⟨line.take 3 ++ p, r, hline, ?_, ?_, hsum, fun a b hab ha hb => ?_⟩
  · rw [List.length_append, hlength, Token.operandStart]
  · rw [List.length_append]
    omega
  · refine hfirst (a.drop 3) b ?_ hb
    have hcut := congrArg (List.drop 3) hab
    rwa [List.drop_append_of_le_length ha, List.drop_left' hlength] at hcut

/-! ## Reading both sides -/

theorem ne_of_isDecimal {c : Char} (hc : Text.isDecimal c = true) :
    c ≠ '$' ∧ c ≠ Text.combiningDot := by
  constructor
  · rintro rfl
    exact absurd hc (by decide)
  · rintro rfl
    exact absurd hc (by decide)

namespace IsSplit

variable {l rest : Text}

theorem bulk_pos (h : IsSplit l rest) : 0 < Text.bulk 0 l := by
  cases h with
  | hexadecimal => exact Text.bulk_pos (by decide) _
  | binary => exact Text.bulk_pos (by decide) _
  | decimal hne hds =>
    obtain ⟨c, t, rfl⟩ := List.exists_cons_of_ne_nil hne
    exact Text.bulk_pos (ne_of_isDecimal (hds c List.mem_cons_self)).2 t

/-- Where no digits are free, a literal leaves none to what is behind it. -/
theorem bulk_rest (h : IsSplit l rest) :
    Text.bulk (Text.freeAfter 0 l) rest = Text.bulk 0 rest := by
  cases h with
  | hexadecimal _ hrest => exact Text.bulk_of_head hrest _
  | binary hds =>
    rw [Text.freeAfter_of_not_mem]
    rw [List.mem_cons, not_or]
    refine ⟨by decide, fun hdollar => ?_⟩
    exact absurd (hds _ hdollar) (by decide)
  | decimal _ hds =>
    rw [Text.freeAfter_of_not_mem]
    exact fun hdollar => (ne_of_isDecimal (hds _ hdollar)).1 rfl

end IsSplit

section Read

variable {p r o rest : Text} {s : Sum}

/-- Beside the left side of a sum, its sign and its right side count. -/
theorem Parts.bulk_le (h : Parts s o rest r) :
    Text.bulk 0 p + Text.bulk (Text.freeAfter 0 p) s.left + Text.bulk 0 s.right + 1
      ≤ Text.bulk 0 (p ++ r) := by
  have hsign := h.operator.bulk_pos (Text.freeAfter (Text.freeAfter 0 p) s.left)
  rw [h.text, Text.bulk_append 0 p, Text.bulk_append _ s.left, Text.bulk_append _ o,
    h.operator.freeAfter_eq_zero, Text.bulk_append 0 s.right]
  omega

/-- Decimal digits behind a dollar sign.  If all of them are plain digits, they belong to a
hexadecimal literal, so that the dollar sign stands in front of the operand. -/
theorem countP_isDigit_le_of_free {l : Text} (hlight : Text.Light (p ++ r)) (hp : 3 ≤ p.length)
    (hl : ∀ c ∈ l, Text.isDecimal c = true)
    (hbulk : Text.bulk 0 p + Text.bulk (Text.freeAfter 0 p) l + 2 ≤ Text.bulk 0 (p ++ r))
    (hfree : 0 < Text.freeAfter 0 p)
    (hplain : (∀ c ∈ l, c.isDigit = true) → ∀ a ds, p = a ++ '$' :: ds →
      (∀ c ∈ ds, isLowerHexDigit c = true) → a.length < 3) :
    l.countP Char.isDigit ≤ digitLimit := by
  obtain ⟨a, ds, hpa, hds, hleft⟩ := Text.exists_dollar_of_freeAfter hfree
  have hlength := Text.length_le_bulk_add (fun c hc => ne_of_isDecimal (hl c hc))
    (Text.freeAfter 0 p)
  have hdollar : Text.bulk 0 a + 1 ≤ Text.bulk 0 p := by
    rw [hpa, Text.bulk_append, Text.bulk, if_pos rfl]
    omega
  have hle := hlight.bulk_le
  by_cases hall : ∀ c ∈ l, c.isDigit = true
  · have hcount : l.countP Char.isDigit ≤ l.length := List.countP_le_length
    have hshort := hplain hall a ds hpa hds
    cases ds with
    | cons d ds =>
      rw [List.length_cons] at hleft
      omega
    | nil =>
      have htwo : a.length = 2 := by
        rw [hpa, List.length_append, List.length_singleton] at hp
        omega
      obtain ⟨c, u, rfl⟩ := List.exists_cons_of_length_eq_add_one htwo
      by_cases hdot : c = Text.combiningDot
      · have hlt := hlight.head_lt (by rw [hpa, hdot]; rfl)
        omega
      · have hpos := Text.bulk_pos hdot u
        omega
  · have hcount : l.countP Char.isDigit < l.length := by
      refine Nat.lt_of_le_of_ne List.countP_le_length fun heq => hall ?_
      exact List.countP_eq_length.mp heq
    omega

/-- The left side of the first sum of a light line is read. -/
theorem exists_read_left (hlight : Text.Light (p ++ r)) (hp : 3 ≤ p.length)
    (h : Parts s o rest r)
    (hfirst : ∀ a b, p = a ++ b → 3 ≤ a.length → b ≠ [] → sumAt? (b ++ r) = none) :
    ∃ l, Literal.read s.left = .ok l := by
  have hbulk := h.bulk_le (p := p)
  have hright := h.right.bulk_pos
  have hle := hlight.bulk_le
  have htext := h.text
  have hagain := h.again
  have hsplit := h.left
  generalize s.left = l at hbulk htext hsplit ⊢
  cases hsplit with
  | hexadecimal =>
    refine Literal.exists_read ?_
    rw [List.takeWhile_cons_of_neg (by decide)]
    exact Nat.zero_le _
  | binary hds =>
    refine Literal.exists_read_of_bulk ?_
    rw [Text.bulk_cons_of_not_digit (by decide)] at hbulk
    omega
  | decimal hne hds =>
    rcases Nat.eq_zero_or_pos (Text.freeAfter 0 p) with hzero | hpos
    · rw [hzero] at hbulk
      exact Literal.exists_read_of_bulk (by omega)
    · refine Literal.exists_read (Nat.le_trans (List.takeWhile_sublist _).countP_le ?_)
      refine countP_isDigit_le_of_free hlight hp hds (by omega) hpos ?_
      intro hall a ds hpa hhex
      by_contra hlong
      refine hagain ('$' :: ds ++ l) (.hexadecimal ⟨by simp [hne], ?_⟩) ?_
      · intro c hc
        rcases List.mem_append.mp hc with hc | hc
        · exact hhex c hc
        · exact isLowerHexDigit_of_isDigit (hall c hc)
      · rw [List.append_assoc, ← htext]
        exact hfirst a ('$' :: ds) hpa (by omega) (List.cons_ne_nil _ _)

theorem exists_read_right (hlight : Text.Light (p ++ r)) (h : Parts s o rest r) :
    ∃ l, Literal.read s.right = .ok l := by
  have hbulk := h.bulk_le (p := p)
  have hle := hlight.bulk_le
  exact Literal.exists_read_of_bulk (by omega)

end Read

/-! ## Folding -/

/-- The first sum of a light line is folded, or the line does not fit its buffer. -/
theorem endsWell_fold {b : LineBuffer} (h : b.IsLight) :
    EndsWell (fun r => r.1.IsLight) (fold b) := by
  rw [fold]
  split
  · exact h
  · rename_i i s hfind
    obtain ⟨p, r, htext, rfl, hp, hsum, hfirst⟩ := of_find? hfind
    obtain ⟨o, rest, hparts⟩ := exists_parts_of_sumAt? hsum
    have hlight : Text.Light (p ++ r) := htext ▸ h.text
    obtain ⟨left, hleft⟩ := exists_read_left hlight hp hparts hfirst
    obtain ⟨right, hright⟩ := exists_read_right hlight hparts
    have hliteral : ∃ word n, s.literalText = .ok (Replacement.literal word n) := by
      rw [Sum.literalText, hleft, hright]
      exact ⟨_, _, congrArg Except.ok (resultText_eq_literal left right (total_lt _ _ _))⟩
    obtain ⟨word, n, hliteral⟩ := hliteral
    have hb : b.text = p ++ (s.left ++ (o ++ s.right)) ++ rest := by
      rw [htext, hparts.text]
      simp only [List.append_assoc]
    have hsplice := LineBuffer.endsWell_splice h hb ?_ ?_ word n
    · rw [hliteral, hparts.length]
      exact hsplice.bind fun _ hb => hb
    · have hsign := hparts.operator.bulk_pos (Text.freeAfter (Text.freeAfter 0 p) s.left)
      rw [Text.bulk_append, Text.bulk_append]
      omega
    · rw [Text.freeAfter_append, Text.freeAfter_append, hparts.operator.freeAfter_eq_zero]
      exact hparts.right.bulk_rest

end Arithmetic

end Cross6502
