import Cross6502.Proofs.Substitution.SingleName

/-!
# Lines that hold a sum

Behind a name an operand may hold a sign and a literal, and once a literal has taken the
place of the name the two are folded into one.  Folding looks for the first place where
two literals stand with a sign between them.  In an operand form that is where the sum was
written: the gap and the opening begin no literal, and neither does a name, except that
digits at its end are a literal to the search (`find?_sum_line`).  So in `foo1+1` the sum
that is found is `1+1`.

The folded literal takes the place of the whole sum.  It has the width of the wider side,
or four places if the value needs them, and holds the value modulo `2 ^ 16`
(`fold_sum_line`).
-/

namespace Cross6502

open OperandForm Token Replacement

namespace Arithmetic

/-! ## Literals and sums -/

/-- A literal as the search for sums knows it, in the seven-bit range. -/
inductive IsLiteral : Text → Prop
  | hexadecimal {ds : Text} (hds : IsHexRun ds) : IsLiteral ('$' :: ds)
  | binary {ds : Text} (hne : ds ≠ []) (hds : ∀ c ∈ ds, isBinaryDigit c = true) :
      IsLiteral ('%' :: ds)
  | decimal {ds : Text} (hne : ds ≠ []) (hds : ∀ c ∈ ds, c.isDigit = true) : IsLiteral ds

/-- The sign of a sum. -/
def signOf (minus : Bool) : Char := if minus then '-' else '+'

theorem isLowerHexDigit_of_isDigit {c : Char} (hc : c.isDigit = true) :
    isLowerHexDigit c = true := by
  rw [isLowerHexDigit, hc, Bool.true_or]

theorem isLowerHexDigit_of_isBinaryDigit {c : Char} (hc : isBinaryDigit c = true) :
    isLowerHexDigit c = true := by
  rw [isBinaryDigit, Bool.or_eq_true, decide_eq_true_iff, decide_eq_true_iff] at hc
  rcases hc with rfl | rfl <;> decide

theorem isSumChar_of_isLowerHexDigit {c : Char} (hc : isLowerHexDigit c = true) :
    isSumChar c = true := by
  rw [isSumChar, hc, Bool.or_true]

theorem isDecimal_of_isDigit {c : Char} (hc : c.isDigit = true) : Text.isDecimal c = true := by
  rw [Text.isDecimal, hc, Bool.true_or]

/-- In the seven-bit range there are no decimal digits but ten. -/
theorem isDecimal_of_lt {c : Char} (hlt : c.toNat < 128) : Text.isDecimal c = c.isDigit := by
  have hnot : ¬ (128 ≤ c.toNat) := by omega
  simp [Text.isDecimal, hnot]

namespace IsLiteral

variable {t : Text}

theorem ne_nil (h : IsLiteral t) : t ≠ [] := by
  cases h with
  | hexadecimal => exact List.cons_ne_nil _ _
  | binary => exact List.cons_ne_nil _ _
  | decimal hne => exact hne

theorem mem (h : IsLiteral t) : ∀ c ∈ t, c = '$' ∨ c = '%' ∨ isLowerHexDigit c = true := by
  intro c hc
  cases h with
  | hexadecimal hds =>
    rcases List.mem_cons.mp hc with rfl | hc
    · exact .inl rfl
    · exact .inr (.inr (hds.2 c hc))
  | binary _ hds =>
    rcases List.mem_cons.mp hc with rfl | hc
    · exact .inr (.inl rfl)
    · exact .inr (.inr (isLowerHexDigit_of_isBinaryDigit (hds c hc)))
  | decimal _ hds => exact .inr (.inr (isLowerHexDigit_of_isDigit (hds c hc)))

theorem isSumChar_of_mem (h : IsLiteral t) : ∀ c ∈ t, isSumChar c = true := by
  intro c hc
  rcases h.mem c hc with rfl | rfl | hc
  · decide
  · decide
  · exact isSumChar_of_isLowerHexDigit hc

theorem unsigned (h : IsLiteral t) : Unsigned t := by
  intro c hc
  rcases h.mem c hc with rfl | rfl | hc
  · decide
  · decide
  · have hfurther := isFurther_of_isLowerHexDigit hc
    exact ⟨ne_of_isFurther hfurther (by decide), ne_of_isFurther hfurther (by decide)⟩

end IsLiteral

theorem isLiteral_literal (word : Bool) (n : Int) : IsLiteral (literal word n) := by
  rw [literal_eq]
  exact .hexadecimal (isHexRun_lowerHex word n)

theorem isAddend_of_isLiteral {n : Text} (hn : IsLiteral n) (minus : Bool) :
    IsAddend (signOf minus :: n) := by
  refine ⟨fun c hc => ?_, fun c hc => ?_⟩
  · rw [List.head?_cons, Option.mem_some] at hc
    subst hc
    cases minus
    · exact .inl rfl
    · exact .inr rfl
  · rcases List.mem_cons.mp hc with rfl | hc
    · cases minus <;> decide
    · exact hn.isSumChar_of_mem c hc

/-! ## Splitting -/

theorem splitRun_append {p : Char → Bool} {run rest : Text} (hne : run ≠ [])
    (hrun : ∀ c ∈ run, p c = true) (hrest : ∀ c ∈ rest.head?, p c = false) :
    splitRun p (run ++ rest) = some (run, rest) := by
  have htake : rest.takeWhile p = [] ∧ rest.dropWhile p = rest := by
    cases rest with
    | nil => exact ⟨rfl, rfl⟩
    | cons c rest =>
      have hc : p c = false := hrest c rfl
      exact ⟨List.takeWhile_cons_of_neg (by simp [hc]), List.dropWhile_cons_of_neg (by simp [hc])⟩
  rw [splitRun, List.takeWhile_append_of_pos hrun, List.dropWhile_append_of_pos hrun, htake.1,
    htake.2, List.append_nil]
  cases run with
  | nil => exact absurd rfl hne
  | cons c run => rfl

/-- What a literal is not continued by. -/
def EndsLiteral (rest : Text) : Prop :=
  ∀ c ∈ rest.head?, isLowerHexDigit c = false ∧ Text.isDecimal c = false

theorem splitLiteral_append {n rest : Text} (hn : IsLiteral n) (hrest : EndsLiteral rest) :
    splitLiteral (n ++ rest) = some (n, rest) := by
  cases hn with
  | hexadecimal hds =>
    rw [List.cons_append, splitLiteral, splitRun_append hds.1 hds.2 fun c hc => (hrest c hc).1]
    rfl
  | binary hne hds =>
    have hend : ∀ c ∈ rest.head?, isBinaryDigit c = false := by
      intro c hc
      by_contra hbinary
      have hhex := isLowerHexDigit_of_isBinaryDigit (by simpa using hbinary)
      rw [(hrest c hc).1] at hhex
      cases hhex
    rw [List.cons_append, splitLiteral, splitRun_append hne hds hend]
    rfl
  | decimal hne hds =>
    have hrun := splitRun_append hne (fun c hc => isDecimal_of_isDigit (hds c hc))
      fun c hc => (hrest c hc).2
    obtain ⟨c, t, rfl⟩ := List.exists_cons_of_ne_nil hne
    have hc := hds c List.mem_cons_self
    rw [List.cons_append, splitLiteral.eq_3]
    · exact hrun
    · rintro u h
      rw [(List.cons.inj h).1] at hc
      exact absurd hc (by decide)
    · rintro u h
      rw [(List.cons.inj h).1] at hc
      exact absurd hc (by decide)

theorem splitOperator_cons (minus : Bool) {n rest : Text} (hn : IsLiteral n) :
    splitOperator (signOf minus :: (n ++ rest)) = some (minus, n ++ rest) := by
  have hblank : Text.trimLeft (n ++ rest) = n ++ rest := by
    obtain ⟨c, t, rfl⟩ := List.exists_cons_of_ne_nil hn.ne_nil
    exact Text.trimLeft_cons (isBlank_of_isSumChar (hn.isSumChar_of_mem c List.mem_cons_self)) _
  rw [splitOperator, Text.trimLeft_cons (by cases minus <;> decide)]
  cases minus
  · exact congrArg (fun t => some (false, t)) hblank
  · exact congrArg (fun t => some (true, t)) hblank

/-- A sum is found where it was written. -/
theorem sumAt?_append {l n rest : Text} (hl : IsLiteral l) (hn : IsLiteral n) (minus : Bool)
    (hrest : EndsLiteral rest) :
    sumAt? (l ++ signOf minus :: (n ++ rest))
      = some ⟨l, minus, n, (l ++ signOf minus :: n).length⟩ := by
  have hsign : EndsLiteral (signOf minus :: (n ++ rest)) := by
    intro c hc
    rw [List.head?_cons, Option.mem_some] at hc
    subst hc
    cases minus <;> decide
  rw [sumAt?, splitLiteral_append hl hsign]
  simp only [Option.bind_eq_bind, Option.bind_some, splitOperator_cons minus hn,
    splitLiteral_append hn hrest]
  simp only [List.length_append, List.length_cons]
  congr 2
  omega

/-! ## Searching -/

/-- A character that begins no literal. -/
def beginsNone (c : Char) : Bool := c ≠ '$' && c ≠ '%' && !Text.isDecimal c

theorem sumAt?_cons_of_beginsNone {c : Char} (hc : beginsNone c = true) (t : Text) :
    sumAt? (c :: t) = none := by
  simp only [beginsNone, Bool.and_eq_true, decide_eq_true_eq, Bool.not_eq_true'] at hc
  obtain ⟨⟨hhex, hbinary⟩, hdecimal⟩ := hc
  have hsplit : splitLiteral (c :: t) = none := by
    rw [splitLiteral.eq_3]
    · rw [splitRun, List.takeWhile_cons_of_neg (by simp [hdecimal])]
    · exact fun u h => hhex (List.cons.inj h).1
    · exact fun u h => hbinary (List.cons.inj h).1
  rw [sumAt?, hsplit]
  rfl

/-- No sum begins in a stretch that begins no literal. -/
theorem findFrom?_append_of_beginsNone {s : Text} (hs : ∀ c ∈ s, beginsNone c = true) (i : Nat)
    (t : Text) : findFrom? i (s ++ t) = findFrom? (i + s.length) t := by
  induction s generalizing i with
  | nil => rfl
  | cons c s ih =>
    rw [List.cons_append, findFrom?, sumAt?_cons_of_beginsNone (hs c List.mem_cons_self)]
    simp only
    rw [ih (fun d hd => hs d (List.mem_cons_of_mem c hd)), List.length_cons]
    congr 1
    omega

theorem toNat_lt_of_isFurther {c : Char} (hc : Names.isFurther c = true) : c.toNat < 128 := by
  have hrange := isFurther_iff.mp hc
  omega

/-- Digits inside a name are followed by a letter and not by a sign. -/
theorem sumAt?_word_append {y : Text} (hy : IsWord y) (hlast : ∀ c ∈ y.getLast?, c.isDigit = false)
    (t : Text) : sumAt? (y ++ t) = none := by
  obtain ⟨c, u, rfl⟩ := List.exists_cons_of_ne_nil hy.1
  have hc := hy.2 c List.mem_cons_self
  -- the digits in front stop at a letter, at the latest at the last character
  have hrest : ∃ d v, ((c :: u) ++ t).dropWhile Text.isDecimal = d :: v
      ∧ Names.isFurther d = true := by
    have hne : (c :: u).dropWhile Text.isDecimal ≠ [] := by
      rw [ne_eq, List.dropWhile_eq_nil_iff]
      intro hall
      have hmem := List.getLast_mem (List.cons_ne_nil c u)
      have hdigit := hall _ hmem
      rw [isDecimal_of_lt (toNat_lt_of_isFurther (hy.2 _ hmem)),
        hlast _ (List.getLast?_eq_some_getLast (List.cons_ne_nil c u))] at hdigit
      cases hdigit
    obtain ⟨d, v, hdv⟩ := List.exists_cons_of_ne_nil hne
    refine ⟨d, v ++ t, ?_, hy.2 d ((List.dropWhile_sublist _).mem (hdv ▸ List.mem_cons_self))⟩
    rw [List.dropWhile_append, hdv]
    rfl
  obtain ⟨d, v, hdrop, hd⟩ := hrest
  have hsplit : splitLiteral ((c :: u) ++ t) = splitRun Text.isDecimal ((c :: u) ++ t) := by
    rw [List.cons_append, splitLiteral.eq_3]
    · exact fun w h => ne_of_isFurther hc (by decide) (List.cons.inj h).1
    · exact fun w h => ne_of_isFurther hc (by decide) (List.cons.inj h).1
  have hoperator : splitOperator (d :: v) = none := by
    rw [splitOperator, Text.trimLeft_cons (isBlank_of_isFurther hd)]
    split
    · rename_i h
      exact absurd (List.cons.inj h).1 (ne_of_isFurther hd (by decide))
    · rename_i h
      exact absurd (List.cons.inj h).1 (ne_of_isFurther hd (by decide))
    · rfl
  rw [sumAt?, hsplit, splitRun, hdrop]
  cases ((c :: u) ++ t).takeWhile Text.isDecimal with
  | nil => rfl
  | cons e run => simp only [Option.bind_eq_bind, Option.bind_some, hoperator, Option.bind_none]

theorem findFrom?_word_append {y : Text} (hy : ∀ c ∈ y, Names.isFurther c = true)
    (hlast : ∀ c ∈ y.getLast?, c.isDigit = false) (i : Nat) (t : Text) :
    findFrom? i (y ++ t) = findFrom? (i + y.length) t := by
  induction y generalizing i with
  | nil => rfl
  | cons c y ih =>
    have hlast' : ∀ d ∈ y.getLast?, d.isDigit = false := by
      intro d hd
      refine hlast d ?_
      rw [List.getLast?_cons, Option.mem_def.mp hd]
      rfl
    have hnone := sumAt?_word_append ⟨List.cons_ne_nil c y, hy⟩ hlast t
    rw [List.cons_append] at hnone ⊢
    rw [findFrom?, hnone]
    simp only
    rw [ih (fun d hd => hy d (List.mem_cons_of_mem c hd)) hlast', List.length_cons]
    congr 1
    omega

section Line

variable {m : Mnemonic} {gap : Text} {f : OperandForm} {n : Text}

theorem endsLiteral_closing (f : OperandForm) : EndsLiteral f.closing := by
  unfold EndsLiteral
  cases f <;> decide

/-- The search for a sum passes over the gap, the opening and a name that does not end in
a digit. -/
theorem find?_line_eq_findFrom? (hg : IsGap gap) {y : Text}
    (hy : ∀ c ∈ y, Names.isFurther c = true) (hlast : ∀ c ∈ y.getLast?, c.isDigit = false)
    (t : Text) :
    find? (line m gap f (y ++ t))
      = findFrom? (corePosition gap f + y.length) (t ++ f.closing) := by
  have hlead : ∀ c ∈ gap ++ f.opening, beginsNone c = true := by
    have hopening : ∀ c ∈ f.opening, beginsNone c = true := by
      cases f <;> decide
    intro c hc
    rcases List.mem_append.mp hc with hc | hc
    · rcases hg.2 c hc with rfl | rfl <;> decide
    · exact hopening c hc
  have hdrop : (line m gap f (y ++ t)).drop operandStart
      = (gap ++ f.opening) ++ (y ++ (t ++ f.closing)) := by
    rw [operandStart, drop_three_line, operand]
    simp only [List.append_assoc]
  rw [find?, hdrop, findFrom?_append_of_beginsNone hlead, findFrom?_word_append hy hlast]
  rfl

/-- A name that does not end in a digit makes no sum with its addend. -/
theorem find?_name_line (hg : IsGap gap) {x : Text} (hx : IsWord x)
    (hlast : ∀ c ∈ x.getLast?, c.isDigit = false) (hn : IsLiteral n) (minus : Bool) :
    find? (line m gap f (x ++ signOf minus :: n)) = none := by
  have hclosing : Unsigned f.closing := by
    unfold Unsigned
    cases f <;> decide
  have hunsigned : Unsigned (n ++ f.closing) := by
    intro c hc
    rcases List.mem_append.mp hc with hc | hc
    · exact hn.unsigned c hc
    · exact hclosing c hc
  rw [find?_line_eq_findFrom? hg hx.2 hlast, List.cons_append, findFrom?,
    sumAt?_cons_of_beginsNone (by cases minus <;> decide)]
  exact findFrom?_of_unsigned hunsigned _

theorem find?_sum_line (hg : IsGap gap) {y l : Text} (hy : ∀ c ∈ y, Names.isFurther c = true)
    (hlast : ∀ c ∈ y.getLast?, c.isDigit = false) (hl : IsLiteral l) (hn : IsLiteral n)
    (minus : Bool) :
    find? (line m gap f (y ++ (l ++ signOf minus :: n)))
      = some (corePosition gap f + y.length, ⟨l, minus, n, (l ++ signOf minus :: n).length⟩) := by
  have hsum := sumAt?_append hl hn minus (endsLiteral_closing f)
  have hsplit : (l ++ signOf minus :: n) ++ f.closing
      = l ++ signOf minus :: (n ++ f.closing) := by
    rw [List.append_assoc, List.cons_append]
  rw [find?_line_eq_findFrom? hg hy hlast, hsplit]
  obtain ⟨c, t, rfl⟩ := List.exists_cons_of_ne_nil hl.ne_nil
  rw [List.cons_append] at hsum ⊢
  rw [findFrom?, hsum]

end Line

/-! ## Folding -/

theorem total_lt (minus : Bool) (a b : Nat) : total minus a b < 65536 := by
  rw [total]
  omega

theorem resultText_eq_literal (left right : Literal) {k : Nat} (hk : k < 65536) :
    resultText left right k = literal (left.wide || right.wide || 255 < k) k := by
  rw [resultText]
  split
  · rename_i hwide
    have hkept : kept true k = k := by
      rw [kept, if_pos rfl]
      omega
    rw [hwide, literal_eq, hkept]
    rfl
  · rename_i hnarrow
    have hle : ¬ 255 < k := by
      intro h
      exact hnarrow (by simp [h])
    have hkept : kept false k = k := by
      rw [kept, if_neg (by decide)]
      omega
    rw [Bool.eq_false_iff.mpr hnarrow, literal_eq, hkept]
    rfl

theorem read_literal (word : Bool) (v : Int) :
    Literal.read (literal word v) = .ok ⟨kept word v, word⟩ := by
  have h := read_operand_literal .plain word v
  rwa [operand, opening, closing, List.nil_append, List.append_nil] at h

/-- The literal of a sum whose left side is the literal of a number. -/
def folded (minus word : Bool) (v : Int) (r : Literal) : Text :=
  literal (word || r.wide || 255 < total minus (kept word v) r.value)
    (total minus (kept word v) r.value)

section Fold

variable {m : Mnemonic} {gap : Text} {f : OperandForm} {n : Text} {b : LineBuffer} {minus : Bool}

theorem fold_name_line (hg : IsGap gap) {x : Text} (hx : IsWord x)
    (hlast : ∀ c ∈ x.getLast?, c.isDigit = false) (hn : IsLiteral n)
    (hb : b.text = line m gap f (x ++ signOf minus :: n)) : fold b = .ok (b, false) := by
  rw [fold, hb, find?_name_line hg hx hlast hn]

/-- Replacing what stands behind some letters of a name. -/
theorem splice_behind {y u : Text} (hb : b.text = line m gap f (y ++ u)) (t : Text) :
    b.splice (corePosition gap f + y.length : Nat) u.length t =
      if u.length < t.length
          ∧ b.limit
            < ((corePosition gap f + y.length : Nat) + t.length + f.closing.length : Int) then
        .error (b.overflow ((corePosition gap f + y.length : Nat) + t.length + f.closing.length))
      else .ok { b with text := line m gap f (y ++ t) } := by
  have hparts : ∀ w : Text, line m gap f (y ++ w)
      = (m.name ++ (gap ++ f.opening) ++ y) ++ w ++ f.closing := by
    intro w
    rw [line_eq_append]
    simp only [List.append_assoc]
  have hlength : (m.name ++ (gap ++ f.opening) ++ y).length = corePosition gap f + y.length := by
    rw [List.length_append, length_lead]
  have hsplice := LineBuffer.splice_middle (hb.trans (hparts _)) t
  rwa [hlength, ← hparts] at hsplice

/-- Folding a sum behind some letters of a name puts a literal there. -/
theorem fold_sum_line (hg : IsGap gap) {y l : Text} (hy : ∀ c ∈ y, Names.isFurther c = true)
    (hlast : ∀ c ∈ y.getLast?, c.isDigit = false) (hl : IsLiteral l) (hn : IsLiteral n)
    (hb : b.text = line m gap f (y ++ (l ++ signOf minus :: n))) :
    fold b = (Literal.read l).bind fun left => (Literal.read n).bind fun right =>
      (b.splice (corePosition gap f + y.length : Nat) (l ++ signOf minus :: n).length
        (resultText left right (total minus left.value right.value))).bind
          fun b' => .ok (b', true) := by
  rw [fold, hb, find?_sum_line hg hy hlast hl hn]
  simp only [Sum.literalText]
  cases Literal.read l with
  | error e => rfl
  | ok left => cases Literal.read n <;> rfl

/-- A literal and its addend are folded into one literal, which always fits. -/
theorem fold_literal_line (hg : IsGap gap) {word : Bool} {v : Int} (hn : IsLiteral n)
    (hb : b.text = line m gap f (literal word v ++ signOf minus :: n)) :
    fold b = (Literal.read n).map fun r =>
      ({ b with text := line m gap f (folded minus word v r) }, true) := by
  have hfold := fold_sum_line (y := []) hg (by simp) (by simp) (isLiteral_literal word v) hn hb
  rw [hfold, read_literal]
  cases Literal.read n with
  | error e => rfl
  | ok r =>
    have hroom : ¬ (literal word v ++ signOf minus :: n).length
        < (folded minus word v r).length := by
      have hpos := List.length_pos_iff.mpr hn.ne_nil
      rw [List.length_append, List.length_cons, folded, length_literal, length_literal]
      cases word
      · have hplaces :
            places (false || r.wide || 255 < total minus (kept false v) r.value) ≤ 4 := by
          cases (false || r.wide || decide (255 < total minus (kept false v) r.value)) <;> decide
        have hnarrow : places false = 2 := rfl
        omega
      · rw [Bool.true_or, Bool.true_or]
        omega
    have htext : resultText ⟨kept word v, word⟩ r (total minus (kept word v) r.value)
        = folded minus word v r := resultText_eq_literal _ _ (total_lt _ _ _)
    have hsplice := splice_behind (y := []) (u := literal word v ++ signOf minus :: n) hb
      (folded minus word v r)
    rw [if_neg fun h => hroom h.1] at hsplice
    simp only [Except.bind, htext, hsplice]
    rfl

end Fold

end Arithmetic

end Cross6502
