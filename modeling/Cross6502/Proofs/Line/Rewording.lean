import Cross6502.Line.Basic
import Cross6502.Proofs.Text.Case

/-!
# Other words for the same lines

A source may be written in other capitals, with blanks and comments behind its lines, and
with lines between them that hold nothing else (`Line.Reworded`).  Cleaned, a line so
changed is the line it was, and a line that was put in asks for nothing.

The lower case of a text looks at the neighbours of a character in one place, the sigma that
ends a word.  It asks there for letters, in whatever case, so capitals of the seven-bit range
can be replaced by their small letters beforehand (`Text.lower_map_toLower`).
-/

namespace Cross6502

namespace Text

/-! ## Letters in either case -/

theorem toLower_eq_or (c : Char) : c.toLower = c ∨ ∃ n < 26, c = Char.ofNat (65 + n) := by
  cases hupper : c.isUpper with
  | false => exact .inl (toLower_of_not_isUpper hupper)
  | true =>
    have hc : 65 ≤ c.toNat ∧ c.toNat ≤ 90 := of_decide_eq_true hupper
    refine .inr ⟨c.toNat - 65, by omega, ?_⟩
    rw [Nat.add_sub_cancel' hc.1, Char.ofNat_toNat]

/-- What holds of a capital of the seven-bit range and its small letter alike. -/
theorem toLower_eq_of_capitals {α : Type} (f : Char → α)
    (h : ∀ n < 26, f (Char.ofNat (65 + n)).toLower = f (Char.ofNat (65 + n))) (c : Char) :
    f c.toLower = f c := by
  rcases toLower_eq_or c with hc | ⟨n, hn, rfl⟩
  · rw [hc]
  · exact h n hn

theorem isBlank_toLower (c : Char) : isBlank c.toLower = isBlank c :=
  toLower_eq_of_capitals isBlank (by decide) c

theorem isCased_toLower (c : Char) : isCased c.toLower = isCased c :=
  toLower_eq_of_capitals isCased (by decide) c

/-- No letter of the seven-bit range is passed over. -/
theorem isCaseIgnorable_of_letter {c : Char}
    (hc : 65 ≤ c.toNat ∧ c.toNat ≤ 90 ∨ 97 ≤ c.toNat ∧ c.toNat ≤ 122) :
    isCaseIgnorable c = false := by
  have happart : ∀ r ∈ caseIgnorableRanges, r.2 < 65 ∨ (90 < r.1 ∧ r.2 < 97) ∨ 122 < r.1 := by
    set_option maxRecDepth 4000 in decide
  rw [isCaseIgnorable, inRanges, List.any_eq_false]
  intro r hr
  have hapart := happart r hr
  rw [Bool.and_eq_true, decide_eq_true_iff, decide_eq_true_iff]
  omega

theorem isCaseIgnorable_toLower (c : Char) : isCaseIgnorable c.toLower = isCaseIgnorable c := by
  have hcodes : ∀ n < 26, (Char.ofNat (65 + n)).toNat = 65 + n
      ∧ (Char.ofNat (65 + n)).toLower.toNat = 97 + n := by decide
  refine toLower_eq_of_capitals isCaseIgnorable (fun n hn => ?_) c
  obtain ⟨hupper, hlower⟩ := hcodes n hn
  rw [isCaseIgnorable_of_letter (.inr (by omega)), isCaseIgnorable_of_letter (.inl (by omega))]

theorem startsCased_map_toLower (t : Text) : startsCased (t.map Char.toLower) = startsCased t := by
  induction t with
  | nil => rfl
  | cons c t ih =>
    rw [List.map_cons, startsCased, startsCased, isCased_toLower, isCaseIgnorable_toLower, ih]

theorem lowerBetween_of_lt {c : Char} (hc : c.toNat < 128) (before after : Text) :
    lowerBetween before c after = [c.toLower] := by
  have hsigma : c ≠ capitalSigma := by
    rintro rfl
    exact absurd hc (by decide)
  have hdotted : c ≠ dottedCapitalI := by
    rintro rfl
    exact absurd hc (by decide)
  rw [lowerBetween, if_neg hsigma, if_neg hdotted, lowerChar, if_pos hc]

theorem lowerBetween_map_toLower (before : Text) (c : Char) (after : Text) :
    lowerBetween (before.map Char.toLower) c.toLower (after.map Char.toLower)
      = lowerBetween before c after := by
  rcases toLower_eq_or c with hc | ⟨n, hn, rfl⟩
  · rw [hc, lowerBetween, lowerBetween, smallSigma, smallSigma, startsCased_map_toLower,
      startsCased_map_toLower]
  · have hcapitals : ∀ n < 26, (Char.ofNat (65 + n)).toNat < 128
        ∧ (Char.ofNat (65 + n)).toLower.toNat < 128
        ∧ (Char.ofNat (65 + n)).toLower.toLower = (Char.ofNat (65 + n)).toLower := by decide
    obtain ⟨hcapital, hsmall, hidem⟩ := hcapitals n hn
    rw [lowerBetween_of_lt hcapital, lowerBetween_of_lt hsmall, hidem]

/-- Capitals of the seven-bit range make no difference to the lower case of a text. -/
theorem lower_map_toLower (t : Text) : lower (t.map Char.toLower) = lower t := by
  have hbehind : ∀ before, lowerBehind (before.map Char.toLower) (t.map Char.toLower)
      = lowerBehind before t := by
    induction t with
    | nil => exact fun before => rfl
    | cons c t ih =>
      intro before
      rw [List.map_cons, lowerBehind, lowerBehind, lowerBetween_map_toLower, ← ih (c :: before),
        List.map_cons]
  exact hbehind []

theorem trimRight_map_toLower (t : Text) :
    trimRight (t.map Char.toLower) = (trimRight t).map Char.toLower := by
  have hblank : isBlank ∘ Char.toLower = isBlank := funext isBlank_toLower
  rw [trimRight, trimRight, ← List.map_reverse, List.dropWhile_map, hblank, List.map_reverse]

/-- Texts that differ in the case of letters of the seven-bit range only. -/
def SameLetters (t u : Text) : Prop := t.map Char.toLower = u.map Char.toLower

instance (t u : Text) : Decidable (SameLetters t u) := inferInstanceAs (Decidable (_ = _))

end Text

namespace Line

/-! ## Cleaned lines -/

open Text

theorem stripComment_map_toLower (t : Text) :
    stripComment (t.map Char.toLower) = (stripComment t).map Char.toLower := by
  have hcomment : (fun c : Char => decide (c ≠ ';')) ∘ Char.toLower = fun c => decide (c ≠ ';') :=
    funext fun c => toLower_eq_of_capitals (fun c => decide (c ≠ ';')) (by decide) c
  rw [stripComment, stripComment, List.takeWhile_map, hcomment]

theorem clean_of_sameLetters {raw raw' : Text} (h : SameLetters raw raw') :
    clean raw = clean raw' := by
  have hclean : ∀ t, clean (t.map Char.toLower) = clean t := by
    intro t
    rw [clean, clean, stripComment_map_toLower, trimRight_map_toLower, lower_map_toLower]
  rw [← hclean raw, h, hclean]

/-- Blanks, and perhaps a comment behind them. -/
def IsTrailer (t : Text) : Prop := ∀ c ∈ stripComment t, isBlank c = true

instance (t : Text) : Decidable (IsTrailer t) :=
  inferInstanceAs (Decidable (∀ c ∈ stripComment t, isBlank c = true))

theorem trimRight_append_of_blank {back : Text} (hback : ∀ c ∈ back, isBlank c = true)
    (t : Text) : trimRight (t ++ back) = trimRight t := by
  rw [trimRight, trimRight, List.reverse_append, List.dropWhile_append_of_pos]
  exact fun c hc => hback c (List.mem_reverse.mp hc)

theorem clean_append_of_isTrailer {trailer : Text} (h : IsTrailer trailer) (raw : Text) :
    clean (raw ++ trailer) = clean raw := by
  have hstrip : trimRight (stripComment (raw ++ trailer)) = trimRight (stripComment raw) := by
    by_cases hcomment : ∀ c ∈ raw, decide (c ≠ ';') = true
    · rw [stripComment, List.takeWhile_append_of_pos hcomment, stripComment,
        List.takeWhile_eq_self_iff.mpr hcomment]
      exact trimRight_append_of_blank h raw
    · have hlength : ¬ (raw.takeWhile fun c => decide (c ≠ ';')).length = raw.length :=
        fun hlength => hcomment
          (List.takeWhile_eq_self_iff.mp ((List.takeWhile_prefix _).eq_of_length hlength))
      rw [stripComment, stripComment, List.takeWhile_append, if_neg hlength]
  rw [clean, clean, hstrip]

/-! ## Lines with the same meaning -/

/-- A source in other words: letters in another case, blanks and comments behind lines, and
lines put in that hold nothing else. -/
inductive Reworded : List Text → List Text → Prop
  | done : Reworded [] []
  | line {raw raw' trailer : Text} {rest rest' : List Text} (hcase : SameLetters raw' raw)
      (htrailer : IsTrailer trailer) (hrest : Reworded rest rest') :
      Reworded (raw :: rest) ((raw' ++ trailer) :: rest')
  | insert {trailer : Text} {lines lines' : List Text} (htrailer : IsTrailer trailer)
      (hrest : Reworded lines lines') : Reworded lines (trailer :: lines')

/-- Lines that are the same when they are cleaned, but for those that ask for nothing. -/
inductive SameMeaning : List Text → List Text → Prop
  | done : SameMeaning [] []
  | line {raw raw' : Text} {rest rest' : List Text} (hclean : clean raw = clean raw')
      (hrest : SameMeaning rest rest') : SameMeaning (raw :: rest) (raw' :: rest')
  | left {raw : Text} {rest lines : List Text} (hblank : ofClean (clean raw) = .blank)
      (hrest : SameMeaning rest lines) : SameMeaning (raw :: rest) lines
  | right {raw : Text} {rest lines : List Text} (hblank : ofClean (clean raw) = .blank)
      (hrest : SameMeaning lines rest) : SameMeaning lines (raw :: rest)

theorem SameMeaning.symm {lines lines' : List Text} (h : SameMeaning lines lines') :
    SameMeaning lines' lines := by
  induction h with
  | done => exact .done
  | line hclean _ ih => exact .line hclean.symm ih
  | left hblank _ ih => exact .right hblank ih
  | right hblank _ ih => exact .left hblank ih

theorem Reworded.sameMeaning {lines lines' : List Text} (h : Reworded lines lines') :
    SameMeaning lines lines' := by
  induction h with
  | done => exact .done
  | line hcase htrailer _ ih =>
    refine .line ?_ ih
    rw [clean_append_of_isTrailer htrailer, clean_of_sameLetters hcase]
  | @insert trailer _ _ htrailer _ ih =>
    have hclean : clean trailer = [] := clean_append_of_isTrailer htrailer []
    refine .right ?_ ih
    rw [hclean]
    rfl

end Line

end Cross6502
