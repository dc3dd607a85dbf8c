import Cross6502.Proofs.Text.Cutting
import Cross6502.Text.LineBreak
import Cross6502.Text.Lowercase

/-!
# Printable characters

The texts that the program prints consist of the printing characters of the seven-bit
range.  On those the tables of the wider character sets play no part: the space is the
only blank among them, none is a line boundary, and the lower case is that of the
seven-bit range.  Such a text therefore passes through the cleaning of a line unharmed,
but for its capitals.

In any text, the marks and digits that come before the capitals in the seven-bit range are
in the lower case of the text exactly if they are in the text (`mem_lower_iff`).
-/

namespace Cross6502

namespace Text

/-- A printing character of the seven-bit range that does not begin a comment. -/
def IsPrintable (c : Char) : Prop := 32 ≤ c.toNat ∧ c.toNat < 127 ∧ c ≠ ';'

instance (c : Char) : Decidable (IsPrintable c) := inferInstanceAs (Decidable (_ ∧ _ ∧ _))

theorem eq_space_of_isBlank {c : Char} (hc : IsPrintable c) (h : isBlank c = true) : c = ' ' := by
  obtain ⟨h₁, h₂, -⟩ := hc
  have h₃ : ¬ (c.toNat ≤ 13) := by omega
  have h₄ : ¬ (128 ≤ c.toNat) := by omega
  have h₅ : 28 ≤ c.toNat ∧ c.toNat ≤ 32 := by simpa [isBlank, h₃, h₄] using h
  exact Char.toNat_inj.mp (Nat.le_antisymm h₅.2 h₁)

theorem isBreak_of_isPrintable {c : Char} (hc : IsPrintable c) : isBreak c = false := by
  obtain ⟨h₁, h₂, -⟩ := hc
  have h₃ : ¬ (c.toNat ≤ 13) := by omega
  have h₄ : ¬ (c.toNat ≤ 30) := by omega
  have h₅ : c.toNat ≠ 0x85 ∧ c.toNat ≠ 0x2028 ∧ c.toNat ≠ 0x2029 := by omega
  simp [isBreak, h₃, h₄, h₅]

/-- In the seven-bit range a text is put in lower case character by character. -/
theorem lower_of_lt {t : Text} (ht : ∀ c ∈ t, c.toNat < 128) : lower t = t.map Char.toLower := by
  rw [lower_eq_map]
  · refine List.map_congr_left fun c hc => ?_
    rw [lowerChar, if_pos (ht c hc)]
  · intro c hc
    constructor
    · rintro rfl
      exact absurd (ht _ hc) (by decide)
    · rintro rfl
      exact absurd (ht _ hc) (by decide)

theorem toLower_of_not_isUpper {c : Char} (hc : c.isUpper = false) : c.toLower = c :=
  dif_neg (of_decide_eq_false hc)

theorem map_toLower_of_forall {t : Text} (ht : ∀ c ∈ t, c.isUpper = false) :
    t.map Char.toLower = t := by
  induction t with
  | nil => rfl
  | cons c t ih =>
    rw [List.map_cons, toLower_of_not_isUpper (ht c List.mem_cons_self),
      ih fun d hd => ht d (List.mem_cons_of_mem c hd)]

/-! ## Characters before the capitals -/

theorem le_toNat_toLower {d : Char} (h : d.isUpper = true) : 97 ≤ d.toLower.toNat := by
  have hd : 65 ≤ d.toNat ∧ d.toNat ≤ 90 := of_decide_eq_true h
  have hlower : d.toLower.toNat = d.toNat + 32 := by
    have hvalue : d.toLower = _ := dif_pos (of_decide_eq_true h)
    rw [hvalue]
    change (d.val + 32).toNat = d.val.toNat + 32
    rw [UInt32.toNat_add]
    exact Nat.mod_eq_of_lt (by change d.toNat + 32 < _; omega)
  omega

/-- A number that is the code of no character gives the null character. -/
theorem toNat_ofNat_eq_or (n : Nat) : (Char.ofNat n).toNat = n ∨ (Char.ofNat n).toNat = 0 := by
  by_cases h : n.isValidChar
  · have hvalid : Char.ofNat n = _ := dif_pos h
    rw [hvalid]
    exact .inl rfl
  · have hinvalid : Char.ofNat n = _ := dif_neg h
    rw [hinvalid]
    exact .inr rfl

/-- The lower case of a character comes before the capitals only if it is the character. -/
theorem lowerChar_eq_iff {c d : Char} (hpos : 0 < c.toNat) (hc : c.toNat < 65) :
    lowerChar d = c ↔ d = c := by
  have hruns : ∀ e ∈ capitalRuns, 65 ≤ e.2.2.2 := by
    set_option maxRecDepth 2000 in decide
  rw [lowerChar]
  split
  · cases hupper : d.isUpper with
    | true =>
      have hd : 65 ≤ d.toNat ∧ d.toNat ≤ 90 := of_decide_eq_true hupper
      have hlower := le_toNat_toLower hupper
      constructor
      · rintro rfl
        omega
      · rintro rfl
        omega
    | false => rw [toLower_of_not_isUpper hupper]
  · split
    · rename_i hd _ first last step lower hfind
      have hlower : 65 ≤ lower := hruns _ (List.mem_of_find?_eq_some hfind)
      constructor
      · rintro rfl
        rcases toNat_ofNat_eq_or (lower + (d.toNat - first)) with h | h <;> omega
      · rintro rfl
        omega
    · rfl

theorem mem_lowerBetween_iff {c d : Char} (hpos : 0 < c.toNat) (hc : c.toNat < 65)
    (before after : Text) : c ∈ lowerBetween before d after ↔ d = c := by
  have hne : ∀ {e : Char}, 65 ≤ e.toNat → e ≠ c := by
    rintro e he rfl
    omega
  rw [lowerBetween]
  split
  · rename_i hd
    have hsigma : smallSigma before after ≠ c := by
      rw [smallSigma]
      split
      · exact hne (by decide)
      · exact hne (by decide)
    have hd : d ≠ c := hd ▸ hne (by decide)
    exact ⟨fun h => absurd (List.mem_singleton.mp h).symm hsigma, fun h => absurd h hd⟩
  · split
    · rename_i hd
      have hd : d ≠ c := hd ▸ hne (by decide)
      refine ⟨fun h => ?_, fun h => absurd h hd⟩
      rcases List.mem_cons.mp h with h | h
      · exact absurd h.symm (hne (by decide))
      · exact absurd (List.mem_singleton.mp h).symm (hne (by decide))
    · rw [List.mem_singleton, eq_comm]
      exact lowerChar_eq_iff hpos hc

theorem mem_lower_iff {c : Char} (hpos : 0 < c.toNat) (hc : c.toNat < 65) {t : Text} :
    c ∈ lower t ↔ c ∈ t := by
  have hbehind : ∀ before, c ∈ lowerBehind before t ↔ c ∈ t := by
    induction t with
    | nil => exact fun before => Iff.rfl
    | cons d t ih =>
      intro before
      rw [lowerBehind, List.mem_append, mem_lowerBetween_iff hpos hc, ih, List.mem_cons, eq_comm]
  exact hbehind []

/-- Blanks have no case. -/
theorem lowerChar_of_isBlank {c : Char} (hc : isBlank c = true) : lowerChar c = c := by
  have happart : ∀ r ∈ blankRanges, ∀ e ∈ capitalRuns, r.2 < e.1 ∨ e.2.1 < r.1 := by
    set_option maxRecDepth 2000 in decide
  rw [lowerChar]
  split
  · rename_i hlt
    refine toLower_of_not_isUpper (Bool.eq_false_iff.mpr fun hupper => ?_)
    have hrange : 65 ≤ c.toNat ∧ c.toNat ≤ 90 := of_decide_eq_true hupper
    have h₁ : ¬ (c.toNat ≤ 13) := by omega
    have h₂ : ¬ (c.toNat ≤ 32) := by omega
    have h₃ : ¬ (128 ≤ c.toNat) := by omega
    simp [isBlank, h₁, h₂, h₃] at hc
  · rename_i hlt
    split
    · rename_i first last step lower hfind
      have h₁ : ¬ (c.toNat ≤ 13) := by omega
      have h₂ : ¬ (c.toNat ≤ 32) := by omega
      have hranges : inRanges blankRanges c = true := by
        simp only [isBlank, h₁, h₂, decide_false, Bool.and_false, Bool.or_self, Bool.false_or,
          Bool.and_eq_true] at hc
        exact hc.2
      obtain ⟨r, hr, hin⟩ := List.any_eq_true.mp hranges
      have hmem := List.mem_of_find?_eq_some hfind
      have hrun := List.find?_some hfind
      have hor : r.2 < first ∨ last < r.1 := happart r hr _ hmem
      simp only [Bool.and_eq_true, decide_eq_true_iff] at hin hrun
      omega
    · rfl

theorem mem_lower_of_isBlank {c : Char} (hc : isBlank c = true) {t : Text} (h : c ∈ t) :
    c ∈ lower t := by
  have hsigma : c ≠ capitalSigma := by
    rintro rfl
    exact absurd hc (by decide)
  have hdotted : c ≠ dottedCapitalI := by
    rintro rfl
    exact absurd hc (by decide)
  have hbehind : ∀ before, c ∈ lowerBehind before t := by
    induction t with
    | nil => cases h
    | cons d t ih =>
      intro before
      rw [lowerBehind, List.mem_append]
      rcases List.mem_cons.mp h with rfl | h
      · refine .inl ?_
        rw [lowerBetween, if_neg hsigma, if_neg hdotted, lowerChar_of_isBlank hc]
        exact List.mem_singleton_self c
      · exact .inr (ih h _)
  exact hbehind []

end Text

end Cross6502
