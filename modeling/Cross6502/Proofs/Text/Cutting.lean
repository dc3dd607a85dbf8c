import Cross6502.Text.Blank
import Cross6502.Text.LineBreak
import Mathlib.Data.List.TakeWhile

/-!
# Trimming, words and lines of composed texts

Texts are composed by the printers and taken apart by the readers.  What a reader
sees of a composed text depends only on its ends and on the separators between its
parts, and this file says how:

* a text whose ends are no blanks is left alone by trimming (`trim_of_tight`);
* words put together with single blanks are found again (`words_joinWith`);
* lines put together with line feeds are found again (`lines_joinWith`).
-/

namespace Cross6502

/-! ## Deciding -/

/-- What is said of the members of a list is decided by going through the list, even of
characters or bytes, where one could go through all there are. -/
instance (priority := high) decidableForallMem {α : Type} (l : List α) (p : α → Prop)
    [DecidablePred p] : Decidable (∀ a ∈ l, p a) := List.decidableBAll p l

instance (priority := high) decidableForallMemOption {α : Type} (o : Option α) (p : α → Prop)
    [DecidablePred p] : Decidable (∀ a ∈ o, p a) := Option.decidableForallMem o

namespace Text

/-- Beyond the seven-bit range, blanks are told apart from other characters by their
ranges. -/
theorem isBlank_of_inRanges {ranges : List (Nat × Nat)}
    (hranges : ∀ b ∈ blankRanges, ∀ a ∈ ranges, a.2 < b.1 ∨ b.2 < a.1) {c : Char}
    (hlarge : 128 ≤ c.toNat) (hc : inRanges ranges c = true) : isBlank c = false := by
  rw [inRanges, List.any_eq_true] at hc
  obtain ⟨a, ha, hin⟩ := hc
  have h₁ : ¬ (c.toNat ≤ 13) := by omega
  have h₂ : ¬ (c.toNat ≤ 32) := by omega
  have hblank : inRanges blankRanges c = false := by
    rw [inRanges, List.any_eq_false]
    intro b hb hin'
    rw [Bool.and_eq_true, decide_eq_true_eq, decide_eq_true_eq] at hin hin'
    have := hranges b hb a ha
    omega
  simp [isBlank, h₁, h₂, hblank]

/-! ## Trimming -/

/-- Neither end of the text is a blank. -/
def Tight (t : Text) : Prop :=
  (∀ c ∈ t.head?, isBlank c = false) ∧ ∀ c ∈ t.getLast?, isBlank c = false

theorem trimLeft_cons {c : Char} (hc : isBlank c = false) (t : Text) :
    trimLeft (c :: t) = c :: t := by
  rw [trimLeft, List.dropWhile_cons_of_neg]
  simp [hc]

theorem trimLeft_append {s : Text} (hs : ∀ c ∈ s, isBlank c = true) (t : Text) :
    trimLeft (s ++ t) = trimLeft t :=
  List.dropWhile_append_of_pos hs

theorem trimLeft_of_head {t : Text} (ht : ∀ c ∈ t.head?, isBlank c = false) :
    trimLeft t = t := by
  cases t with
  | nil => rfl
  | cons c t => exact trimLeft_cons (ht c rfl) t

theorem trimRight_of_getLast {t : Text} (ht : ∀ c ∈ t.getLast?, isBlank c = false) :
    trimRight t = t := by
  have h : trimLeft t.reverse = t.reverse := by
    apply trimLeft_of_head
    rwa [List.head?_reverse]
  rw [trimLeft] at h
  rw [trimRight, h, List.reverse_reverse]

theorem trim_of_tight {t : Text} (ht : Tight t) : trim t = t := by
  rw [trim, trimLeft_of_head ht.1, trimRight_of_getLast ht.2]

/-- A text that begins and ends with something else than a blank is tight. -/
theorem tight_append {s t : Text} (hs : s ≠ []) (ht : t ≠ [])
    (hhead : ∀ c ∈ s.head?, isBlank c = false) (hlast : ∀ c ∈ t.getLast?, isBlank c = false) :
    Tight (s ++ t) := by
  obtain ⟨c, s, rfl⟩ := List.exists_cons_of_ne_nil hs
  refine ⟨?_, ?_⟩
  · rwa [List.cons_append, List.head?_cons] at *
  · rwa [List.getLast?_append, List.getLast?_eq_some_getLast ht, Option.some_or,
      ← List.getLast?_eq_some_getLast ht]

/-- A text without blanks is tight. -/
theorem tight_of_forall {t : Text} (ht : ∀ c ∈ t, isBlank c = false) : Tight t :=
  ⟨fun c hc => ht c (List.mem_of_mem_head? hc), fun c hc => ht c (List.mem_of_mem_getLast? hc)⟩

theorem isBlank_of_mem_head?_trimLeft {t : Text} : ∀ c ∈ (trimLeft t).head?, isBlank c = false := by
  intro c hc
  have h := List.head?_dropWhile_not isBlank t
  rw [trimLeft] at hc
  rwa [Option.mem_def.mp hc] at h

/-- Trimming leaves no blanks to trim. -/
theorem tight_trim (t : Text) : Tight (trim t) := by
  have hparts : trimLeft t = trim t ++ ((trimLeft t).reverse.takeWhile isBlank).reverse := by
    rw [trim, trimRight, ← List.reverse_append, List.takeWhile_append_dropWhile,
      List.reverse_reverse]
  refine ⟨fun c hc => isBlank_of_mem_head?_trimLeft (t := t) c ?_, fun c hc => ?_⟩
  · rw [hparts, List.head?_append, Option.mem_def.mp hc]
    rfl
  · rw [trim, trimRight, List.getLast?_reverse] at hc
    exact isBlank_of_mem_head?_trimLeft c hc

/-- A text is what trimming leaves of it between blanks. -/
theorem exists_append_trim (t : Text) :
    ∃ front back, t = front ++ trim t ++ back ∧ (∀ c ∈ front, isBlank c = true)
      ∧ ∀ c ∈ back, isBlank c = true := by
  refine ⟨t.takeWhile isBlank, ((trimLeft t).reverse.takeWhile isBlank).reverse, ?_,
    fun c hc => List.mem_takeWhile_imp hc,
    fun c hc => List.mem_takeWhile_imp (List.mem_reverse.mp hc)⟩
  rw [List.append_assoc, trim, trimRight, ← List.reverse_append, List.takeWhile_append_dropWhile,
    List.reverse_reverse, trimLeft, List.takeWhile_append_dropWhile]

theorem trim_append_append {front t back : Text} (hfront : ∀ c ∈ front, isBlank c = true)
    (ht : Tight t) (hback : ∀ c ∈ back, isBlank c = true) : trim (front ++ t ++ back) = t := by
  rw [List.append_assoc, trim, trimLeft_append hfront]
  cases t with
  | nil =>
    have hnil : trimLeft back = [] := List.dropWhile_eq_nil_iff.mpr hback
    rw [List.nil_append, hnil, trimRight_nil]
  | cons c t =>
    have hreverse : ∀ c ∈ back.reverse, isBlank c = true := fun c hc =>
      hback c (List.mem_reverse.mp hc)
    have hinner : trimRight (c :: t) = c :: t := trimRight_of_getLast ht.2
    rw [List.cons_append, trimLeft_cons (ht.1 c rfl), trimRight, ← List.cons_append,
      List.reverse_append, List.dropWhile_append_of_pos hreverse]
    exact hinner

theorem trim_append_of_blank {back : Text} (hback : ∀ c ∈ back, isBlank c = true) (t : Text) :
    trim (t ++ back) = trim t := by
  obtain ⟨front, rest, ht, hfront, hrest⟩ := exists_append_trim t
  have hmore : ∀ c ∈ rest ++ back, isBlank c = true := by
    rw [List.forall_mem_append]
    exact ⟨hrest, hback⟩
  have hsplit : t ++ back = front ++ trim t ++ (rest ++ back) := by
    rw [← List.append_assoc, ← ht]
  rw [hsplit, trim_append_append hfront (tight_trim t) hmore]

theorem trim_sublist (t : Text) : (trim t).Sublist t := by
  rw [trim, trimRight]
  refine List.Sublist.trans ?_ (List.dropWhile_sublist isBlank)
  rw [← List.reverse_sublist, List.reverse_reverse]
  exact List.dropWhile_sublist isBlank

theorem mem_of_mem_trim {t : Text} {c : Char} (h : c ∈ trim t) : c ∈ t := (trim_sublist t).mem h

theorem mem_trimLeft_of_mem {t : Text} {c : Char} (hc : isBlank c = false) (h : c ∈ t) :
    c ∈ trimLeft t := by
  rw [← List.takeWhile_append_dropWhile (p := isBlank) (l := t)] at h
  rcases List.mem_append.mp h with h | h
  · rw [List.mem_takeWhile_imp h] at hc
    cases hc
  · exact h

theorem mem_trim_of_mem {t : Text} {c : Char} (hc : isBlank c = false) (h : c ∈ t) :
    c ∈ trim t := by
  rw [trim, trimRight, List.mem_reverse]
  exact mem_trimLeft_of_mem hc (List.mem_reverse.mpr (mem_trimLeft_of_mem hc h))

/-! ## Words -/

/-- Words without blanks, put together with single blanks, are found again. -/
theorem words_joinWith {ws : List Text} (hne : ∀ w ∈ ws, w ≠ [])
    (hw : ∀ w ∈ ws, ∀ c ∈ w, isBlank c = false) : words (joinWith [' '] ws) = ws := by
  induction ws with
  | nil => rw [joinWith_nil, words_nil]
  | cons w ws ih =>
    have hw₁ : ∀ c ∈ w, isBlank c = false := hw w List.mem_cons_self
    have hkeep : (!w.isEmpty) = true := by simpa using hne w List.mem_cons_self
    cases ws with
    | nil =>
      rw [joinWith_singleton, words, List.splitOnP_eq_singleton hw₁]
      simp [hkeep]
    | cons u us =>
      have ih' := ih (fun v hv => hne v (List.mem_cons_of_mem w hv))
        fun v hv => hw v (List.mem_cons_of_mem w hv)
      rw [words] at ih'
      rw [joinWith, List.append_assoc, List.singleton_append, words,
        List.splitOnP_append_cons_of_forall_mem hw₁ ' ' (by decide), List.filter_cons, if_pos hkeep,
        ih']

/-! ## Lines -/

theorem lines_cons_of_not_break {c : Char} (hc : isBreak c = false) (t : Text) :
    lines (c :: t) = consLine c (lines t) := by
  have hr : c ≠ '\r' := by
    rintro rfl
    exact absurd hc (by decide)
  rw [lines.eq_3 _ _ (by simp [hr])]
  simp [hc]

theorem lines_append_newline {l : Text} (hl : ∀ c ∈ l, isBreak c = false) (t : Text) :
    lines (l ++ '\n' :: t) = l :: lines t := by
  induction l with
  | nil => rfl
  | cons c l ih =>
    rw [List.cons_append, lines_cons_of_not_break (hl c List.mem_cons_self),
      ih fun d hd => hl d (List.mem_cons_of_mem c hd), consLine]

/-- Lines without boundaries, each ended by a line feed, are found again. -/
theorem lines_joinWith {ls : List Text} (hne : ls ≠ [])
    (hl : ∀ l ∈ ls, ∀ c ∈ l, isBreak c = false) :
    lines (joinWith ['\n'] ls ++ ['\n']) = ls := by
  induction ls with
  | nil => exact absurd rfl hne
  | cons l ls ih =>
    have hl₁ : ∀ c ∈ l, isBreak c = false := hl l List.mem_cons_self
    cases ls with
    | nil => rw [joinWith_singleton, lines_append_newline hl₁, lines_nil]
    | cons u us =>
      rw [joinWith, List.append_assoc, List.append_assoc, List.singleton_append,
        lines_append_newline hl₁, ih (List.cons_ne_nil u us)
          fun v hv => hl v (List.mem_cons_of_mem l hv)]

theorem length_consLine_le (c : Char) (ls : List Text) :
    (consLine c ls).length ≤ ls.length + 1 := by
  cases ls with
  | nil => exact Nat.le_refl 1
  | cons l ls => exact Nat.le_succ _

/-- A text has no more lines than characters. -/
theorem length_lines_le (t : Text) : (lines t).length ≤ t.length := by
  fun_induction lines t with
  | case1 => exact Nat.le_refl 0
  | case2 cs ih =>
    simp only [List.length_cons]
    omega
  | case3 c cs _ _ ih =>
    simp only [List.length_cons]
    omega
  | case4 c cs _ _ ih =>
    have hle := length_consLine_le c (lines cs)
    simp only [List.length_cons]
    omega

end Text

end Cross6502
