import Cross6502.Proofs.Substitution.Token

/-!
# Where names are reported

The names that are left in a line are found by another rule than the names of a table.  A
reported name begins with a letter or an underscore, behind any blank or one of three marks,
or at the very start of the operand, and it ends before any blank or one of four marks
(`exists_of_mem_places`).  A token may only have a space or a tab for a blank, and the letters
of the instruction are in front of the operand.

So a name can be reported that is not a token where it was found (`Place.isToken`).  In an
operand whose blanks are spaces and tabs, and which does not begin with a name, every reported
name is a token (`isToken_of_mem_occurrences`).
-/

namespace Cross6502

namespace Names

open Token

/-! ## Places -/

/-- A name and where it was found. -/
structure Place where
  position : Nat
  name : Text
  deriving DecidableEq

/-- The names in a text and where they are, given the character before it. -/
def places : Option Char → Nat → Text → List Place
  | _, _, [] => []
  | before, i, c :: cs =>
      if mayBegin before && isFirst c && mayEnd (cs.dropWhile isFurther) then
        ⟨i, c :: cs.takeWhile isFurther⟩ :: places (some c) (i + 1) cs
      else places (some c) (i + 1) cs

theorem map_name_places (before : Option Char) (i : Nat) (t : Text) :
    (places before i t).map Place.name = scan before t := by
  induction t generalizing before i with
  | nil => rfl
  | cons c t ih =>
    rw [places, scan]
    split
    · rw [List.map_cons, ih]
    · exact ih _ _

/-- The names in the operand of a line and where they are. -/
def occurrences (line : Text) : List Place := places none operandStart (line.drop operandStart)

/-- The name is a token of the line where it was found. -/
def Place.isToken (line : Text) (p : Place) : Bool :=
  standsAt p.name (before? line p.position) (line.drop p.position)

theorem exists_of_mem_places {before : Option Char} {i : Nat} {t : Text} {p : Place}
    (hp : p ∈ places before i t) :
    ∃ front c word rest, t = front ++ ((c :: word) ++ rest) ∧ p = ⟨i + front.length, c :: word⟩
      ∧ mayBegin (lastOr before front) = true ∧ isFirst c = true
      ∧ (∀ d ∈ word, isFurther d = true) ∧ mayEnd rest = true := by
  induction t generalizing before i with
  | nil => cases hp
  | cons c t ih =>
    have hlater : p ∈ places (some c) (i + 1) t → ∃ front d word rest,
        c :: t = front ++ ((d :: word) ++ rest) ∧ p = ⟨i + front.length, d :: word⟩
          ∧ mayBegin (lastOr before front) = true ∧ isFirst d = true
          ∧ (∀ d ∈ word, isFurther d = true) ∧ mayEnd rest = true := by
      intro hp
      obtain ⟨front, d, word, rest, rfl, rfl, hbegin, hword⟩ := ih hp
      refine ⟨c :: front, d, word, rest, rfl, ?_, ?_, hword⟩
      · rw [List.length_cons, Nat.add_assoc, Nat.add_comm 1]
      · rw [lastOr_cons]
        exact hbegin
    rw [places] at hp
    split at hp
    · rename_i hcond
      rw [Bool.and_eq_true, Bool.and_eq_true] at hcond
      rcases List.mem_cons.mp hp with rfl | hp
      · refine ⟨[], c, t.takeWhile isFurther, t.dropWhile isFurther, ?_, rfl, hcond.1.1,
          hcond.1.2, fun d hd => List.mem_takeWhile_imp hd, hcond.2⟩
        rw [List.nil_append, List.cons_append, List.takeWhile_append_dropWhile]
      · exact hlater hp
    · exact hlater hp

/-- A reported name is a letter or an underscore and then such characters and digits. -/
theorem exists_of_mem_scan {before : Option Char} {t x : Text} (hx : x ∈ scan before t) :
    ∃ c word, x = c :: word ∧ isFirst c = true ∧ ∀ d ∈ word, isFurther d = true := by
  rw [← map_name_places before 0] at hx
  obtain ⟨p, hp, rfl⟩ := List.mem_map.mp hx
  obtain ⟨-, c, word, -, -, rfl, -, hc, hword, -⟩ := exists_of_mem_places hp
  exact ⟨c, word, rfl, hc, hword⟩

theorem isFurther_of_isFirst {c : Char} (hc : isFirst c = true) : isFurther c = true := by
  rw [isFurther, hc, Bool.true_or]

theorem isWord_of_mem_unresolved {line x : Text} (hx : x ∈ unresolved line) :
    IsWord x ∧ ∀ c ∈ x.head?, isFirst c = true := by
  rw [unresolved] at hx
  split at hx
  · cases hx
  · obtain ⟨c, word, rfl, hc, hword⟩ := exists_of_mem_scan hx
    refine ⟨⟨List.cons_ne_nil c word,
      List.forall_mem_cons.mpr ⟨isFurther_of_isFirst hc, hword⟩⟩, fun d hd => ?_⟩
    cases hd
    exact hc

/-! ## The walk over words -/

theorem mayBegin_of_opens {c : Char} (hc : opens c = true) : mayBegin (some c) = true := by
  simp only [opens, Bool.or_eq_true, decide_eq_true_eq] at hc
  rcases hc with (((rfl | rfl) | rfl) | rfl) | rfl <;> rfl

/-- What may stand before a token may stand before a name. -/
theorem mayBegin_of_token {before : Option Char} (h : Token.mayBegin before = true) :
    mayBegin before = true := by
  cases before with
  | none => rfl
  | some c => exact mayBegin_of_opens h

/-- What may follow a token may follow a name. -/
theorem mayEnd_of_token {t : Text} (h : Token.mayEnd t = true) : mayEnd t = true := by
  cases t with
  | nil => rfl
  | cons c t =>
    rw [Token.mayEnd, closes] at h
    simp only [Bool.or_eq_true, decide_eq_true_iff] at h
    rcases h with ((((rfl | rfl) | rfl) | rfl) | rfl) | rfl <;> rfl

theorem mayBegin_of_isFurther {c : Char} (hc : isFurther c = true) :
    mayBegin (some c) = false := by
  simp [mayBegin, isBlank_of_isFurther hc, ne_of_isFurther hc (d := '(') (by decide),
    ne_of_isFurther hc (d := '#') (by decide), ne_of_isFurther hc (d := '*') (by decide)]

/-- A name ends before a character that is none of a name. -/
theorem isFurther_of_mayEnd {c : Char} {t : Text} (h : mayEnd (c :: t) = true) :
    isFurther c = false := by
  refine Bool.eq_false_iff.mpr fun hc => ?_
  simp [mayEnd, isBlank_of_isFurther hc, ne_of_isFurther hc (d := ',') (by decide),
    ne_of_isFurther hc (d := ')') (by decide), ne_of_isFurther hc (d := '+') (by decide),
    ne_of_isFurther hc (d := '-') (by decide)] at h

/-- Inside a word no name begins. -/
theorem places_append {word : Text} (hword : ∀ c ∈ word, isFurther c = true)
    {before : Option Char} (hbefore : mayBegin before = false) (i : Nat) (t : Text) :
    places before i (word ++ t) = places (lastOr before word) (i + word.length) t := by
  induction word generalizing before i with
  | nil => rfl
  | cons c word ih =>
    obtain ⟨hc, hword⟩ := List.forall_mem_cons.mp hword
    rw [List.cons_append, places, hbefore, Bool.false_and, Bool.false_and,
      if_neg Bool.false_ne_true, ih hword (mayBegin_of_isFurther hc), lastOr_cons,
      List.length_cons, Nat.add_assoc, Nat.add_comm 1]

/-- A word is reported as a whole. -/
theorem places_word {c : Char} {word rest : Text} (hc : isFirst c = true)
    (hword : ∀ d ∈ word, isFurther d = true) (hend : mayEnd rest = true) {before : Option Char}
    (hbefore : mayBegin before = true) (i : Nat) :
    places before i ((c :: word) ++ rest)
      = ⟨i, c :: word⟩ :: places (lastOr before (c :: word)) (i + (c :: word).length) rest := by
  have hnone : rest.takeWhile isFurther = [] ∧ rest.dropWhile isFurther = rest := by
    cases rest with
    | nil => exact ⟨rfl, rfl⟩
    | cons d rest =>
      have hd := isFurther_of_mayEnd hend
      simp [hd]
  have hdrop : (word ++ rest).dropWhile isFurther = rest := by
    rw [List.dropWhile_append_of_pos hword, hnone.2]
  have htake : (word ++ rest).takeWhile isFurther = word := by
    rw [List.takeWhile_append_of_pos hword, hnone.1, List.append_nil]
  have hbegin := mayBegin_of_isFurther (isFurther_of_isFirst hc)
  rw [List.cons_append, places, hdrop, htake, hbefore, hc, hend, Bool.true_and, Bool.true_and,
    if_pos rfl, places_append hword hbegin, lastOr_cons, List.length_cons, Nat.add_assoc,
    Nat.add_comm 1]

/-! ## Names that are tokens -/

theorem Place.isToken_append (done t name : Text) :
    isToken (done ++ t) ⟨done.length, name⟩ = standsAt name done.getLast? t := by
  rw [isToken, before?_append_length, List.drop_left]

theorem opens_of_mayBegin {c : Char} (hblank : Text.isBlank c = true → c = ' ' ∨ c = '\t')
    (h : mayBegin (some c) = true) : opens c = true := by
  simp only [mayBegin, Bool.or_eq_true, decide_eq_true_iff] at h
  rcases h with ((h | rfl) | rfl) | rfl
  · rcases hblank h with rfl | rfl <;> rfl
  all_goals rfl

theorem closes_of_mayEnd {c : Char} {t : Text}
    (hblank : Text.isBlank c = true → c = ' ' ∨ c = '\t') (h : mayEnd (c :: t) = true) :
    closes c = true := by
  simp only [mayEnd, Bool.or_eq_true, decide_eq_true_iff] at h
  rcases h with (((h | rfl) | rfl) | rfl) | rfl
  · rcases hblank h with rfl | rfl <;> rfl
  all_goals rfl

/-- Among blanks that are spaces and tabs, a name that does not begin the operand is a token. -/
theorem isToken_of_mem_occurrences {line : Text}
    (hblank : ∀ c ∈ line.drop operandStart, Text.isBlank c = true → c = ' ' ∨ c = '\t')
    (hhead : ∀ c ∈ (line.drop operandStart).head?, isFirst c = false) {p : Place}
    (hp : p ∈ occurrences line) : p.isToken line = true := by
  obtain ⟨front, c, word, rest, hsplit, rfl, hbegin, hc, -, hend⟩ := exists_of_mem_places hp
  rw [hsplit] at hblank hhead
  have hne : front ≠ [] := by
    rintro rfl
    rw [hhead c rfl] at hc
    cases hc
  have hlength : operandStart ≤ line.length := by
    have h := congrArg List.length hsplit
    simp only [List.length_drop, List.length_append, List.length_cons] at h
    omega
  have hline : (line.take operandStart ++ front) ++ ((c :: word) ++ rest) = line := by
    rw [List.append_assoc, ← hsplit, List.take_append_drop]
  have htoken := Place.isToken_append (line.take operandStart ++ front) ((c :: word) ++ rest)
    (c :: word)
  rw [hline, List.length_append, List.length_take_of_le hlength, List.getLast?_append,
    List.getLast?_eq_some_getLast hne, Option.some_or] at htoken
  rw [lastOr, List.getLast?_eq_some_getLast hne, Option.some_or] at hbegin
  have hopens : Token.mayBegin (some (front.getLast hne)) = true :=
    opens_of_mayBegin (hblank _ (List.mem_append_left _ (List.getLast_mem hne))) hbegin
  have hcloses : Token.mayEnd rest = true := by
    cases rest with
    | nil => rfl
    | cons d rest => exact closes_of_mayEnd (hblank d (by simp)) hend
  rw [htoken, standsAt, hopens, List.isPrefixOf_iff_prefix.mpr (List.prefix_append _ _),
    List.drop_left, hcloses]
  rfl

end Names

end Cross6502
