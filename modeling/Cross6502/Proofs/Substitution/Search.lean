import Cross6502.Substitution.Token
import Mathlib.Order.Nat

/-!
# The first place where a name stands

A name stands as a token at a position if it is written there, behind the start of the text or
one of the characters that open a token, and in front of the end of the text or one of the
characters that close it (`IsTokenAt`).  This speaks about positions only and knows nothing of
a search.

The search from a position on answers with this position if the name stands there, and else
as it would from the next one (`find?_of_isTokenAt`, `find?_succ`).  So positions where the name
does not stand can be left out one by one (`find?_eq_of_excluded`), and what remains is the least
position where it does stand, or nothing.

A name may overlap itself, as `a a` does in `xa a a`.  The first time it is written there it
is part of a longer word, the second time it stands, and it begins inside of the first.  A
search that went on behind the rejected place would miss it.
-/

namespace Cross6502

namespace Token

variable {text name : Text} {start stop i : Nat}

/-! ## Positions of a token -/

/-- The name stands as a whole token at a position of the text. -/
structure IsTokenAt (text name : Text) (i : Nat) : Prop where
  written : name <+: text.drop i
  opened : i = 0 ∨ ∃ c ∈ text[i - 1]?, c ∈ [' ', '\t', '(', '#', '*']
  closed : i + name.length = text.length
    ∨ ∃ c ∈ text[i + name.length]?, c ∈ [' ', '\t', ',', ')', '+', '-']

/-- No token begins behind the end of the text. -/
theorem IsTokenAt.le_length (h : IsTokenAt text name i) : i ≤ text.length := by
  rcases h.opened with rfl | ⟨c, hc, -⟩
  · exact Nat.zero_le _
  · have hlt := (List.getElem?_eq_some_iff.mp hc).1
    omega

theorem opens_iff {c : Char} : opens c = true ↔ c ∈ [' ', '\t', '(', '#', '*'] := by
  simp [opens, or_assoc]

theorem closes_iff {c : Char} : closes c = true ↔ c ∈ [' ', '\t', ',', ')', '+', '-'] := by
  simp [closes, or_assoc]

theorem mayBegin_before?_iff (hi : i ≤ text.length) :
    mayBegin (before? text i) = true
      ↔ i = 0 ∨ ∃ c ∈ text[i - 1]?, c ∈ [' ', '\t', '(', '#', '*'] := by
  cases i with
  | zero => simp [before?, mayBegin]
  | succ n =>
    have hn : text[n]? = some text[n] := List.getElem?_eq_getElem hi
    rw [before?, Nat.add_sub_cancel, hn, mayBegin, opens_iff]
    simp

theorem mayEnd_drop_iff (hi : i ≤ text.length) :
    mayEnd (text.drop i) = true
      ↔ i = text.length ∨ ∃ c ∈ text[i]?, c ∈ [' ', '\t', ',', ')', '+', '-'] := by
  rcases Nat.eq_or_lt_of_le hi with rfl | hlt
  · simp [mayEnd]
  · rw [List.drop_eq_getElem_cons hlt, List.getElem?_eq_getElem hlt, mayEnd, closes_iff]
    simp [Nat.ne_of_lt hlt]

/-- What the search asks at a position of the text is whether the name stands there. -/
theorem standsAt_iff_isTokenAt (hi : i ≤ text.length) :
    standsAt name (before? text i) (text.drop i) = true ↔ IsTokenAt text name i := by
  rw [standsAt, Bool.and_eq_true, Bool.and_eq_true, List.isPrefixOf_iff_prefix,
    mayBegin_before?_iff hi, List.drop_drop]
  have hend (h : name <+: text.drop i) : i + name.length ≤ text.length := by
    have hle := h.length_le
    rw [List.length_drop] at hle
    omega
  constructor
  · rintro ⟨⟨hopened, hwritten⟩, hclosed⟩
    exact ⟨hwritten, hopened, (mayEnd_drop_iff (hend hwritten)).mp hclosed⟩
  · rintro ⟨hwritten, hopened, hclosed⟩
    exact ⟨⟨hopened, hwritten⟩, (mayEnd_drop_iff (hend hwritten)).mpr hclosed⟩

/-! ## One step of the search -/

theorem find?_of_length_lt (h : text.length < start) : find? text name start = none :=
  if_neg (Nat.not_le.mpr h)

/-- The search looks at one position and goes on with the next. -/
theorem find?_step (hi : i ≤ text.length) :
    find? text name i
      = if standsAt name (before? text i) (text.drop i) then some i
        else find? text name (i + 1) := by
  rw [find?, if_pos hi]
  rcases Nat.eq_or_lt_of_le hi with rfl | hlt
  · rw [List.drop_length, scan, find?_of_length_lt (Nat.lt_succ_self _)]
  · have hnext : before? text (i + 1) = some text[i] := List.getElem?_eq_getElem hlt
    rw [List.drop_eq_getElem_cons hlt, scan, find?, if_pos (Nat.succ_le_of_lt hlt), hnext]

theorem find?_of_isTokenAt (h : IsTokenAt text name i) : find? text name i = some i := by
  rw [find?_step h.le_length, if_pos ((standsAt_iff_isTokenAt h.le_length).mpr h)]

theorem find?_succ (h : ¬ IsTokenAt text name i) :
    find? text name i = find? text name (i + 1) := by
  rcases Nat.lt_or_ge text.length i with hlt | hle
  · rw [find?_of_length_lt hlt, find?_of_length_lt (Nat.lt_succ_of_lt hlt)]
  · rw [find?_step hle, if_neg (mt (standsAt_iff_isTokenAt hle).mp h)]

/-! ## The whole search -/

/-- Positions where the name does not stand make no difference. -/
theorem find?_eq_of_excluded (hle : start ≤ stop)
    (h : ∀ i, start ≤ i → i < stop → ¬ IsTokenAt text name i) :
    find? text name start = find? text name stop := by
  -- what has been excluded so far is the stretch up to `stop`, which grows by one step
  induction stop, hle using Nat.le_induction with
  | base => rfl
  | succ stop hle ih =>
    rw [ih fun i hi hlt => h i hi (Nat.lt_succ_of_lt hlt)]
    exact find?_succ (h stop hle (Nat.lt_succ_self stop))

theorem find?_of_isLeast (h : IsLeast {i | start ≤ i ∧ IsTokenAt text name i} i) :
    find? text name start = some i := by
  obtain ⟨⟨hle, htoken⟩, hleast⟩ := h
  have hexcluded : ∀ j, start ≤ j → j < i → ¬ IsTokenAt text name j := fun j hj hlt hstands =>
    absurd (hleast ⟨hj, hstands⟩) (Nat.not_le.mpr hlt)
  rw [find?_eq_of_excluded hle hexcluded, find?_of_isTokenAt htoken]

theorem find?_of_forall_not (h : ∀ i, start ≤ i → ¬ IsTokenAt text name i) :
    find? text name start = none := by
  rw [find?_eq_of_excluded (Nat.le_add_right start (text.length + 1)) fun i hi _ => h i hi]
  exact find?_of_length_lt (by omega)

/-- If the name stands somewhere from a position on, there is a least such place. -/
theorem exists_isLeast_isTokenAt (h : ∃ i, start ≤ i ∧ IsTokenAt text name i) :
    ∃ i, IsLeast {i | start ≤ i ∧ IsTokenAt text name i} i := by
  classical
  exact ⟨Nat.find h, Nat.isLeast_find h⟩

theorem find?_eq_none_iff :
    find? text name start = none ↔ ∀ i, start ≤ i → ¬ IsTokenAt text name i := by
  refine ⟨fun hnone i hi htoken => ?_, find?_of_forall_not⟩
  obtain ⟨j, hj⟩ := exists_isLeast_isTokenAt ⟨i, hi, htoken⟩
  rw [find?_of_isLeast hj] at hnone
  cases hnone

theorem find?_eq_some_iff :
    find? text name start = some i ↔ IsLeast {i | start ≤ i ∧ IsTokenAt text name i} i := by
  refine ⟨fun hsome => ?_, find?_of_isLeast⟩
  have hexists : ∃ j, start ≤ j ∧ IsTokenAt text name j := by
    by_contra hnone
    rw [find?_of_forall_not fun j hj htoken => hnone ⟨j, hj, htoken⟩] at hsome
    cases hsome
  obtain ⟨j, hj⟩ := exists_isLeast_isTokenAt hexists
  rw [find?_of_isLeast hj, Option.some_inj] at hsome
  exact hsome ▸ hj

/-- Behind the first place where the name is written without standing there, the search goes on
with the very next position, which may still be inside of what was written. -/
theorem find?_of_rejected (h : IsLeast {i | start ≤ i ∧ name <+: text.drop i} i)
    (hrejected : ¬ IsTokenAt text name i) : find? text name start = find? text name (i + 1) := by
  obtain ⟨⟨hle, -⟩, hleast⟩ := h
  refine find?_eq_of_excluded (Nat.le_succ_of_le hle) fun j hj hlt htoken => ?_
  -- a token is written where it stands, so none comes before the first place that was written
  have hij := hleast ⟨hj, htoken.written⟩
  obtain rfl : j = i := by omega
  exact hrejected htoken

/-- The search finds the least position from the given one on where the name stands as a token,
and nothing exactly if there is none.  A place where the name is only written is passed over by
one character, so that no other place is passed over with it. -/
theorem search_finds_least (text name : Text) (start : Nat) :
    findFrom? text name start = find? text name start
      ∧ (∀ i, find? text name start = some i
          ↔ IsLeast {i | start ≤ i ∧ IsTokenAt text name i} i)
      ∧ (find? text name start = none ↔ ∀ i, start ≤ i → ¬ IsTokenAt text name i)
      ∧ ∀ i, IsLeast {i | start ≤ i ∧ name <+: text.drop i} i → ¬ IsTokenAt text name i →
          find? text name start = find? text name (i + 1) := by
  refine ⟨?_, fun i => find?_eq_some_iff, find?_eq_none_iff, fun i => find?_of_rejected⟩
  rw [findFrom?, if_pos (Int.natCast_nonneg start), Int.toNat_natCast]

/-- The name is first written behind an `x`, and stands two characters further on, inside of
what was written. -/
theorem search_finds_least_overlapping :
    IsLeast {i | 0 ≤ i ∧ "a a".toList <+: "xa a a".toList.drop i} 1
      ∧ ¬ IsTokenAt "xa a a".toList "a a".toList 1
      ∧ find? "xa a a".toList "a a".toList 0 = some 3 := by
  have hfirst : IsLeast {i | 0 ≤ i ∧ "a a".toList <+: "xa a a".toList.drop i} 1 := by
    refine ⟨⟨Nat.zero_le 1, by decide⟩, ?_⟩
    rintro i ⟨-, hwritten⟩
    rcases Nat.eq_zero_or_pos i with rfl | hpos
    · exact absurd hwritten (by decide)
    · exact hpos
  have hrejected : ¬ IsTokenAt "xa a a".toList "a a".toList 1 :=
    mt (standsAt_iff_isTokenAt (by decide)).mpr (by decide)
  obtain ⟨-, -, -, hnext⟩ := search_finds_least "xa a a".toList "a a".toList 0
  exact ⟨hfirst, hrejected, (hnext 1 hfirst hrejected).trans (by decide)⟩

end Token

end Cross6502
