import Cross6502.Proofs.Substitution.Light
import Cross6502.Text.Alphanumeric

/-!
# Names of letters, digits and underscores

A token begins behind an opener, and a plain name holds none.  So behind a plain name, and
inside of it, no token begins, and the one plain name that can stand at a place is the word
there (`eq_takeWhile_of_standsAt`).

Whether a plain name stands at a place is decided by the text up to the next opener
(`field`, `standsAt_field`): the name ends before it, and what may follow a name is one
character.
-/

namespace Cross6502

namespace Token

/-! ## Plain names -/

/-- A letter or a digit of any script, or an underscore. -/
def isWordChar (c : Char) : Bool := Text.isAlphanumeric c || c = '_'

/-- A name of letters, digits and underscores. -/
structure IsPlainName (t : Text) : Prop where
  ne_nil : t ≠ []
  mem : ∀ c ∈ t, isWordChar c = true

theorem ne_of_isWordChar {c d : Char} (hc : isWordChar c = true) (hd : isWordChar d = false) :
    c ≠ d := by
  rintro rfl
  exact absurd hc (by simp [hd])

theorem opens_of_isWordChar {c : Char} (hc : isWordChar c = true) : opens c = false := by
  simp [opens, ne_of_isWordChar hc (d := ' ') (by decide),
    ne_of_isWordChar hc (d := '\t') (by decide), ne_of_isWordChar hc (d := '(') (by decide),
    ne_of_isWordChar hc (d := '#') (by decide), ne_of_isWordChar hc (d := '*') (by decide)]

theorem closes_of_isWordChar {c : Char} (hc : isWordChar c = true) : closes c = false := by
  simp [closes, ne_of_isWordChar hc (d := ' ') (by decide),
    ne_of_isWordChar hc (d := '\t') (by decide), ne_of_isWordChar hc (d := ',') (by decide),
    ne_of_isWordChar hc (d := ')') (by decide), ne_of_isWordChar hc (d := '+') (by decide),
    ne_of_isWordChar hc (d := '-') (by decide)]

theorem isWordChar_of_isFurther {c : Char} (hc : Names.isFurther c = true) :
    isWordChar c = true := by
  have halphanum : c.isAlphanum = true → isWordChar c = true := fun h => by
    rw [isWordChar, Text.isAlphanumeric, h]
    rfl
  rw [Names.isFurther, Names.isFirst] at hc
  simp only [Bool.or_eq_true, Bool.and_eq_true, decide_eq_true_iff] at hc
  rcases hc with (⟨ha, hz⟩ | rfl) | hdigit
  · have hlower : c.isLower = true :=
      Bool.and_eq_true_iff.mpr ⟨decide_eq_true ha, decide_eq_true hz⟩
    exact halphanum (Bool.or_eq_true_iff.mpr (.inl (Bool.or_eq_true_iff.mpr (.inr hlower))))
  · decide
  · exact halphanum (Bool.or_eq_true_iff.mpr (.inr hdigit))

theorem IsWord.isPlainName {t : Text} (h : IsWord t) : IsPlainName t :=
  ⟨h.1, fun c hc => isWordChar_of_isFurther (h.2 c hc)⟩

/-- Behind a text without openers no token begins. -/
theorem mayBegin_lastOr_of_forall {t : Text} (hne : t ≠ []) (ht : ∀ c ∈ t, opens c = false)
    (before : Option Char) : mayBegin (lastOr before t) = false := by
  rw [lastOr, List.getLast?_eq_some_getLast hne, Option.some_or, mayBegin]
  exact ht _ (List.getLast_mem hne)

namespace IsPlainName

variable {name : Text}

theorem opens_eq_false (h : IsPlainName name) : ∀ c ∈ name, opens c = false :=
  fun c hc => opens_of_isWordChar (h.mem c hc)

theorem head?_ne (h : IsPlainName name) {c : Char} (hc : isWordChar c = false) :
    name.head? ≠ some c :=
  fun hhead => ne_of_isWordChar (h.mem c (List.mem_of_mem_head? hhead)) hc rfl

theorem mayBegin_lastOr (h : IsPlainName name) (before : Option Char) :
    mayBegin (lastOr before name) = false :=
  mayBegin_lastOr_of_forall h.ne_nil h.opens_eq_false before

end IsPlainName

/-- The plain name that stands at a place is the word there. -/
theorem eq_takeWhile_of_standsAt {name t : Text} {before : Option Char} (h : IsPlainName name)
    (hstands : standsAt name before t = true) : name = t.takeWhile isWordChar := by
  obtain ⟨-, rest, rfl, hend⟩ := of_standsAt hstands
  have hrest : rest.takeWhile isWordChar = [] := by
    cases rest with
    | nil => rfl
    | cons c rest =>
      refine List.takeWhile_cons_of_neg fun hc => ?_
      rw [mayEnd, closes_of_isWordChar hc] at hend
      cases hend
  rw [List.takeWhile_append_of_pos h.mem, hrest, List.append_nil]

theorem length_drop_lt {name t : Text} {before : Option Char} (h : IsPlainName name)
    (hstands : standsAt name before t = true) : (t.drop name.length).length < t.length := by
  obtain ⟨-, rest, rfl, -⟩ := of_standsAt hstands
  have hpos := List.length_pos_iff.mpr h.ne_nil
  rw [List.drop_left, List.length_append]
  omega

theorem IsPlainName.standsAt_nil {name : Text} (h : IsPlainName name) (before : Option Char) :
    standsAt name before [] = false :=
  Bool.eq_false_iff.mpr fun hstands => absurd (length_drop_lt h hstands) (by simp)

/-- Behind a character that opens no token no name stands. -/
theorem standsAt_of_not_mayBegin {before : Option Char} (h : mayBegin before = false)
    (name t : Text) : standsAt name before t = false := by
  rw [standsAt, h]
  rfl

theorem scan_of_not_mayBegin {before before' : Option Char} (h : mayBegin before = false)
    (h' : mayBegin before' = false) (name t : Text) (i : Nat) :
    scan name before t i = scan name before' t i := by
  cases t with
  | nil => rw [scan, scan, standsAt_of_not_mayBegin h, standsAt_of_not_mayBegin h']
  | cons c t => rw [scan, scan, standsAt_of_not_mayBegin h, standsAt_of_not_mayBegin h']

/-- The search passes over characters that open no token behind one that opens none. -/
theorem scan_append_of_not_mayBegin {s : Text} (hs : ∀ c ∈ s, opens c = false)
    {before : Option Char} (hbefore : mayBegin before = false) (name t : Text) (i : Nat) :
    scan name before (s ++ t) i = scan name (lastOr before s) t (i + s.length) := by
  induction s generalizing before i with
  | nil => rfl
  | cons c s ih =>
    have hc : mayBegin (some c) = false := hs c List.mem_cons_self
    rw [List.cons_append, scan, if_neg (by simp [standsAt_of_not_mayBegin hbefore]),
      ih (fun d hd => hs d (List.mem_cons_of_mem c hd)) hc, lastOr_cons before, List.length_cons]
    congr 1
    omega

theorem find?_append (name s t : Text) :
    find? (s ++ t) name s.length = scan name s.getLast? t s.length := by
  rw [find?, if_pos (by simp), before?_append_length, List.drop_left]

/-! ## Up to the next opener -/

/-- A text up to its first opener and with it. -/
def field : Text → Text
  | [] => []
  | c :: t => if opens c then [c] else c :: field t

theorem field_cons_of_opens {c : Char} (hc : opens c = true) (t : Text) :
    field (c :: t) = [c] := if_pos hc

theorem field_cons_of_not_opens {c : Char} (hc : opens c = false) (t : Text) :
    field (c :: t) = c :: field t := if_neg (by simp [hc])

/-- Whether a name without openers stands at a place is decided up to the next opener. -/
theorem standsAt_field {name : Text} (hname : ∀ c ∈ name, opens c = false) (before : Option Char)
    (t : Text) : standsAt name before (field t) = standsAt name before t := by
  have hrest : (name.isPrefixOf (field t) && mayEnd ((field t).drop name.length))
      = (name.isPrefixOf t && mayEnd (t.drop name.length)) := by
    induction name generalizing t with
    | nil =>
      cases t with
      | nil => rfl
      | cons c t => cases hc : opens c <;> simp [field, hc, mayEnd]
    | cons d name ih =>
      cases t with
      | nil => rfl
      | cons c t =>
        cases hc : opens c with
        | true =>
          have hne : (d == c) = false := by
            rw [beq_eq_false_iff_ne]
            rintro rfl
            rw [hname d List.mem_cons_self] at hc
            cases hc
          simp [field_cons_of_opens hc, List.isPrefixOf, hne]
        | false =>
          have htail := ih (fun e he => hname e (List.mem_cons_of_mem d he)) t
          rw [field_cons_of_not_opens hc]
          simp only [List.isPrefixOf, List.length_cons, List.drop_succ_cons, Bool.and_assoc, htail]
  rw [standsAt, standsAt, Bool.and_assoc, Bool.and_assoc, hrest]

end Token

end Cross6502
