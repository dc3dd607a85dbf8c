import Cross6502.Proofs.Assembly.Produced
import Cross6502.Proofs.Substitution.HeldPlaces

/-!
# What becomes of unknown names

When unknown names may be left to the linker, the names in a line that no table defines are
listed, and for each name of the list the first token of this name becomes a zero.  A name of
which there is no token is passed over without a word: nothing is put in its place, and the
linker does not hear of it.

What is given to the linker are the listed names that are tokens where they were found
(`unknownTokens`), and in the line exactly these have become zeros.  So all listed names are
left to the linker if and only if each of them is a token where it was found
(`unknown_names_deferred_iff`).  This is so for a line whose blanks are spaces and tabs.  A
name next to another blank is listed and is no token (`unknown_name_dropped`).
-/

namespace Cross6502

namespace Statement

open Names Token

variable {c : Context} {line text : Text} {address : Int} {number : Nat} {b : LineBuffer}
  {pending : List Text}

/-! ## The names of the list and the tokens among them -/

/-- The unknown names in a line that are tokens where they were found. -/
def unknownTokens (c : Context) (line : Text) : List Text :=
  ((occurrences line).filter fun p =>
    decide (p.name ∈ unknownNames c line) && p.isToken line).map Place.name

theorem unknownNames_eq (c : Context) (line : Text) :
    unknownNames c line = ((occurrences line).filter fun p =>
      decide (p.name ∈ unknownNames c line)).map Place.name := by
  by_cases hlone : Text.trim (line.drop operandStart) = ['a']
  · have hnil : unknownNames c line = [] := by
      rw [unknownNames, unresolved, if_pos hlone, List.filter_nil]
    simp [hnil]
  · have hnames : unknownNames c line
        = ((occurrences line).map Place.name).filter fun n => !c.symbols.contains n := by
      rw [unknownNames, unresolved, if_neg hlone, occurrences, map_name_places]
    have hmem : ∀ p ∈ occurrences line,
        decide (p.name ∈ unknownNames c line) = !c.symbols.contains p.name := by
      intro p hp
      rw [Bool.eq_iff_iff, decide_eq_true_iff, hnames, List.mem_filter]
      exact and_iff_right (List.mem_map_of_mem hp)
    rw [List.filter_congr hmem, hnames, List.filter_map]
    rfl

theorem unknownTokens_eq (c : Context) (line : Text) :
    unknownTokens c line = (((occurrences line).filter fun p =>
      decide (p.name ∈ unknownNames c line)).filter (Place.isToken line)).map Place.name := by
  rw [unknownTokens, List.filter_filter]
  simp only [Bool.and_comm]

theorem unknownTokens_sublist (c : Context) (line : Text) :
    (unknownTokens c line).Sublist (unknownNames c line) := by
  rw [unknownTokens_eq]
  conv => rhs; rw [unknownNames_eq]
  exact List.filter_sublist.map _

/-- The list has no more names than there are tokens if each of its names is one. -/
theorem length_unknownTokens_eq_iff :
    (unknownTokens c line).length = (unknownNames c line).length ↔
      ∀ p ∈ occurrences line, p.name ∈ unknownNames c line → p.isToken line = true := by
  rw [unknownTokens_eq]
  conv => lhs; rhs; rw [unknownNames_eq]
  rw [List.length_map, List.length_map, List.length_filter_eq_length_iff]
  simp only [List.mem_filter, decide_eq_true_iff, and_imp]

/-! ## Zeros for the tokens -/

/-- Exactly the tokens of unknown names become zeros, and they are given to the linker. -/
theorem held_of_holdPlaces (hnames : unknownNames c b.text ≠ []) {held : LineBuffer}
    (h : (holdPlaces number (unknownNames c b.text) b).outcome = .ok (held, pending)) :
    ∃ operand,
      Substituted (b.text.take operandStart) 0
        (Replacement.nullSymbols (b.text.take operandStart) (unknownNames c b.text))
        (before? b.text operandStart) (b.text.drop operandStart) operand (unknownTokens c b.text)
      ∧ held = { b with text := b.text.take operandStart ++ operand }
      ∧ pending.Perm (unknownTokens c b.text) := by
  have hword : ∀ n ∈ unknownNames c b.text, IsWord n ∧ ∀ d ∈ n.head?, isFirst d = true :=
    fun n hn => isWord_of_mem_unresolved (List.mem_filter.mp hn).1
  have hplain : ∀ n ∈ unknownNames c b.text, IsPlainName n := fun n hn => (hword n hn).1.isPlainName
  have hlength : operandStart ≤ b.text.length := by
    by_contra hshort
    rw [unknownNames, unresolved, List.drop_eq_nil_of_le (by omega)] at hnames
    exact hnames rfl
  have hsplit : b.text.take operandStart ++ b.text.drop operandStart = b.text :=
    List.take_append_drop operandStart b.text
  have hdone : (b.text.take operandStart).length = operandStart := List.length_take_of_le hlength
  obtain ⟨operand, tokens, hall⟩ := exists_substituted_null (b.text.take operandStart) hplain
    (b.text.take operandStart).getLast? (b.text.drop operandStart)
  have htokens : tokens = unknownTokens c b.text := by
    have hsymbols : ∀ s ∈ Replacement.nullSymbols (b.text.take operandStart)
        (unknownNames c b.text), IsWord s.name ∧ ∀ d ∈ s.name.head?, isFirst d = true := by
      intro s hs
      obtain ⟨n, hn, rfl⟩ := Replacement.exists_of_mem_nullSymbols hs
      exact hword n hn
    have hseen : Token.mayBegin (b.text.take operandStart).getLast? = true →
        Names.mayBegin none = true := fun _ => rfl
    have heq := hall.names_eq hsymbols rfl hseen
    rw [hsplit, hdone, Replacement.map_name_nullSymbols] at heq
    simp only [List.mem_dedup] at heq
    exact heq
  subst htokens
  obtain ⟨hheld, hpending⟩ := substituted_holdPlaces hplain (fun n hn => hn) hsplit.symm hdone hall
    (fun n => (unknownTokens_sublist c b.text).count_le n) h
  rw [← before?_eq_getLast? hlength] at hall
  exact ⟨operand, hall, hheld, hpending⟩

/-- **Unknown names.**  Take a line that is assembled with names left to the linker.  In its
operand the unknown names that are tokens have become zeros, all of them and nothing else, and
these are the names that are given to the linker.

The linker is given every unknown name that was listed, once for each time it was found, if and
only if each is a token at the place where it was found.  So it is if the operand has no blanks
but spaces and tabs and does not begin with a name. -/
theorem unknown_names_deferred_iff {e : Encoded} {b₁ : LineBuffer} {folded : Bool}
    (hresolve : resolve c (bufferFor c text number) address = .ok b₁)
    (hfold : Arithmetic.fold b₁ = .ok (b, folded))
    (hbranch : Literal.isPlain (Line.operand b.text) = false)
    (h : (assemble c text address number).outcome = .ok (e, pending)) :
    (∃ operand,
      Substituted (b.text.take operandStart) 0
        (Replacement.nullSymbols (b.text.take operandStart) (unknownNames c b.text))
        (before? b.text operandStart) (b.text.drop operandStart) operand (unknownTokens c b.text)
      ∧ (holdPlaces number (unknownNames c b.text) b).outcome
        = .ok ({ b with text := b.text.take operandStart ++ operand }, pending)
      ∧ pending.Perm (unknownTokens c b.text))
    ∧ (pending = unknownNames c b.text ↔
      ∀ p ∈ occurrences b.text, p.name ∈ unknownNames c b.text → p.isToken b.text = true)
    ∧ ((∀ d ∈ b.text.drop operandStart, Text.isBlank d = true → d = ' ' ∨ d = '\t') →
      (∀ d ∈ (b.text.drop operandStart).head?, isFirst d = false) →
      pending = unknownNames c b.text) := by
  obtain ⟨_, _, _, b₃, hresolve', hfold', hdefer, -⟩ := outcome_assemble_eq_ok_iff.mp h
  cases hresolve.symm.trans hresolve'
  cases hfold.symm.trans hfold'
  obtain ⟨hplain, -⟩ | ⟨-, -, hnames, held, _, hhold, -⟩ := outcome_deferNames_eq_ok_iff.mp hdefer
  · rw [hbranch] at hplain
    cases hplain
  obtain ⟨operand, hall, rfl, hpending⟩ := held_of_holdPlaces hnames hhold
  have hsublist := sublist_of_holdPlaces hhold
  have hiff : pending = unknownNames c b.text ↔
      ∀ p ∈ occurrences b.text, p.name ∈ unknownNames c b.text → p.isToken b.text = true := by
    rw [← length_unknownTokens_eq_iff, ← hpending.length_eq]
    exact ⟨congrArg List.length, hsublist.eq_of_length⟩
  refine ⟨⟨operand, hall, hhold, hpending⟩, hiff, fun hblank hhead => hiff.mpr fun p hp _ => ?_⟩
  exact isToken_of_mem_occurrences hblank hhead hp

/-- Nothing is defined, and unknown names are left to the linker. -/
def linkLater : Context where
  symbols := {}
  capacity := 80
  allowUnresolved := true
  file := "later"

/-- A line in which a name is found twice. -/
def twiceLine : Text := "lda #lo, hi lo".toList

theorem unknown_names_deferred_iff_twice :
    unknownNames linkLater twiceLine = ["lo".toList, "hi".toList, "lo".toList]
      ∧ Literal.isPlain (Line.operand twiceLine) = false
      ∧ (assemble linkLater twiceLine 0 1).outcome
        = .ok (⟨"lda".toList, .immediate, 0xA9, [0]⟩, ["lo".toList, "hi".toList, "lo".toList])
      ∧ ∀ p ∈ occurrences twiceLine, p.name ∈ unknownNames linkLater twiceLine →
        p.isToken twiceLine = true := by
  have hnames : unknownNames linkLater twiceLine = ["lo".toList, "hi".toList, "lo".toList] := by
    decide
  have hresolve : resolve linkLater (bufferFor linkLater twiceLine 1) 0
      = .ok (bufferFor linkLater twiceLine 1) := by
    decide
  have hfold : Arithmetic.fold (bufferFor linkLater twiceLine 1)
      = .ok (bufferFor linkLater twiceLine 1, false) := by
    decide
  have hbranch : Literal.isPlain (Line.operand twiceLine) = false := by decide
  have hrun : (assemble linkLater twiceLine 0 1).outcome
      = .ok (⟨"lda".toList, .immediate, 0xA9, [0]⟩, ["lo".toList, "hi".toList, "lo".toList]) := by
    decide
  obtain ⟨-, hiff, -⟩ := unknown_names_deferred_iff hresolve hfold hbranch hrun
  exact ⟨hnames, hbranch, hrun, hiff.mp hnames.symm⟩

/-- A name behind a no-break space is listed.  It is no token, the linker does not hear of it,
and the line is assembled without it. -/
theorem unknown_name_dropped :
    unknownNames linkLater "lda #\u00a0foo".toList = ["foo".toList]
      ∧ (assemble linkLater "lda #\u00a0foo".toList 0 1).outcome
        = .ok (⟨"lda".toList, .immediate, 0xA9, [0]⟩, []) := by
  decide

end Statement

end Cross6502
