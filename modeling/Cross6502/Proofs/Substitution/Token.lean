import Cross6502.Proofs.Line.Form
import Cross6502.Substitution.Names

/-!
# Where a name stands in a line

The search for a token walks over a line character by character.  Two observations
say all about its walk over a composed line.  A stretch that does not hold the first
character of the name is passed over (`BeginsOutside`, `scan_append`), and behind a character that
opens no token nothing is found until one does (`scan_eq_none`).

An instruction line in one of the operand forms has its openers in front of the
name or number and nowhere else.  So there is a single place where a name can stand,
and only the very name that was written there does stand there
(`find?_line`, `find?_line_of_ne`).  A sign and a literal behind the name open no token
either, so they make no difference (`IsAddend`, `find?_line_append`).
-/

namespace Cross6502

namespace Token

/-! ## The walk -/

theorem standsAt_cons_of_ne {name : Text} {c : Char} (hne : name ≠ []) (hc : name.head? ≠ some c)
    (before : Option Char) (t : Text) : standsAt name before (c :: t) = false := by
  obtain ⟨d, u, rfl⟩ := List.exists_cons_of_ne_nil hne
  have hd : d ≠ c := fun h => hc (by rw [h, List.head?_cons])
  simp [standsAt, List.isPrefixOf, hd]

/-- The text begins with a character that does not occur in another one. -/
def BeginsOutside (t s : Text) : Prop := ∃ c ∈ t.head?, c ∉ s

theorem BeginsOutside.ne_nil {t s : Text} (h : BeginsOutside t s) : t ≠ [] := by
  obtain ⟨c, hc, -⟩ := h
  rintro rfl
  cases hc

theorem BeginsOutside.head?_ne {t s : Text} (h : BeginsOutside t s) :
    ∀ c ∈ s, t.head? ≠ some c := by
  obtain ⟨d, hd, hnot⟩ := h
  intro c hc heq
  rw [Option.mem_def, heq, Option.some_inj] at hd
  exact hnot (hd ▸ hc)

theorem beginsOutside_cons {t s : Text} {c : Char} :
    BeginsOutside t (c :: s) ↔ t.head? ≠ some c ∧ BeginsOutside t s := by
  constructor
  · intro h
    refine ⟨h.head?_ne c List.mem_cons_self, h.imp fun d hd => ⟨hd.1, fun hmem => ?_⟩⟩
    exact hd.2 (List.mem_cons_of_mem c hmem)
  · rintro ⟨hc, d, hd, hnot⟩
    refine ⟨d, hd, fun hmem => ?_⟩
    rcases List.mem_cons.mp hmem with rfl | hmem
    · exact hc hd
    · exact hnot hmem

theorem standsAt_of_not_opens {name : Text} {b : Char} (hb : opens b = false) (t : Text) :
    standsAt name (some b) t = false := by
  simp [standsAt, mayBegin, hb]

/-- The character before a text behind another one. -/
def lastOr (before : Option Char) (s : Text) : Option Char := s.getLast?.or before

theorem lastOr_cons (before : Option Char) (c : Char) (s : Text) :
    lastOr before (c :: s) = lastOr (some c) s := by
  rw [lastOr, lastOr, List.getLast?_cons]
  cases s.getLast? <;> rfl

/-- A stretch without the first character of a name is passed over. -/
theorem scan_append {name s : Text} (hs : BeginsOutside name s)
    (before : Option Char) (t : Text) (i : Nat) :
    scan name before (s ++ t) i = scan name (lastOr before s) t (i + s.length) := by
  induction s generalizing before i with
  | nil => rfl
  | cons c s ih =>
    obtain ⟨hc, hrest⟩ := beginsOutside_cons.mp hs
    rw [List.cons_append, scan, if_neg (by simp [standsAt_cons_of_ne hs.ne_nil hc]), ih hrest,
      lastOr_cons before, List.length_cons]
    congr 1
    omega

/-- Behind a character that opens no token, none is found where no other opens. -/
theorem scan_eq_none {b : Char} (hb : opens b = false) {t : Text}
    (ht : ∀ c ∈ t, opens c = false) (name : Text) (i : Nat) : scan name (some b) t i = none := by
  induction t generalizing b i with
  | nil => rw [scan, if_neg (by simp [standsAt_of_not_opens hb])]
  | cons c t ih =>
    rw [scan, if_neg (by simp [standsAt_of_not_opens hb]),
      ih (ht c List.mem_cons_self) fun d hd => ht d (List.mem_cons_of_mem c hd)]

/-! ## Words -/

/-- A text made of the characters of names. -/
def IsWord (t : Text) : Prop := t ≠ [] ∧ ∀ c ∈ t, Names.isFurther c = true

theorem isFurther_iff {c : Char} : Names.isFurther c = true ↔
    (97 ≤ c.toNat ∧ c.toNat ≤ 122) ∨ c.toNat = 95 ∨ (48 ≤ c.toNat ∧ c.toNat ≤ 57) := by
  have ha : ∀ d : Char, 'a' ≤ d ↔ 97 ≤ d.toNat := fun d => UInt32.le_iff_toNat_le
  have hz : ∀ d : Char, d ≤ 'z' ↔ d.toNat ≤ 122 := fun d => UInt32.le_iff_toNat_le
  have hu : c = '_' ↔ c.toNat = 95 := Char.toNat_inj.symm
  rw [Names.isFurther, Names.isFirst, Bool.or_eq_true, Bool.or_eq_true, Bool.and_eq_true,
    decide_eq_true_iff, decide_eq_true_iff, decide_eq_true_iff, ha, hz, hu,
    Char.isDigit_iff_toNat, or_assoc]
  rfl

/-- No character of a name is one of the marks of a line. -/
theorem ne_of_isFurther {c d : Char} (hc : Names.isFurther c = true)
    (hd : Names.isFurther d = false) : c ≠ d := by
  rintro rfl
  exact absurd hc (by simp [hd])

theorem closes_of_isFurther {c : Char} (hc : Names.isFurther c = true) : closes c = false := by
  simp [closes, ne_of_isFurther hc (d := ' ') (by decide),
    ne_of_isFurther hc (d := '\t') (by decide), ne_of_isFurther hc (d := ',') (by decide),
    ne_of_isFurther hc (d := ')') (by decide), ne_of_isFurther hc (d := '+') (by decide),
    ne_of_isFurther hc (d := '-') (by decide)]

theorem isBlank_of_isFurther {c : Char} (hc : Names.isFurther c = true) :
    Text.isBlank c = false := by
  have hrange := isFurther_iff.mp hc
  have h₁ : ¬ (c.toNat ≤ 13) := by omega
  have h₂ : ¬ (c.toNat ≤ 32) := by omega
  simp [Text.isBlank, h₁, h₂]
  omega

theorem opens_of_isFurther {c : Char} (hc : Names.isFurther c = true) : opens c = false := by
  simp [opens, ne_of_isFurther hc (d := ' ') (by decide),
    ne_of_isFurther hc (d := '\t') (by decide), ne_of_isFurther hc (d := '(') (by decide),
    ne_of_isFurther hc (d := '#') (by decide), ne_of_isFurther hc (d := '*') (by decide)]

/-- Of all words, only the one that is written stands as a token: a shorter one is
followed by a letter, and a longer one runs into the mark behind. -/
theorem eq_of_standsAt {u x rest : Text} (hu : ∀ c ∈ u, Names.isFurther c = true)
    (hx : ∀ c ∈ x, Names.isFurther c = true)
    (hrest : ∀ c ∈ rest.head?, Names.isFurther c = false) {before : Option Char}
    (h : standsAt u before (x ++ rest) = true) : u = x := by
  rw [standsAt, Bool.and_eq_true, Bool.and_eq_true, List.isPrefixOf_iff_prefix] at h
  obtain ⟨⟨-, hprefix⟩, hend⟩ := h
  rcases List.prefix_or_prefix_of_prefix hprefix (List.prefix_append x rest) with hp | hp
  · obtain ⟨r, rfl⟩ := hp
    cases r with
    | nil => rw [List.append_nil]
    | cons c r =>
      rw [List.append_assoc, List.drop_left, List.cons_append, mayEnd] at hend
      rw [closes_of_isFurther (hx c (by simp))] at hend
      exact absurd hend (by decide)
  · obtain ⟨r, rfl⟩ := hp
    cases r with
    | nil => rw [List.append_nil]
    | cons c r =>
      obtain ⟨v, hv⟩ := hprefix
      rw [List.append_assoc, List.append_cancel_left_eq, List.cons_append] at hv
      have hc := hrest c (by rw [← hv, List.head?_cons, Option.mem_some])
      rw [hu c (by simp)] at hc
      exact absurd hc (by decide)

/-! ## What may follow a name -/

open OperandForm

/-- A character of a sign and a literal. -/
def isSumChar (c : Char) : Bool :=
  c = '+' || c = '-' || c = '$' || c = '%' || Arithmetic.isLowerHexDigit c

/-- What may stand between a name and the closing: nothing, or a sign and a literal. -/
structure IsAddend (tail : Text) : Prop where
  head : ∀ c ∈ tail.head?, c = '+' ∨ c = '-'
  mem : ∀ c ∈ tail, isSumChar c = true

theorem isAddend_nil : IsAddend [] := ⟨by simp, by simp⟩

theorem ne_of_isSumChar {c d : Char} (hc : isSumChar c = true) (hd : isSumChar d = false) :
    c ≠ d := by
  rintro rfl
  exact absurd hc (by simp [hd])

theorem opens_of_isSumChar {c : Char} (hc : isSumChar c = true) : opens c = false := by
  simp [opens, ne_of_isSumChar hc (d := ' ') (by decide),
    ne_of_isSumChar hc (d := '\t') (by decide), ne_of_isSumChar hc (d := '(') (by decide),
    ne_of_isSumChar hc (d := '#') (by decide), ne_of_isSumChar hc (d := '*') (by decide)]

theorem isBlank_of_isSumChar {c : Char} (hc : isSumChar c = true) : Text.isBlank c = false := by
  simp only [isSumChar, Bool.or_eq_true, decide_eq_true_eq] at hc
  rcases hc with (((rfl | rfl) | rfl) | rfl) | hc
  · decide
  · decide
  · decide
  · decide
  · exact isBlank_of_isLowerHexDigit hc

/-- Behind a name stands a sign, the closing or nothing. -/
theorem IsAddend.head_closing {tail : Text} (h : IsAddend tail) (f : OperandForm) :
    ∀ c ∈ (tail ++ f.closing).head?, c = '+' ∨ c = '-' ∨ c = ',' ∨ c = ')' := by
  have hclosing : ∀ c ∈ f.closing.head?, c = ',' ∨ c = ')' := by
    cases f <;> decide
  intro c hc
  cases tail with
  | nil => exact .inr (.inr (hclosing c hc))
  | cons d tail =>
    rcases h.head c hc with h | h
    · exact .inl h
    · exact .inr (.inl h)

/-! ## Lines in one of the operand forms -/

theorem opens_of_mem_closing (f : OperandForm) {c : Char} (hc : c ∈ f.closing) :
    opens c = false := by
  have h : ∀ c ∈ f.closing, opens c = false := by
    cases f <;> decide
  exact h c hc

theorem isFurther_of_mem_lead {gap : Text} (hg : IsGap gap) (f : OperandForm) {c : Char}
    (hc : c ∈ gap ++ f.opening) : Names.isFurther c = false ∧ opens c = true := by
  have h : ∀ c ∈ f.opening, Names.isFurther c = false ∧ opens c = true := by
    cases f <;> decide
  rcases List.mem_append.mp hc with hc | hc
  · rcases hg.2 c hc with rfl | rfl <;> decide
  · exact h c hc

theorem lead_ne_nil {gap : Text} (hg : IsGap gap) (f : OperandForm) : gap ++ f.opening ≠ [] := by
  intro h
  exact hg.1 (List.append_eq_nil_iff.mp h).1

/-- A name that begins with no opener does not begin in the gap or the opening. -/
theorem beginsOutside_lead {gap t : Text} (hg : IsGap gap) (f : OperandForm)
    (ht : ∃ c ∈ t.head?, opens c = false) : BeginsOutside t (gap ++ f.opening) := by
  obtain ⟨c, hc, hopens⟩ := ht
  refine ⟨c, hc, fun hmem => ?_⟩
  rw [(isFurther_of_mem_lead hg f hmem).2] at hopens
  cases hopens

theorem IsWord.beginsOutside {gap t : Text} (ht : IsWord t) (hg : IsGap gap) (f : OperandForm) :
    BeginsOutside t (gap ++ f.opening) := by
  obtain ⟨c, u, rfl⟩ := List.exists_cons_of_ne_nil ht.1
  exact beginsOutside_lead hg f ⟨c, rfl, opens_of_isFurther (ht.2 c List.mem_cons_self)⟩

/-- The character in front of the name or number. -/
def beforeCore (gap : Text) (f : OperandForm) : Option Char := (gap ++ f.opening).getLast?

/-- The position of the name or number. -/
def corePosition (gap : Text) (f : OperandForm) : Nat := 3 + (gap ++ f.opening).length

theorem line_eq_append (m : Mnemonic) (gap : Text) (f : OperandForm) (core : Text) :
    line m gap f core = (m.name ++ (gap ++ f.opening)) ++ core ++ f.closing := by
  simp only [line, operand, List.append_assoc]

theorem length_lead (m : Mnemonic) (gap : Text) (f : OperandForm) :
    (m.name ++ (gap ++ f.opening)).length = corePosition gap f := by
  rw [List.length_append, m.length_name, corePosition]

/-- The character before the end of a first part is its last one. -/
theorem before?_append {s : Text} (hs : s ≠ []) (t : Text) :
    before? (s ++ t) s.length = s.getLast? := by
  obtain ⟨n, hn⟩ := Nat.exists_eq_succ_of_ne_zero (mt List.length_eq_zero_iff.mp hs)
  have hlt : n < s.length := by omega
  rw [hn, before?, List.getElem?_append_left hlt, List.getLast?_eq_getElem?, hn]
  rfl

/-- The character before the end of a first part is its last one, if there is one. -/
theorem before?_append_length (s t : Text) : before? (s ++ t) s.length = s.getLast? := by
  cases s with
  | nil => rfl
  | cons c s => exact before?_append (List.cons_ne_nil c s) t

theorem before?_eq_getLast? {t : Text} {i : Nat} (h : i ≤ t.length) :
    before? t i = (t.take i).getLast? := by
  have hlast := before?_append_length (t.take i) (t.drop i)
  rwa [List.take_append_drop, List.length_take_of_le h] at hlast

/-- In front of the name or number stands the last character of the gap or the
opening. -/
theorem before?_line {gap : Text} (hg : IsGap gap) (m : Mnemonic) (f : OperandForm)
    (core : Text) : before? (line m gap f core) (corePosition gap f) = beforeCore gap f := by
  have hlead := lead_ne_nil hg f
  rw [line_eq_append, List.append_assoc, ← length_lead m, before?_append (by simp [hlead]),
    List.getLast?_append, List.getLast?_eq_some_getLast hlead, Option.some_or, beforeCore,
    List.getLast?_eq_some_getLast hlead]

theorem isFurther_of_isLowerHexDigit {c : Char} (hc : Arithmetic.isLowerHexDigit c = true) :
    Names.isFurther c = true := by
  have hrange := isLowerHexDigit_iff.mp hc
  exact isFurther_iff.mpr (by omega)

theorem opens_of_mem_literal {ds : Text} (hds : IsHexRun ds) {c : Char} (hc : c ∈ '$' :: ds) :
    opens c = false := by
  rcases List.mem_cons.mp hc with rfl | hc
  · decide
  · exact opens_of_isFurther (isFurther_of_isLowerHexDigit (hds.2 c hc))

section Search

variable {m : Mnemonic} {gap : Text} {f : OperandForm} {core name : Text}

/-- The search passes over the gap and the opening. -/
theorem find?_line_eq_scan (hg : IsGap gap) (hname : BeginsOutside name (gap ++ f.opening)) :
    find? (line m gap f core) name operandStart
      = scan name (beforeCore gap f) (core ++ f.closing) (corePosition gap f) := by
  have hdrop : (line m gap f core).drop operandStart
      = (gap ++ f.opening) ++ (core ++ f.closing) := by
    rw [operandStart, drop_three_line, operand]
    simp only [List.append_assoc]
  have hle : operandStart ≤ (line m gap f core).length := by
    rw [line, List.length_append, m.length_name, operandStart]
    omega
  rw [find?, if_pos hle, hdrop, scan_append hname, lastOr, beforeCore, operandStart,
    corePosition, List.getLast?_eq_some_getLast (lead_ne_nil hg f), Option.some_or]

theorem opens_beforeCore (hg : IsGap gap) : mayBegin (beforeCore gap f) = true := by
  rw [beforeCore, List.getLast?_eq_some_getLast (lead_ne_nil hg f), mayBegin]
  exact (isFurther_of_mem_lead hg f (List.getLast_mem (lead_ne_nil hg f))).2

theorem mayEnd_closing {tail : Text} (htail : IsAddend tail) (f : OperandForm) :
    mayEnd (tail ++ f.closing) = true := by
  have hhead := htail.head_closing f
  cases h : tail ++ f.closing with
  | nil => rfl
  | cons c t =>
    rw [h] at hhead
    rcases hhead c rfl with rfl | rfl | rfl | rfl <;> rfl

/-- A name in a form is found in its place, with or without an addend behind it. -/
theorem find?_line_append {x tail : Text} (hg : IsGap gap)
    (hx : BeginsOutside x (gap ++ f.opening)) (htail : IsAddend tail) :
    find? (line m gap f (x ++ tail)) x operandStart = some (corePosition gap f) := by
  have hstands : standsAt x (beforeCore gap f) (x ++ (tail ++ f.closing)) = true := by
    rw [standsAt, opens_beforeCore hg, List.isPrefixOf_iff_prefix.mpr (List.prefix_append _ _),
      List.drop_left, mayEnd_closing htail]
    rfl
  rw [find?_line_eq_scan hg hx, List.append_assoc]
  obtain ⟨c, t, rfl⟩ := List.exists_cons_of_ne_nil hx.ne_nil
  rw [List.cons_append, scan, if_pos (by rwa [List.cons_append] at hstands)]

/-- No other word is found in the line. -/
theorem find?_line_of_ne (hg : IsGap gap) (hx : IsWord core) (hu : IsWord name)
    (hne : name ≠ core) : find? (line m gap f core) name operandStart = none := by
  have hclosing : ∀ c ∈ f.closing.head?, Names.isFurther c = false := by
    cases f <;> decide
  have hstands : ¬ standsAt name (beforeCore gap f) (core ++ f.closing) = true :=
    fun h => hne (eq_of_standsAt hu.2 hx.2 hclosing h)
  rw [find?_line_eq_scan hg (hu.beginsOutside hg f)]
  obtain ⟨c, t, rfl⟩ := List.exists_cons_of_ne_nil hx.1
  rw [List.cons_append] at hstands ⊢
  rw [scan, if_neg hstands]
  -- behind the first character of the word nothing opens a token any more
  refine scan_eq_none (opens_of_isFurther (hx.2 c List.mem_cons_self)) ?_ name _
  intro d hd
  rcases List.mem_append.mp hd with hd | hd
  · exact opens_of_isFurther (hx.2 d (List.mem_cons_of_mem c hd))
  · exact opens_of_mem_closing f hd

/-- Behind a literal that was put into a form nothing is found, not even in an addend. -/
theorem find?_behind_literal {ds tail : Text} (hds : IsHexRun ds) (htail : IsAddend tail) :
    find? (line m gap f ('$' :: ds ++ tail)) name (corePosition gap f + ('$' :: ds).length)
      = none := by
  have hline : line m gap f ('$' :: ds ++ tail)
      = ((m.name ++ (gap ++ f.opening)) ++ '$' :: ds) ++ (tail ++ f.closing) := by
    rw [line_eq_append]
    simp only [List.append_assoc]
  have hlen : ((m.name ++ (gap ++ f.opening)) ++ '$' :: ds).length
      = corePosition gap f + ('$' :: ds).length := by
    rw [List.length_append, length_lead]
  have hlast : ((m.name ++ (gap ++ f.opening)) ++ '$' :: ds).getLast?
      = some (('$' :: ds).getLast (List.cons_ne_nil _ _)) := by
    rw [List.getLast?_append, List.getLast?_eq_some_getLast (List.cons_ne_nil _ _), Option.some_or]
  have hle : ((m.name ++ (gap ++ f.opening)) ++ '$' :: ds).length
      ≤ (((m.name ++ (gap ++ f.opening)) ++ '$' :: ds) ++ (tail ++ f.closing)).length :=
    (List.prefix_append _ _).length_le
  rw [find?, hline, ← hlen, if_pos hle, List.drop_left, before?_append (by simp), hlast]
  refine scan_eq_none (opens_of_mem_literal hds (List.getLast_mem _)) (fun c hc => ?_) name _
  rcases List.mem_append.mp hc with hc | hc
  · exact opens_of_isSumChar (htail.mem c hc)
  · exact opens_of_mem_closing f hc

/-- No name that begins neither like the literal nor in front of it is found in a line that
holds a literal, with or without an addend behind it. -/
theorem find?_literal_line_append (hg : IsGap gap) {ds tail : Text} (hds : IsHexRun ds)
    (htail : IsAddend tail) (hu : BeginsOutside name ('$' :: (gap ++ f.opening))) :
    find? (line m gap f ('$' :: ds ++ tail)) name operandStart = none := by
  obtain ⟨hdollar, hlead⟩ := beginsOutside_cons.mp hu
  rw [find?_line_eq_scan hg hlead, List.append_assoc, List.cons_append, scan,
    if_neg (by simp [standsAt_cons_of_ne hu.ne_nil hdollar])]
  refine scan_eq_none (by decide) ?_ name _
  intro c hc
  rcases List.mem_append.mp hc with hc | hc
  · exact opens_of_mem_literal hds (List.mem_cons_of_mem '$' hc)
  · rcases List.mem_append.mp hc with hc | hc
    · exact opens_of_isSumChar (htail.mem c hc)
    · exact opens_of_mem_closing f hc

/-- No word is found in a line that holds a literal. -/
theorem find?_literal_line (hg : IsGap gap) {ds : Text} (hds : IsHexRun ds) (hu : IsWord name) :
    find? (line m gap f ('$' :: ds)) name operandStart = none := by
  have hdollar : name.head? ≠ some '$' := by
    intro h
    exact ne_of_isFurther (hu.2 '$' (List.mem_of_mem_head? h)) (by decide) rfl
  have hbegins := beginsOutside_cons.mpr ⟨hdollar, hu.beginsOutside hg f⟩
  have hfind := find?_literal_line_append (m := m) hg hds isAddend_nil hbegins
  rwa [List.append_nil] at hfind

end Search

end Token

end Cross6502
