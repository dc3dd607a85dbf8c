import Cross6502.Proofs.Assembly.References

/-!
# Operands that are complete numbers

Three notions of a number meet in an operand.  The check that no name is left
(`Literal.isPlain`) asks for hexadecimal digits only, whatever the base.  The mode is
read off the first character.  The value is read from the longest run of digits of the
base, and no digit at all is zero.  An operand that passes the check can therefore still
hold digits that the value does not use, or none: an undefined name that is spelled with
the letters `a` to `f` is encoded as zero.

Here the literal of an operand is cut out (`Literal.core`), a complete number of a base is
said to be one on its own terms (`Literal.isComplete`), and the two are compared with the
run of digits that the value is read from (`Literal.digitRun`).  The literal is complete
exactly if it has a digit and the run takes all of them in.
-/

namespace Cross6502

namespace Literal

/-! ## Complete numbers -/

/-- The part of an operand that its number is written in: behind the characters that
select a mode, up to a comma or a closing parenthesis. -/
def core (operand : Text) : Text :=
  ((Text.trim operand).dropWhile fun c => c = '(' || c = '#' || c = '*').takeWhile
    fun c => c ≠ ',' && c ≠ ')'

/-- A number with nothing but digits of its base, and at least one of them. -/
def isComplete : Text → Bool
  | '$' :: ds => !ds.isEmpty && ds.all isHexDigit
  | '%' :: ds => !ds.isEmpty && ds.all fun c => c = '0' || c = '1'
  | '0' :: ds => ds.all fun c => '0' ≤ c && c ≤ '7'
  | ds => !ds.isEmpty && ds.all Char.isDigit

/-- The run of digits that the value of an operand is read from. -/
def digitRun (operand : Text) : Text :=
  digitsOf (form (clean operand)).base (form (clean operand)).body

/-! ## Digits -/

section Digits

variable {c : Char}

/-- No hexadecimal digit is a mark or a blank. -/
theorem ne_of_isHexDigit {d : Char} (hc : isHexDigit c = true) (hd : isHexDigit d = false) :
    c ≠ d := by
  rintro rfl
  exact absurd hc (by simp [hd])

theorem isBlank_of_isHexDigit (hc : isHexDigit c = true) : Text.isBlank c = false := by
  have hrange := isHexDigit_iff.mp hc
  have h₁ : ¬ (c.toNat ≤ 13) := by omega
  have h₂ : ¬ (c.toNat ≤ 32) := by omega
  have h₃ : ¬ (128 ≤ c.toNat) := by omega
  simp [Text.isBlank, h₁, h₂, h₃]

theorem not_decoration_of_isHexDigit (hc : isHexDigit c = true) :
    c ≠ ',' ∧ isDecoration c = false := by
  have hrange := isHexDigit_iff.mp hc
  have hlt : ¬ (0x7F ≤ c.toNat) := by omega
  refine ⟨ne_of_isHexDigit hc (by decide), ?_⟩
  simp [isDecoration, ne_of_isHexDigit hc (d := ' ') (by decide),
    ne_of_isHexDigit hc (d := '\t') (by decide), ne_of_isHexDigit hc (d := '#') (by decide),
    ne_of_isHexDigit hc (d := '*') (by decide), ne_of_isHexDigit hc (d := '(') (by decide),
    ne_of_isHexDigit hc (d := ')') (by decide), ne_of_isHexDigit hc (d := ';') (by decide), hlt]

end Digits

/-! ## Literals and runs -/

/-- Digits at the front of a text are all taken in by a run of the base exactly if they are
digits of the base. -/
theorem prefix_digitsOf_iff {base : Nat} {ds : Text} (hne : ds ≠ [])
    (hds : ∀ c ∈ ds, isHexDigit c = true) (rest : Text) :
    ds <+: digitsOf base (ds ++ rest) ↔ ∀ c ∈ ds, isDigitOf base c = true := by
  have hsign : splitSign (ds ++ rest) = (1, ds ++ rest) := by
    refine splitSign_of_unsigned fun c hc => ?_
    rw [List.head?_append_of_ne_nil _ hne] at hc
    have hhex := hds c (List.mem_of_mem_head? hc)
    exact ⟨ne_of_isHexDigit hhex (by decide), ne_of_isHexDigit hhex (by decide)⟩
  rw [digitsOf, hsign]
  constructor
  · intro hbefore c hc
    exact List.mem_takeWhile_imp (hbefore.subset hc)
  · intro hall
    rw [List.takeWhile_append_of_pos hall]
    exact List.prefix_append _ _

/-- A number that holds hexadecimal digits only is complete exactly if its value is read
from all its digits, whatever stands behind it. -/
theorem isComplete_iff_prefix {t : Text} (hhex : (dropBaseMark t).all isHexDigit = true)
    (rest : Text) :
    isComplete t = true ↔ dropBaseMark t ≠ []
      ∧ dropBaseMark t <+: digitsOf (form (t ++ rest)).base (form (t ++ rest)).body := by
  have hds := List.all_eq_true.mp hhex
  have hrun : ∀ {ds : Text} {base : Nat}, (∀ c ∈ ds, isHexDigit c = true) →
      ((ds ≠ [] ∧ ds <+: digitsOf base (ds ++ rest))
        ↔ ds ≠ [] ∧ ∀ c ∈ ds, isDigitOf base c = true) := fun hds =>
    and_congr_right fun hne => prefix_digitsOf_iff hne hds rest
  rw [isComplete.eq_def]
  split
  · rename_i ds
    rw [dropBaseMark] at hds ⊢
    rw [List.cons_append, form, hrun hds]
    simp [isDigitOf_sixteen_iff]
  · rename_i ds
    rw [dropBaseMark] at hds ⊢
    rw [List.cons_append, form, hrun hds]
    simp [isDigitOf_two_iff]
  · rename_i ds
    rw [dropBaseMark.eq_3 _ (by simp) (by simp)] at hds ⊢
    rw [List.cons_append, form, ← List.cons_append, hrun hds]
    simp [isDigitOf_eight_iff]
  · rename_i hdollar hpercent hzero
    rw [dropBaseMark.eq_3 _ hdollar hpercent] at hds ⊢
    cases t with
    | nil => simp
    | cons c ds =>
      rw [form.eq_4, hrun hds]
      · simp [isDigitOf_ten_iff]
      · rintro u heq
        exact hdollar ds (by rw [(List.cons.inj heq).1])
      · rintro u heq
        exact hpercent ds (by rw [(List.cons.inj heq).1])
      · rintro u heq
        exact hzero ds (by rw [(List.cons.inj heq).1])

theorem dropBaseMark_takeWhile (t : Text) :
    dropBaseMark (t.takeWhile fun c => c ≠ ',' && c ≠ ')')
      = (dropBaseMark t).takeWhile fun c => c ≠ ',' && c ≠ ')' := by
  rw [dropBaseMark.eq_def t]
  split
  · rfl
  · rfl
  · rename_i hdollar hpercent
    refine dropBaseMark.eq_3 _ ?_ ?_
    · intro u heq
      cases t with
      | nil => cases heq
      | cons c t =>
        rw [List.takeWhile_cons] at heq
        split at heq
        · exact hdollar t (by rw [(List.cons.inj heq).1])
        · cases heq
    · intro u heq
      cases t with
      | nil => cases heq
      | cons c t =>
        rw [List.takeWhile_cons] at heq
        split at heq
        · exact hpercent t (by rw [(List.cons.inj heq).1])
        · cases heq

theorem isPlain_eq (operand : Text) :
    isPlain operand = (dropBaseMark (core operand)).all isHexDigit := by
  rw [core, dropBaseMark_takeWhile]
  rfl

theorem mem_of_isPlain {operand : Text} (h : isPlain operand = true) :
    ∀ c ∈ core operand, c ≠ ',' ∧ isDecoration c = false := by
  rw [isPlain_eq, List.all_eq_true] at h
  intro c hc
  rw [dropBaseMark.eq_def] at h
  split at h
  · rename_i ds hcore
    rw [hcore] at hc
    rcases List.mem_cons.mp hc with rfl | hc
    · decide
    · exact not_decoration_of_isHexDigit (h c hc)
  · rename_i ds hcore
    rw [hcore] at hc
    rcases List.mem_cons.mp hc with rfl | hc
    · decide
    · exact not_decoration_of_isHexDigit (h c hc)
  · exact not_decoration_of_isHexDigit (h c hc)

/-- The cleaned text of a plain operand begins with its literal. -/
theorem clean_of_isPlain {operand : Text} (htight : Text.Tight operand)
    (h : isPlain operand = true) : ∃ rest, clean operand = core operand ++ rest := by
  have hcore := mem_of_isPlain h
  rw [core, Text.trim_of_tight htight] at hcore ⊢
  have hmarks : ∀ c ∈ operand.takeWhile fun c => c = '(' || c = '#' || c = '*',
      c ≠ ',' ∧ isDecoration c = true := by
    intro c hc
    have hmark := List.mem_takeWhile_imp hc
    simp only [Bool.or_eq_true, decide_eq_true_iff] at hmark
    rcases hmark with (rfl | rfl) | rfl <;> decide
  have hopening := OperandForm.clean_append_of_decoration hmarks
    (operand.dropWhile fun c => c = '(' || c = '#' || c = '*')
  rw [List.takeWhile_append_dropWhile] at hopening
  refine ⟨clean ((operand.dropWhile fun c => c = '(' || c = '#' || c = '*').dropWhile
    fun c => c ≠ ',' && c ≠ ')'), ?_⟩
  rw [hopening, ← OperandForm.clean_append_of_plain hcore, List.takeWhile_append_dropWhile]

theorem isComplete_core_iff {operand : Text} (htight : Text.Tight operand)
    (h : isPlain operand = true) :
    isComplete (core operand) = true ↔ dropBaseMark (core operand) ≠ []
      ∧ dropBaseMark (core operand) <+: digitRun operand := by
  obtain ⟨rest, hclean⟩ := clean_of_isPlain htight h
  rw [digitRun, hclean]
  exact isComplete_iff_prefix (isPlain_eq operand ▸ h) rest

/-- The marks that stand around a number in an operand. -/
def marks : List Char := ['(', '#', '*', ',', ')', '$', '%']

/-- Words with a blank between them are no number. -/
theorem isPlain_of_blank {word rest : Text} {c : Char} (hne : word ≠ [])
    (hword : ∀ d ∈ word, d ∉ marks) (hc : Text.isBlank c = true)
    (htight : Text.Tight (word ++ c :: rest)) : isPlain (word ++ c :: rest) = false := by
  rw [← Bool.not_eq_true, isPlain_eq, List.all_eq_true]
  intro hall
  have hmem : c ∈ dropBaseMark (core (word ++ c :: rest)) := by
    have hcomma : c ≠ ',' := by
      rintro rfl
      exact absurd hc (by decide)
    have hparen : c ≠ ')' := by
      rintro rfl
      exact absurd hc (by decide)
    have hinner : ∀ d ∈ word, (d ≠ ',' && d ≠ ')') = true := fun d hd => by
      have hmark := hword d hd
      simp only [marks, List.mem_cons, not_or] at hmark
      simp [hmark]
    obtain ⟨d, word, rfl⟩ := List.exists_cons_of_ne_nil hne
    have hd := hword d List.mem_cons_self
    simp only [marks, List.mem_cons, not_or] at hd
    rw [core, Text.trim_of_tight htight, List.cons_append,
      List.dropWhile_cons_of_neg (by simp [hd]), ← List.cons_append,
      List.takeWhile_append_of_pos hinner,
      List.takeWhile_cons_of_pos (by simp [hcomma, hparen]), List.cons_append,
      dropBaseMark.eq_3 _ (by simp [hd]) (by simp [hd])]
    simp
  exact absurd hc (by simp [isBlank_of_isHexDigit (hall c hmem)])

end Literal

/-! ## Instruction lines -/

namespace Encoded

/-- The bytes of an operand are those of the literal that is read from the trimmed line. -/
theorem exists_literal_of_ofLine {line : Text} {e : Encoded} (h : ofLine line = .ok e) :
    hasMnemonicShape (Text.trim line) = true ∧ ∃ literal,
      Literal.read (Line.operand (Text.trim line)) = .ok literal
        ∧ e.operand = operandBytes e.mode.length literal := by
  rw [ofLine] at h
  split at h
  · cases h
  · rename_i hshape
    obtain ⟨mode, hmode, h⟩ := Outcome.bind_eq_ok_iff.mp h
    split at h
    · cases h
    · obtain ⟨opcode, hopcode, h⟩ := Outcome.bind_eq_ok_iff.mp h
      obtain ⟨literal, hliteral, h⟩ := Outcome.bind_eq_ok_iff.mp h
      cases h
      exact ⟨by simpa using hshape, literal, hliteral, rfl⟩

/-- An instruction with operand bytes has a blank behind its mnemonic. -/
theorem exists_blank_of_ofLine {line : Text} {e : Encoded} (h : ofLine line = .ok e)
    (hoperand : e.operand ≠ []) :
    ∃ x y z c rest, Text.trim line = x :: y :: z :: c :: rest ∧ Text.isBlank c = true := by
  obtain ⟨hshape, literal, -, hbytes⟩ := exists_literal_of_ofLine h
  obtain ⟨-, -, -, hmode, -⟩ := of_ofLine h
  rw [hasMnemonicShape.eq_def] at hshape
  split at hshape
  · rename_i x y z hline
    -- Nothing stands behind the mnemonic, so the mode is implied and takes no operand.
    rw [Line.mode, Text.trim_of_tight (Text.tight_trim line), hline] at hmode
    have himplied : Mode.implied = e.mode := Except.ok.inj hmode
    rw [hbytes, ← himplied] at hoperand
    exact absurd rfl hoperand
  · rename_i x y z c rest hline
    exact ⟨x, y, z, c, rest, hline, hshape⟩
  · cases hshape

/-- The characters of a mnemonic are letters. -/
theorem letters_of_ofLine {line : Text} {e : Encoded} (h : ofLine line = .ok e) :
    ∀ d ∈ (Text.trim line).take 3, d ∉ Literal.marks ∧ Text.isBlank d = false := by
  obtain ⟨m, hm, -⟩ := of_ofLine h
  have hlower : m.name = Text.lower (Line.mnemonic (Text.trim line)) := by
    simpa using List.find?_some hm
  have hmarks : ∀ c ∈ Literal.marks, c ∉ m.name := by
    cases m <;> decide
  have hrange : ∀ c ∈ Literal.marks, 0 < c.toNat ∧ c.toNat < 65 := by decide
  intro d hd
  refine ⟨fun hmark => ?_, Bool.eq_false_iff.mpr fun hblank => ?_⟩
  · refine hmarks d hmark ?_
    rw [hlower, Text.mem_lower_iff (hrange d hmark).1 (hrange d hmark).2]
    exact hd
  · have hmem : d ∈ m.name := by
      rw [hlower]
      exact Text.mem_lower_of_isBlank hblank hd
    exact absurd hblank (by simp [OperandForm.isBlank_of_mem_name m hmem])

/-- A line that begins with blanks is no plain instruction: a part of the mnemonic, and a
blank behind it, would count as operand. -/
theorem operand_trim_of_isPlain {line : Text} {e : Encoded} (h : ofLine line = .ok e)
    (hoperand : e.operand ≠ []) (hplain : Literal.isPlain (Line.operand line) = true) :
    Line.operand (Text.trim line) = Line.operand line := by
  obtain ⟨x, y, z, c, rest, hline, hc⟩ := exists_blank_of_ofLine h hoperand
  have hletters := letters_of_ofLine h
  rw [hline] at hletters
  obtain ⟨front, back, hsplit, hfront, hback⟩ := Text.exists_append_trim line
  have htight := Text.tight_trim line
  rw [hline] at hsplit htight
  rw [Line.operand, Line.operand, hline]
  cases front with
  | nil =>
    rw [hsplit]
    exact (Text.trim_append_of_blank hback (c :: rest)).symm
  | cons b front =>
    exfalso
    -- What is left of the mnemonic when three characters are taken off.
    have hdrop : line.drop 3 = front.drop 2 ++ (([x, y].drop (2 - front.length) ++ [z])
        ++ c :: rest) ++ back := by
      rw [hsplit, List.cons_append, List.cons_append, List.drop_succ_cons, List.append_assoc,
        List.drop_append, List.append_assoc]
      have hlength : 2 - front.length ≤ [x, y].length := by simp
      congr 1
      rw [show x :: y :: z :: c :: rest = [x, y] ++ (z :: c :: rest) from rfl, List.append_assoc,
        List.drop_append_of_le_length hlength]
      simp
    have hword : ∀ d ∈ [x, y].drop (2 - front.length) ++ [z],
        d ∉ Literal.marks ∧ Text.isBlank d = false := by
      intro d hd
      refine hletters d ?_
      rcases List.mem_append.mp hd with hd | hd
      · exact List.mem_append_left [z] (List.mem_of_mem_drop hd)
      · exact List.mem_append_right [x, y] hd
    have hinner : Text.Tight (([x, y].drop (2 - front.length) ++ [z]) ++ c :: rest) :=
      Text.tight_append (by simp) (List.cons_ne_nil c rest)
        (fun d hd => (hword d (List.mem_of_mem_head? hd)).2)
        (fun d hd => htight.2 d (by simpa using hd))
    rw [Line.operand, hdrop, Text.trim_append_append
      (fun d hd => hfront d (List.mem_cons_of_mem b (List.mem_of_mem_drop hd))) hinner hback,
      Literal.isPlain_of_blank (by simp) (fun d hd => (hword d hd).1) hc hinner] at hplain
    cases hplain

end Encoded

namespace Statement

variable {c : Context} {text : Text} {address : Int} {number : Nat} {e : Encoded}
  {pending : List Text}

/-- Where no name may be left to the linker, the line that is encoded is plain, and it is
the line that is logged. -/
theorem exists_plain_of_assemble (hallow : c.allowUnresolved = false)
    (h : (assemble c text address number).outcome = .ok (e, pending)) :
    ∃ line, (assemble c text address number).log = [.resolved number text line]
      ∧ Literal.isPlain (Line.operand line) = true ∧ Encoded.ofLine line = .ok e
      ∧ pending = [] := by
  obtain ⟨b₁, b₂, folded, b₃, hresolve, hfold, hdefer, hline⟩ := outcome_assemble_eq_ok_iff.mp h
  obtain ⟨hplain, rfl, rfl⟩ | ⟨-, hallowed, -⟩ := outcome_deferNames_eq_ok_iff.mp hdefer
  swap
  · rw [hallow] at hallowed
    cases hallowed
  have hdeferred : deferNames c number b₃ = Logged.ok (b₃, []) := if_pos hplain
  refine ⟨b₃.text, ?_, hplain, hline, rfl⟩
  rw [assemble, Logged.log_bind_of_ok hresolve, Logged.log_bind_of_ok hfold,
    Logged.log_bind_of_ok (congrArg Logged.outcome hdeferred), hdeferred,
    Logged.log_bind_of_ok rfl, Logged.log_bind_of_ok hline]
  rfl

/-- What holds of the literal in a line that is assembled with nothing left to the linker.
It has hexadecimal digits only, behind the mark of a base.  It is complete exactly if it
has a digit and the value is read from all its digits: a line is silently encoded from a
part of its literal wherever a digit is not one of its base, or there is none. -/
theorem assembled_literal_complete_iff (hallow : c.allowUnresolved = false)
    (h : (assemble c text address number).outcome = .ok (e, pending)) (hoperand : e.operand ≠ []) :
    ∃ line literal, (assemble c text address number).log = [.resolved number text line]
      ∧ Literal.read (Line.operand line) = .ok literal
      ∧ e.operand = Encoded.operandBytes e.mode.length literal
      ∧ (∀ d ∈ Literal.dropBaseMark (Literal.core (Line.operand line)),
          Literal.isHexDigit d = true)
      ∧ (Literal.isComplete (Literal.core (Line.operand line)) = true
          ↔ Literal.dropBaseMark (Literal.core (Line.operand line)) ≠ []
            ∧ Literal.dropBaseMark (Literal.core (Line.operand line))
                <+: Literal.digitRun (Line.operand line)) := by
  obtain ⟨line, hlog, hplain, hline, -⟩ := exists_plain_of_assemble hallow h
  obtain ⟨-, literal, hread, hbytes⟩ := Encoded.exists_literal_of_ofLine hline
  rw [Encoded.operand_trim_of_isPlain hline hoperand hplain] at hread
  refine ⟨line, literal, hlog, hread, hbytes, ?_,
    Literal.isComplete_core_iff (Text.tight_trim _) hplain⟩
  rw [Literal.isPlain_eq] at hplain
  exact List.all_eq_true.mp hplain

/-- A table with one name, and nothing left to the linker. -/
def tableContext : Context where
  symbols := { symbols := [{ name := "table".toList, address := 0x1234 }] }
  capacity := 256
  allowUnresolved := false
  file := "main"

/-- A name and a sum become a literal, all of whose digits are read. -/
theorem assembled_literal_complete_iff_table :
    (assemble tableContext "lda table+1,x".toList 0 1).log
        = [.resolved 1 "lda table+1,x".toList "lda $1235,x".toList]
      ∧ Literal.isComplete (Literal.core (Line.operand "lda $1235,x".toList)) = true
      ∧ Literal.dropBaseMark (Literal.core (Line.operand "lda $1235,x".toList))
          <+: Literal.digitRun (Line.operand "lda $1235,x".toList) := by
  have hassemble : (assemble tableContext "lda table+1,x".toList 0 1).outcome
      = .ok (⟨"lda".toList, .absoluteX, 0xBD, [0x35, 0x12]⟩, []) := by
    decide
  have hlog : (assemble tableContext "lda table+1,x".toList 0 1).log
      = [.resolved 1 "lda table+1,x".toList "lda $1235,x".toList] := by
    decide
  obtain ⟨line, literal, hresolved, -, -, -, hcomplete⟩ :=
    assembled_literal_complete_iff (by rfl) hassemble (by decide)
  obtain rfl : "lda $1235,x".toList = line := by
    rw [hlog] at hresolved
    exact (Event.resolved.inj (List.singleton_inj.mp hresolved)).2.2
  have hliteral : Literal.isComplete (Literal.core (Line.operand "lda $1235,x".toList)) = true := by
    decide
  exact ⟨hlog, hliteral, (hcomplete.mp hliteral).2⟩

/-- An undefined name of hexadecimal letters is encoded as zero. -/
theorem undefined_name_encoded_as_zero :
    (assemble ⟨{}, 256, false, "main"⟩ "lda #fade".toList 0 1).outcome
        = .ok (⟨"lda".toList, .immediate, 0xA9, [0]⟩, [])
      ∧ (assemble ⟨{}, 256, false, "main"⟩ "lda #fade".toList 0 1).log
        = [.resolved 1 "lda #fade".toList "lda #fade".toList]
      ∧ Literal.isComplete (Literal.core (Line.operand "lda #fade".toList)) = false := by
  refine ⟨?_, ?_, ?_⟩ <;> decide

end Statement

end Cross6502
