import Cross6502.Proofs.Assembly.Produced
import Cross6502.Proofs.Substitution.LightSum

/-!
# Light lines of a source

A line of a source that has at most `digitLimit` characters holds no decimal number that
is too long to be read.  In the first pass that is all there is to it: the numbers that it
reads are parts of the line (`Line.exists_effectiveMode`, `Directive.exists_read`).  In the
second pass names are replaced and sums are folded before a number is read.  The body of
the line is light to begin with (`Line.light_of_splitLabel`) and stays so, hence an
instruction is assembled or refused with an error that can be written
(`Statement.endsWell_assemble`).
-/

namespace Cross6502

open Text (combiningDot)

/-! ## From a line to its body -/

namespace Line

theorem length_uncommented_le (raw : Text) :
    (Text.trimRight (stripComment raw)).length ≤ raw.length := by
  rw [Text.trimRight, List.length_reverse]
  refine Nat.le_trans (List.dropWhile_sublist Text.isBlank).length_le ?_
  rw [List.length_reverse]
  exact (List.takeWhile_sublist _).length_le

/-- The body of a line has at most as many characters as the line, combining dots aside. -/
theorem countP_body_le {raw body : Text} {label : Option Text}
    (h : splitLabel (clean raw) = (label, body)) :
    body.countP (· != combiningDot) ≤ raw.length ∧ body.count combiningDot ≤ raw.length := by
  have hsublist := sublist_of_splitLabel h
  have hlower := Text.countP_lower_le (Text.trimRight (stripComment raw))
  have hraw := length_uncommented_le raw
  constructor
  · exact Nat.le_trans hsublist.countP_le (Nat.le_trans hlower.1 hraw)
  · exact Nat.le_trans (hsublist.count_le _) (Nat.le_trans hlower.2 hraw)

/-- A combining dot at the front of a body stands behind a blank, a colon or nothing. -/
theorem exists_front_of_splitLabel {t u : Text} {label : Option Text}
    (h : splitLabel t = (label, combiningDot :: u)) :
    ∃ front v, t = front ++ combiningDot :: v ∧ front.getLast? ≠ some 'i' := by
  -- blanks stand between what is cut off and the dot, unless the dot follows directly
  have hblanks : ∀ s r : Text, s.getLast? ≠ some 'i' ∨ r.head? ≠ some combiningDot →
      Text.trim r = combiningDot :: u →
      ∃ front v, s ++ r = front ++ combiningDot :: v ∧ front.getLast? ≠ some 'i' := by
    intro s r hs hr
    obtain ⟨front, back, hparts, hfront, -⟩ := Text.exists_append_trim r
    rw [hr] at hparts
    refine ⟨s ++ front, u ++ back, by rw [hparts]; simp only [List.append_assoc, List.cons_append],
      fun hi => ?_⟩
    rw [List.getLast?_append, Option.or_eq_some_iff] at hi
    rcases hi with hi | ⟨hnone, hi⟩
    · exact absurd (hfront 'i' (List.mem_of_getLast? hi)) (by decide)
    · rw [List.getLast?_eq_none_iff.mp hnone] at hparts
      rcases hs with hs | hs
      · exact hs hi
      · exact hs (by rw [hparts]; rfl)
  rw [splitLabel.eq_def] at h
  split at h
  · cases h
  · rename_i c t
    have hcut := List.takeWhile_append_dropWhile (p := fun c => !endsLabel c) (l := c :: t)
    have hhead := List.head?_dropWhile_not (fun c => !endsLabel c) (c :: t)
    split at h
    · exact hblanks [] _ (.inl (by decide)) (Prod.mk.inj h).2
    · simp only at h
      split at h
      · rename_i rest hrest
        rw [← hcut, hrest, List.append_cons]
        exact hblanks _ rest (.inl (by simp)) (Prod.mk.inj h).2
      · split at h
        · exact hblanks [] _ (.inl (by decide)) (Prod.mk.inj h).2
        · rw [← hcut]
          refine hblanks _ _ (.inr fun hdot => ?_) (Prod.mk.inj h).2
          rw [hdot] at hhead
          exact absurd hhead (by decide)

/-- The body of a line that is short enough is light. -/
theorem light_of_splitLabel {raw body : Text} {label : Option Text}
    (hraw : raw.length ≤ digitLimit) (h : splitLabel (clean raw) = (label, body)) :
    Text.Light body := by
  obtain ⟨hcount, hdots⟩ := countP_body_le h
  have hbulk := Text.bulk_le_countP 0 body
  refine ⟨by omega, by omega, fun hhead => ?_⟩
  obtain ⟨u, rfl⟩ := List.head?_eq_some_iff.mp hhead
  obtain ⟨front, v, hclean, hfront⟩ := exists_front_of_splitLabel h
  have hlower := Text.countP_lower_lt hclean hfront
  have hsublist := (sublist_of_splitLabel h).countP_le (p := (· != combiningDot))
  have huncommented := length_uncommented_le raw
  exact Nat.lt_of_le_of_lt (Nat.le_trans hbulk hsublist)
    (Nat.lt_of_lt_of_le hlower (Nat.le_trans huncommented hraw))

/-- The name of a label counts. -/
theorem bulk_pos_of_splitLabel {t name rest : Text} (h : splitLabel t = (some name, rest)) :
    0 < Text.bulk 0 name := by
  obtain ⟨c, u, -, halnum, rfl⟩ := of_splitLabel h
  refine Text.bulk_pos ?_ _
  rintro rfl
  exact absurd halnum (by set_option maxRecDepth 2000 in decide)

/-! ## Modes -/

theorem exists_operandMode {operand : Text} (h : Text.bulk 0 operand ≤ digitLimit) :
    ∃ m, operandMode operand = .ok m := by
  obtain ⟨l, hl⟩ := Literal.exists_read_of_bulk h
  rw [operandMode.eq_def]
  split
  all_goals try exact ⟨_, rfl⟩
  rw [hl]
  simp only [bind, Except.bind]
  split
  · exact ⟨_, rfl⟩
  · split
    · exact ⟨_, rfl⟩
    · exact ⟨_, rfl⟩

theorem exists_effectiveMode {body : Text} (h : body.countP (· != combiningDot) ≤ digitLimit) :
    ∃ m, effectiveMode body = .ok m := by
  have hmode : ∃ m, mode body = .ok m := by
    rw [mode]
    split
    · exact ⟨_, rfl⟩
    · refine exists_operandMode (Nat.le_trans (Text.bulk_trimLeft_le _) ?_)
      refine Nat.le_trans (Text.bulk_le_countP 0 _) (Nat.le_trans ?_ h)
      exact ((List.drop_sublist 3 _).trans (Text.trim_sublist body)).countP_le
  obtain ⟨m, hm⟩ := hmode
  rw [effectiveMode, hm]
  simp only [bind, Except.bind]
  split
  · exact ⟨_, rfl⟩
  · split
    · exact ⟨_, rfl⟩
    · exact ⟨_, rfl⟩

end Line

/-! ## Directives -/

namespace Directive

theorem sublist_of_ofLine? {body argument : Text} {d : Directive} (h : ofLine? body = some d)
    (hd : d = .org argument ∨ d = .byte argument) : argument.Sublist body := by
  have hargument : argument = (Text.splitWord (Text.trim body)).2 := by
    rw [ofLine?] at h
    simp only at h
    split at h
    · cases h
    · split at h
      · cases h
        rcases hd with hd | hd <;> cases hd
        rfl
      · split at h
        · cases h
          rcases hd with hd | hd <;> cases hd
        · split at h
          · cases h
            rcases hd with hd | hd <;> cases hd
            rfl
          · cases h
  rw [hargument, Text.splitWord]
  exact (List.dropWhile_sublist _).trans ((List.dropWhile_sublist _).trans
    ((List.dropWhile_sublist _).trans (Text.trim_sublist body)))

/-- The argument of a directive on a line that is short enough is read. -/
theorem exists_read {body argument : Text} {d : Directive}
    (hbody : body.countP (· != combiningDot) ≤ digitLimit) (h : ofLine? body = some d)
    (hd : d = .org argument ∨ d = .byte argument) : ∃ l, Literal.read argument = .ok l :=
  Literal.exists_read_of_bulk (Nat.le_trans (Text.bulk_le_countP 0 argument)
    (Nat.le_trans (sublist_of_ofLine? h hd).countP_le hbody))

end Directive

/-! ## Instructions -/

theorem Opcode.endsWell_encode (mnemonic : Text) (mode : Mode) :
    EndsWell (fun _ => True) (encode mnemonic mode) := by
  rw [encode]
  split
  · exact Failure.isWritten_ofCause rfl
  · split
    · exact Failure.isWritten_ofCause rfl
    · split
      · trivial
      · exact Failure.isWritten_ofCause rfl

namespace Encoded

/-- Behind a mnemonic stands a blank, so that all of an operand counts. -/
theorem bulk_drop_three_le {t : Text} (h : hasMnemonicShape t = true) :
    Text.bulk 0 (t.drop 3) ≤ Text.bulk 0 t := by
  rw [hasMnemonicShape.eq_def] at h
  split at h
  · exact Nat.zero_le _
  · rename_i x y z c rest
    exact Text.bulk_behind_blank_le h [x, y, z] rest
  · cases h

theorem endsWell_ofLine {line : Text} (h : Text.bulk 0 line ≤ digitLimit) :
    EndsWell (fun _ => True) (ofLine line) := by
  rw [ofLine]
  split
  · exact Failure.isWritten_ofCause rfl
  · rename_i hshape
    have hoperand : Text.bulk 0 ((Text.trim line).drop 3) ≤ digitLimit :=
      Nat.le_trans (bulk_drop_three_le (by simpa using hshape))
        (Nat.le_trans (Text.bulk_trim_le line) h)
    have hmode : EndsWell (fun _ => True) (Line.mode (Text.trim line)) := by
      rw [Line.mode, Text.trim_of_tight (Text.tight_trim line)]
      split
      · trivial
      · obtain ⟨m, hm⟩ := Line.exists_operandMode
          (Nat.le_trans (Text.bulk_trimLeft_le _) hoperand)
        rw [hm]
        trivial
    refine hmode.bind fun mode _ => ?_
    split
    · exact Failure.isWritten_ofCause rfl
    · refine (Opcode.endsWell_encode _ mode).bind fun opcode _ => ?_
      obtain ⟨l, hl⟩ := Literal.exists_read_of_bulk
        (Nat.le_trans (Text.bulk_trim_le _) hoperand)
      rw [Line.operand, hl]
      trivial

end Encoded

namespace Statement

open LineBuffer (IsLight)

variable {c : Context} {b : LineBuffer} {address : Int} {number : Nat}

theorem endsWell_resolve (hb : b.IsLight)
    (hs : ∀ s ∈ c.symbols.symbols, Names.Replaceable address s) :
    EndsWell IsLight (resolve c b address) := by
  have hnames : (Names.resolve b c.symbols address).EndsWell :=
    Names.endsWell_replaceSymbols hs hb
  rw [resolve]
  split
  · rename_i e he
    exact hnames.failure e he
  · exact hnames.buffer

theorem endsWell_holdPlaces {names : List Text} (hnames : ∀ x ∈ names, 0 < Text.bulk 0 x)
    (hb : b.IsLight) : EndsWell (fun r => r.1.IsLight) (holdPlaces number names b).outcome := by
  induction names generalizing b with
  | nil => exact hb
  | cons name rest ih =>
    have hrest : ∀ x ∈ rest, 0 < Text.bulk 0 x := fun x hx =>
      hnames x (List.mem_cons_of_mem name hx)
    have hhold := Names.endsWell_holdPlace hb (hnames name List.mem_cons_self)
    rw [holdPlaces]
    split
    · rename_i e he
      rw [he] at hhold
      exact hhold
    · rename_i b' he
      rw [he] at hhold
      exact ih hrest hhold
    · rename_i b' i he
      rw [he] at hhold
      simp only [Logged.outcome_bind, Logged.outcome_say]
      exact (ih hrest hhold).bind fun r hr => hr

theorem endsWell_deferNames (hb : b.IsLight) :
    EndsWell (fun r => r.1.IsLight) (deferNames c number b).outcome := by
  rw [deferNames]
  split
  · exact hb
  · simp only
    split
    · exact Failure.isWritten_ofCause rfl
    · have hnames : ∀ x ∈ unknownNames c b.text, 0 < Text.bulk 0 x := fun x hx =>
        Names.bulk_pos_of_mem_unresolved (List.mem_filter.mp hx).1
      simp only [Logged.outcome_bind, Logged.outcome_ofExcept]
      refine (endsWell_holdPlaces hnames hb).bind fun r hr => ?_
      exact (Arithmetic.endsWell_fold hr).bind fun r' hr' => hr'

/-- A light instruction is assembled, or refused with an error that can be written. -/
theorem endsWell_assemble {text : Text} (htext : Text.Light text)
    (hlimit : Text.isWritable (c.capacity - 1) = true) (hnumber : Text.isWritable number = true)
    (hs : ∀ s ∈ c.symbols.symbols, Names.Replaceable address s) :
    EndsWell (fun _ => True) (assemble c text address number).outcome := by
  rw [assemble]
  simp only [Logged.outcome_bind, Logged.outcome_ofExcept, Logged.outcome_say]
  have hbuffer : (bufferFor c text number).IsLight :=
    ⟨htext, hlimit, List.all_eq_true.mpr (List.forall_mem_singleton.mpr hnumber)⟩
  refine (endsWell_resolve hbuffer hs).bind fun b₁ hb₁ => ?_
  refine (Arithmetic.endsWell_fold hb₁).bind fun r₂ hr₂ => ?_
  refine (endsWell_deferNames hr₂).bind fun r₃ hr₃ => ?_
  exact (Encoded.endsWell_ofLine hr₃.text.bulk_le).bind fun e _ => trivial

end Statement

end Cross6502
