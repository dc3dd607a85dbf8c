import Cross6502.Command.Invocation
import Cross6502.Proofs.Files.Writing

/-!
# Command lines written out

What a command line gives can be written as words again: each option as one word with its
value behind an equals sign, and the arguments behind two dashes.  Read again, these words
give the same options and arguments (`readWords_words`).  So the options of one command
line can be given together with other arguments.

What is read is then checked.  The checks of the options look into the directory for those
options only that name files, and an argument passes its check exactly if it leads to a
file that may be read.
-/

namespace Cross6502

namespace Command

/-! ## Options that a tool has -/

/-- An option that a tool has, given with a value if it takes one. -/
def GivenOption.Fits (ps : List Parameter) (o : GivenOption) : Prop :=
  ∃ p ∈ ps, p.long = o.long ∧ p.isFlag = o.value.isNone

/-- A value is awaited by an option that takes one. -/
def Waiting.Fits (ps : List Parameter) (w : Waiting) : Prop :=
  ∃ p ∈ ps, p.long = w.long ∧ p.isFlag = false

section Fits

variable {ps : List Parameter} {options : List GivenOption} {waiting : Option Waiting}

theorem fits_of_readLetters {letters : List Char}
    (h : readLetters ps letters = .ok (options, waiting)) :
    (∀ o ∈ options, o.Fits ps) ∧ ∀ w ∈ waiting, w.Fits ps := by
  induction letters generalizing options waiting with
  | nil =>
    cases h
    exact ⟨nofun, nofun⟩
  | cons c rest ih =>
    rw [readLetters] at h
    split at h
    · cases h
    · rename_i p hfind
      have hp : p ∈ ps := List.mem_of_find?_eq_some hfind
      split at h
      · rename_i hflag
        obtain ⟨⟨options', waiting'⟩, hrest, h⟩ := Outcome.bind_eq_ok_iff.mp h
        cases h
        obtain ⟨hoptions, hwaiting⟩ := ih hrest
        exact ⟨List.forall_mem_cons.mpr ⟨⟨p, hp, rfl, hflag⟩, hoptions⟩, hwaiting⟩
      · rename_i hflag
        have hflag : p.isFlag = false := Bool.eq_false_iff.mpr hflag
        split at h
        · cases h
          refine ⟨nofun, fun w hw => ?_⟩
          cases hw
          exact ⟨p, hp, rfl, hflag⟩
        · cases h
          exact ⟨List.forall_mem_singleton.mpr ⟨p, hp, rfl, hflag⟩, nofun⟩

theorem fits_of_readOption {word : Text} (h : readOption ps word = .ok (options, waiting)) :
    (∀ o ∈ options, o.Fits ps) ∧ ∀ w ∈ waiting, w.Fits ps := by
  rw [readOption] at h
  obtain ⟨name, value⟩ := cutAtEquals word
  simp only at h
  split at h
  · rename_i p hfind
    have hp : p ∈ ps := List.mem_of_find?_eq_some hfind
    split at h
    · rename_i hflag
      split at h
      · cases h
      · cases h
        exact ⟨List.forall_mem_singleton.mpr ⟨p, hp, rfl, hflag⟩, nofun⟩
    · rename_i hflag
      have hflag : p.isFlag = false := Bool.eq_false_iff.mpr hflag
      split at h
      · cases h
        exact ⟨List.forall_mem_singleton.mpr ⟨p, hp, rfl, hflag⟩, nofun⟩
      · cases h
        refine ⟨nofun, fun w hw => ?_⟩
        cases hw
        exact ⟨p, hp, rfl, hflag⟩
  · split at h
    · cases h
    · exact fits_of_readLetters h

/-- Only options that the tool has are read. -/
theorem fits_of_readWords {words : List Text} {i : Invocation} (hwaiting : ∀ w ∈ waiting, w.Fits ps)
    (h : readWords ps waiting words = .ok i) : ∀ o ∈ i.options, o.Fits ps := by
  fun_induction readWords ps waiting words generalizing i with
  | case1 =>
    cases h
    exact nofun
  | case2 w => cases h
  | case3 w value rest ih =>
    obtain ⟨j, hrest, h⟩ := Outcome.bind_eq_ok_iff.mp h
    cases h
    obtain ⟨p, hp, hlong, hflag⟩ := hwaiting w rfl
    exact List.forall_mem_cons.mpr ⟨⟨p, hp, hlong, hflag⟩, ih nofun hrest⟩
  | case4 rest =>
    cases h
    exact nofun
  | case5 word rest hdashes hoption ih =>
    obtain ⟨⟨options, waiting⟩, hread, h⟩ := Outcome.bind_eq_ok_iff.mp h
    obtain ⟨j, hrest, h⟩ := Outcome.bind_eq_ok_iff.mp h
    cases h
    obtain ⟨hoptions, hwaiting⟩ := fits_of_readOption hread
    intro o ho
    rcases List.mem_append.mp ho with ho | ho
    · exact hoptions o ho
    · exact ih waiting hwaiting hrest o ho
  | case6 word rest hdashes hoption ih =>
    obtain ⟨j, hrest, h⟩ := Outcome.bind_eq_ok_iff.mp h
    cases h
    have hoptions := ih nofun hrest
    exact hoptions

end Fits

/-! ## Writing -/

/-- An option as one word. -/
def GivenOption.word (o : GivenOption) : Text :=
  '-' :: '-' :: o.long.toList ++ (o.value.map ('=' :: ·)).getD []

/-- Options and arguments as words. -/
def wordsOf (options : List GivenOption) (arguments : List Text) : List Text :=
  options.map GivenOption.word ++ ['-', '-'] :: arguments

/-- Options that their long forms tell apart. -/
structure Distinct (ps : List Parameter) : Prop where
  long_ne_nil : ∀ p ∈ ps, p.long.toList ≠ []
  ne_equals : ∀ p ∈ ps, ∀ c ∈ p.long.toList, c ≠ '='
  find?_eq : ∀ p ∈ ps, (ps.find? fun q => q.longForm == p.longForm) = some p

theorem cutAtEquals_word {o : GivenOption} (h : ∀ c ∈ o.long.toList, c ≠ '=') :
    cutAtEquals o.word = ('-' :: '-' :: o.long.toList, o.value) := by
  have hname : ∀ c ∈ '-' :: '-' :: o.long.toList, decide (c ≠ '=') = true := by
    simpa using h
  rw [cutAtEquals, GivenOption.word,
    List.dropWhile_append_of_pos hname, List.takeWhile_append_of_pos hname]
  cases o.value with
  | none => simp
  | some v => simp

theorem readOption_word {ps : List Parameter} (hps : Distinct ps) {o : GivenOption}
    (ho : o.Fits ps) : readOption ps o.word = .ok ([o], none) := by
  obtain ⟨p, hp, hlong, hflag⟩ := ho
  have hfind := hps.find?_eq p hp
  have hequals := hps.ne_equals p hp
  rw [hlong] at hequals
  rw [Parameter.longForm, hlong] at hfind
  obtain ⟨long, value⟩ := o
  rw [readOption, cutAtEquals_word hequals]
  simp only [hfind, hflag]
  cases value with
  | none => simp [hlong]
  | some v => simp [hlong]

theorem readWords_words {ps : List Parameter} (hps : Distinct ps) {options : List GivenOption}
    (h : ∀ o ∈ options, o.Fits ps) (arguments : List Text) :
    readWords ps none (wordsOf options arguments)
      = .ok { options := options, arguments := arguments } := by
  induction options with
  | nil => rfl
  | cons o options ih =>
    obtain ⟨ho, hrest⟩ := List.forall_mem_cons.mp h
    have hdashes : o.word ≠ ['-', '-'] := by
      obtain ⟨p, hp, hlong, -⟩ := ho
      have hne := hps.long_ne_nil p hp
      rw [hlong] at hne
      intro heq
      rw [GivenOption.word, List.cons_append, List.cons_append] at heq
      simp [hne] at heq
    change readWords ps none (o.word :: wordsOf options arguments) = _
    have hoption : isOptionWord o.word = true := rfl
    rw [readWords, if_neg hdashes, if_pos hoption, readOption_word hps ho]
    change (readWords ps none (wordsOf options arguments)).bind _ = _
    rw [ih hrest]
    rfl

/-! ## Checks -/

theorem forM_eq_ok_iff {ε α : Type} {f : α → Except ε Unit} {l : List α} :
    l.forM f = .ok () ↔ ∀ a ∈ l, f a = .ok () := by
  induction l with
  | nil => exact ⟨fun _ => nofun, fun _ => rfl⟩
  | cons a l ih =>
    rw [List.forall_mem_cons, ← ih]
    change (f a).bind (fun _ => l.forM f) = .ok () ↔ _
    rw [Outcome.bind_eq_ok_iff]
    exact ⟨fun ⟨_, ha, hl⟩ => ⟨ha, hl⟩, fun ⟨ha, hl⟩ => ⟨(), ha, hl⟩⟩

namespace Invocation

variable {d d' : Directory} {ps : List Parameter} {i : Invocation}

/-- An input must be a file that may be read. -/
theorem checkValue_inputFile_iff {citation : String} {t : Text} :
    checkValue d citation .inputFile t = .ok () ↔ ∃ bytes, d.readAt t = .ok bytes := by
  simp only [Directory.readAt_eq_ok_iff]
  rw [checkValue, ValueKind.refused, ValueKind.refusedPath]
  cases d.look t with
  | ok e =>
    cases e with
    | file bytes => cases d.mayRead t <;> simp
    | folder => simp
  | error e => cases e <;> simp

/-- Options that name no file pass their checks in any directory. -/
theorem checkOptions_congr (h : ∀ p ∈ ps,
    p.kind = some .outputFile ∨ p.kind = some .inputFile → i.value? p.long = none) :
    i.checkOptions d ps = i.checkOptions d' ps := by
  rw [checkOptions, checkOptions]
  congr 1
  funext long
  cases hfind : ps.find? fun p => p.long == long with
  | none => rfl
  | some p =>
    have hp := h p (List.mem_of_find?_eq_some hfind)
    have hlong : p.long = long := by simpa using List.find?_some hfind
    rw [hlong] at hp
    simp only
    cases hkind : p.kind with
    | none => rfl
    | some kind =>
      rw [hkind] at hp
      cases hvalue : i.value? long with
      | none => rfl
      | some t =>
        rw [hvalue] at hp
        cases kind with
        | outputFile => exact absurd (hp (.inl rfl)) nofun
        | inputFile => exact absurd (hp (.inr rfl)) nofun
        | word choices => rfl
        | address => rfl
        | atLeast bound => rfl

end Invocation

namespace Interface

variable {f : Interface} {d d' : Directory} {words : List Text} {i : Invocation}

/-- A command line without a question is carried out if it passes all checks. -/
theorem read_eq_ok_iff (hasks : i.question? = none) :
    f.read d words = .ok i ↔ f.readWords words = .ok i ∧ i.checkOptions d f.parameters = .ok ()
      ∧ i.checkArguments d f = .ok () ∧ i.checkRequired f.parameters = .ok ()
      ∧ i.checkExtra f = .ok () := by
  constructor
  · intro h
    obtain ⟨j, hwords, h⟩ := Outcome.bind_eq_ok_iff.mp h
    split at h
    · rename_i hquestion
      cases h
      rw [hasks] at hquestion
      cases hquestion
    · obtain ⟨⟨⟩, hoptions, h⟩ := Outcome.bind_eq_ok_iff.mp h
      obtain ⟨⟨⟩, harguments, h⟩ := Outcome.bind_eq_ok_iff.mp h
      obtain ⟨⟨⟩, hrequired, h⟩ := Outcome.bind_eq_ok_iff.mp h
      obtain ⟨⟨⟩, hextra, h⟩ := Outcome.bind_eq_ok_iff.mp h
      cases h
      refine ⟨?_, hoptions, harguments, hrequired, hextra⟩
      cases hread : f.readWords words with
      | error e =>
        rw [hread] at hwords
        cases hwords
      | ok k =>
        rw [hread] at hwords
        cases hwords
        rfl
  · rintro ⟨hwords, hoptions, harguments, hrequired, hextra⟩
    rw [read, hwords]
    change (if i.question?.isSome = true then Except.ok i else _) = _
    rw [hasks, if_neg (by simp), hoptions, harguments, hrequired, hextra]
    rfl

/-- An argument of a command line that was read is a file that may be read. -/
theorem isFile_of_read (hmany : f.many = true) (hasks : i.question? = none)
    (hread : f.read d words = .ok i) :
    ∀ t ∈ i.arguments, ∃ bytes, d.readAt t = .ok bytes := by
  obtain ⟨-, -, harguments, -⟩ := (read_eq_ok_iff hasks).mp hread
  rw [Invocation.checkArguments, hmany] at harguments
  simp only [if_true] at harguments
  split at harguments
  · cases harguments
  · intro t ht
    exact Invocation.checkValue_inputFile_iff.mp (forM_eq_ok_iff.mp harguments t ht)

/-- The options of a command line with one argument that is a file. -/
theorem read_wordsOf (hdistinct : Distinct (f.parameters ++ Question.all.map Question.parameter))
    (hmany : f.many = true) (hasks : i.question? = none) (hread : f.read d words = .ok i)
    (hoptions : i.checkOptions d' f.parameters = i.checkOptions d f.parameters) {t : Text}
    {bytes : List UInt8} (hfile : d'.readAt t = .ok bytes) :
    f.read d' (wordsOf i.options [t]) = .ok { i with arguments := [t] } := by
  obtain ⟨hwords, hchecked, -, hrequired, -⟩ := (read_eq_ok_iff hasks).mp hread
  refine (read_eq_ok_iff (i := { i with arguments := [t] }) hasks).mpr ⟨?_, ?_, ?_, hrequired, ?_⟩
  · exact readWords_words hdistinct (fits_of_readWords (by exact nofun) hwords) [t]
  · exact hoptions.trans hchecked
  · have hvalue : Invocation.checkValue d' f.citation .inputFile t = .ok () :=
      Invocation.checkValue_inputFile_iff.mpr ⟨bytes, hfile⟩
    rw [Invocation.checkArguments, hmany]
    exact forM_eq_ok_iff.mpr (List.forall_mem_singleton.mpr hvalue)
  · rw [Invocation.checkExtra, hmany]
    rfl

end Interface

end Command

end Cross6502
