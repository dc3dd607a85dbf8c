import Cross6502.Link.Merge
import Cross6502.Proofs.Assembly.Produced

/-!
# Where symbols come from

What a line is to define is read off it once (`Line.definition?`).  In the first pass it is
at most one symbol that the line asks for (`Definitions.wanted`): a label for the address of
the next byte, a declaration for the next cell.  What becomes of it is one
of a few things, whether the pass goes well or not, and `Definitions.Treated` lists them.
Every symbol of a table was therefore asked for by the line that it cites, in the state the
pass had in front of that line (`Definitions.exists_wanted_of_run`), and whatever is to be
known about symbols can be read off the lines.

The kind of a symbol is read off here.  A name before an equals sign is a variable, any
other name in column zero is a label; but a declaration that stops behind its equals signs
makes a label of its cell (`Assembly.kind_follows_declaration_iff`,
`Assembly.bare_declaration_is_label`).
-/

namespace Cross6502

/-! ## Declarations -/

namespace Line

/-- A declaration that stops behind its equals signs. -/
def IsBare (rest : Text) : Prop := rest ≠ [] ∧ ∀ c ∈ rest, c = '='

theorem tight_of_splitLabel {t rest : Text} {label : Option Text}
    (h : splitLabel t = (label, rest)) : Text.Tight rest := by
  rw [splitLabel.eq_def] at h
  split at h
  · cases h
    exact Text.tight_of_forall fun c hc => absurd hc List.not_mem_nil
  · split at h
    · cases h
      exact Text.tight_trim _
    · simp only at h
      split at h
      · cases h
        exact Text.tight_trim _
      · split at h <;> (cases h; exact Text.tight_trim _)

theorem declaration_iff {t name : Text} {value : Option Text} :
    ofClean t = .declaration name value ↔
      ∃ rest, splitLabel t = (some name, rest) ∧ hasEquals rest = true
        ∧ value = initialValue rest := by
  rw [ofClean]
  constructor
  · intro h
    split at h
    · cases h
    · split at h
      · rename_i name' rest hsplit
        split at h
        · rename_i hequals
          cases h
          exact ⟨rest, hsplit, hequals, rfl⟩
        · cases h
      · cases h
  · rintro ⟨rest, hsplit, hequals, rfl⟩
    have hfull : (Text.trim t).isEmpty = false := by
      obtain ⟨c, u, rfl, halnum, -⟩ := of_splitLabel hsplit
      rw [List.isEmpty_eq_false_iff]
      exact List.ne_nil_of_mem
        (Text.mem_trim_of_mem (Text.isBlank_of_isAlphanumeric halnum) List.mem_cons_self)
    simp only [hfull, Bool.false_eq_true, if_false, hsplit, hequals, if_true]

/-- A declaration has an initial value unless nothing follows its equals signs. -/
theorem initialValue_eq_none_iff {rest : Text} (htight : Text.Tight rest) :
    initialValue rest = none ↔ ∀ c ∈ rest, c = '=' := by
  have hdropped : rest.dropWhile (fun c => c = '=') = [] ↔ ∀ c ∈ rest, c = '=' := by
    simp [List.dropWhile_eq_nil_iff]
  rw [← hdropped, initialValue]
  constructor
  · intro h
    by_contra hne
    -- what is left ends like the whole, and so with no blank
    obtain ⟨front, hfront⟩ := List.dropWhile_suffix (l := rest) (fun c => c = '=')
    have hlast : List.getLast _ hne ∈ rest.getLast? := by
      have hsame := List.getLast?_append_of_ne_nil front hne
      rw [hfront] at hsame
      rw [hsame]
      exact List.getLast_mem_getLast? hne
    have hmem := Text.mem_trim_of_mem (htight.2 _ hlast) (List.getLast_mem hne)
    split at h
    · rename_i hnil
      rw [hnil] at hmem
      cases hmem
    · cases h
  · intro h
    rw [h]
    rfl

/-- The text behind a declared name is not empty. -/
theorem ne_nil_of_hasEquals {rest : Text} (h : hasEquals rest = true) : rest ≠ [] := by
  rintro rfl
  cases h

theorem hasEquals_of_isBare {rest : Text} (h : IsBare rest) : hasEquals rest = true := by
  obtain ⟨c, hc⟩ := List.exists_mem_of_ne_nil rest h.1
  rw [hasEquals, List.contains_iff_mem, ← h.2 c hc]
  exact hc

/-- What a line is to define: a variable, with what is written for its initial value, or a
label. -/
inductive Definition where
  | declared (name : Text) (value : Option Text)
  | label (name : Text)
  deriving DecidableEq

namespace Definition

/-- The name that is defined. -/
def name : Definition → Text
  | .declared name _ => name
  | .label name => name

/-- The name is declared. -/
def isDeclared : Definition → Bool
  | .declared _ _ => true
  | .label _ => false

end Definition

/-- What a line is to define, if anything. -/
def definition? : Line → Option Definition
  | .declaration name value => some (.declared name value)
  | .statement (some name) _ => some (.label name)
  | _ => none

/-- The line declares a variable. -/
def isDeclaration (line : Line) : Bool := line.definition?.any Definition.isDeclared

theorem isDeclaration_of_definition? {line : Line} {p : Definition}
    (h : line.definition? = some p) : line.isDeclaration = p.isDeclared := by
  rw [isDeclaration, h]
  rfl

end Line

/-! ## What a line asks for, and what it gets -/

namespace Definitions

/-- The symbol of a definition where the first pass is. -/
def symbolOf (d : Definitions) (number : Nat) : Line.Definition → Symbol
  | .declared name value => declared name value d.nextCell number
  | .label name => .ofLabel name d.here number

@[simp] theorem name_symbolOf (d : Definitions) (number : Nat) (p : Line.Definition) :
    (d.symbolOf number p).name = p.name := by
  cases p with
  | declared name value => cases value <;> rfl
  | label name => rfl

@[simp] theorem line_symbolOf (d : Definitions) (number : Nat) (p : Line.Definition) :
    (d.symbolOf number p).line = number := by
  cases p with
  | declared name value => cases value <;> rfl
  | label name => rfl

/-- The symbol that a line asks for where the first pass is. -/
def wanted (d : Definitions) (number : Nat) (line : Line) : Option Symbol :=
  line.definition?.map (d.symbolOf number)

theorem line_of_wanted {d : Definitions} {number : Nat} {line : Line} {u : Symbol}
    (h : d.wanted number line = some u) : u.line = number := by
  obtain ⟨p, -, rfl⟩ := Option.map_eq_some_iff.mp h
  exact line_symbolOf d number p

/-- The report has as many errors as make an end to a pass. -/
def CutOff (d : Definitions) : Prop :=
  d.report.hasErrors = true ∧ d.report.maxErrors ≤ d.report.errorCount

/-- The error on a line that defines a name again. -/
def repeatError (d : Definitions) (number : Int) (raw : Text) (first : Symbol) : SourceError where
  cause := .duplicateSymbol first.name (some { file := d.symbols.file, line := first.line })
  location := some { file := d.report.file, line := number }
  sourceLine := some (Text.trimRight raw)

/-- The note behind it. -/
def repeatNote (d : Definitions) (first : Symbol) : Record :=
  .note { file := d.report.file, line := first.line }
    ("previous definition of '" ++ String.ofList first.name ++ "' is here")

/-- What a line does to the names and the report of the first pass. -/
inductive Treated (s : Settings) (d : Definitions) (number : Nat) (raw : Text) (line : Line)
    (d' : Definitions) : Prop
  /-- It asks for no symbol. -/
  | nothing (hwanted : d.wanted number line = none) (hsymbols : d'.symbols = d.symbols)
      (hcell : d'.nextCell = d.nextCell) (hreport : d'.report = d.report.atLine number)
  /-- It is a declaration, and there is no cell left. -/
  | refused (hline : line.isDeclaration = true) (hfull : s.variableLimit < d.nextCell)
      (hsymbols : d'.symbols = d.symbols) (hcell : d'.nextCell = d.nextCell)
      (hreport : d'.report = (d.report.atLine number).push (.error
        { cause := .reading .variablesExhausted
          location := some { file := d.report.file, line := number }
          sourceLine := some (Text.trimRight raw) }))
  /-- It gets its symbol. -/
  | added {u : Symbol} (hwanted : d.wanted number line = some u)
      (hroom : line.isDeclaration = true → d.nextCell ≤ s.variableLimit)
      (hadd : d.symbols.insert u = .ok d'.symbols)
      (hcell : d'.nextCell = d.nextCell + if line.isDeclaration then 1 else 0)
      (hreport : d'.report = d.report.atLine number)
  /-- Its name is taken. -/
  | repeated {u first : Symbol} (hwanted : d.wanted number line = some u)
      (hroom : line.isDeclaration = true → d.nextCell ≤ s.variableLimit)
      (hfind : d.symbols.find? u.name = some first)
      (hsymbols : d'.symbols = d.symbols) (hcell : d'.nextCell = d.nextCell)
      (hreport : d'.report = ((d.report.atLine number).push
        (.error (d.repeatError number raw first))).push (d.repeatNote first))
  /-- An error on it is the last that is reported. -/
  | cut (hcut : d'.CutOff) (hsymbols : d'.symbols = d.symbols) (hcell : d'.nextCell = d.nextCell)
      (hreport : ∃ e, d'.report = (d.report.atLine number).push (.error e))

section Step

variable {s : Settings} {d d' : Definitions} {number : Nat} {raw : Text} {stop : Option Failure}

/-- An error without a place is recorded at the current line, and the pass goes on if there
may be more. -/
theorem complain_cases {e : SourceError} (hplace : e.location = none)
    (h : d.complain e raw = (d', stop)) :
    d'.symbols = d.symbols ∧ d'.nextCell = d.nextCell
      ∧ d'.report = d.report.push
        (.error (e.located (some d.report.location) (some (Text.trimRight raw))))
      ∧ (stop = none ∨ d'.CutOff) := by
  rw [complain, Report.error, Report.place, hplace] at h
  cases h
  refine ⟨rfl, rfl, rfl, ?_⟩
  by_cases hlimit : d.report.maxErrors ≤ (d.report.push
      (.error (e.located (some d.report.location) (some (Text.trimRight raw))))).errorCount
  · refine .inr ⟨?_, hlimit⟩
    rw [Report.hasErrors_push, Record.isError, Bool.or_true]
  · refine .inl ?_
    rw [if_neg]
    · rfl
    · exact hlimit

/-- A symbol is entered, or its name is taken.  That is reported with a note, unless the error
is the last. -/
theorem define_cases {u : Symbol} {added : Bool} (h : d.define u raw = (d', added, stop)) :
    d'.nextCell = d.nextCell
      ∧ (added = true ∧ d.symbols.insert u = .ok d'.symbols ∧ d'.report = d.report
        ∨ added = false ∧ d'.symbols = d.symbols ∧ ∃ first, d.symbols.find? u.name = some first
          ∧ (d'.report = (d.report.push (.error (d.repeatError d.report.line raw first))).push
                (d.repeatNote first)
            ∨ d'.CutOff
              ∧ d'.report = d.report.push (.error (d.repeatError d.report.line raw first)))) := by
  rw [define] at h
  split at h
  · rename_i table hadd
    cases h
    exact ⟨rfl, .inl ⟨rfl, hadd, rfl⟩⟩
  · rename_i e hadd
    obtain ⟨first, hfind, rfl⟩ : ∃ first, d.symbols.find? u.name = some first
        ∧ d.symbols.duplicate first = e := by
      rw [SymbolTable.insert] at hadd
      split at hadd
      · rename_i first hfind
        exact ⟨first, hfind, Except.error.inj hadd⟩
      · cases hadd
    have hname : first.name = u.name := by simpa using List.find?_some hfind
    split at h
    · rename_i d₁ stop₁ hcomplain
      cases h
      obtain ⟨hsymbols, hcell, hreport, hstop | hcut⟩ := complain_cases rfl hcomplain
      · cases hstop
      · exact ⟨hcell, .inr ⟨rfl, hsymbols, first, hfind, .inr ⟨hcut, hreport⟩⟩⟩
    · rename_i d₁ hcomplain
      cases h
      obtain ⟨hsymbols, hcell, hreport, -⟩ := complain_cases rfl hcomplain
      refine ⟨hcell, .inr ⟨rfl, hsymbols, first, hfind, .inl ?_⟩⟩
      change d₁.report.note _ first.line = _
      rw [hreport, ← hname]
      rfl

/-- What becomes of the symbol that a line asks for.  The state may be changed further in what
does not concern the names, and a cell counted as taken. -/
theorem treated_of_define {line : Line} {u : Symbol} {added : Bool} {d₁ : Definitions}
    (hwanted : d.wanted number line = some u)
    (hroom : line.isDeclaration = true → d.nextCell ≤ s.variableLimit)
    (hdefine : define { d with report := d.report.atLine number } u raw = (d₁, added, stop))
    (hsymbols : d'.symbols = d₁.symbols) (hreport : d'.report = d₁.report)
    (hcell : d'.nextCell = d₁.nextCell + if added && line.isDeclaration then 1 else 0) :
    Treated s d number raw line d' := by
  obtain ⟨hkept, ⟨rfl, hadd, hsame⟩ | ⟨rfl, htable, first, hfind, hnoted⟩⟩ := define_cases hdefine
  · rw [hkept, Bool.true_and] at hcell
    exact .added hwanted hroom (hsymbols ▸ hadd) hcell (hreport.trans hsame)
  · have hcell : d'.nextCell = d.nextCell := by simpa [hkept] using hcell
    rcases hnoted with hnoted | ⟨hcut, hnoted⟩
    · exact .repeated hwanted hroom hfind (hsymbols.trans htable) hcell (hreport.trans hnoted)
    · refine .cut ?_ (hsymbols.trans htable) hcell ⟨_, hreport.trans hnoted⟩
      rw [CutOff, hreport]
      exact hcut

theorem treated_of_declare {name : Text} {value : Option Text}
    (h : declare s { d with report := d.report.atLine number } number raw name value = (d', stop)) :
    Treated s d number raw (.declaration name value) d' := by
  rw [declare] at h
  split at h
  · rename_i hfull
    obtain ⟨hsymbols, hcell, hreport, -⟩ := complain_cases rfl h
    exact .refused rfl hfull hsymbols hcell hreport
  · rename_i hroom
    split at h
    · rename_i d₁ stop₁ hdefine
      cases h
      exact treated_of_define rfl (fun _ => Int.not_lt.mp hroom) hdefine rfl rfl rfl
    · rename_i d₁ stop₁ hdefine
      cases h
      exact treated_of_define rfl (fun _ => Int.not_lt.mp hroom) hdefine rfl rfl
        (Int.add_zero _).symm

theorem reserve_cases {body : Text} (h : d.reserve body = (d', stop)) :
    d'.symbols = d.symbols ∧ d'.report = d.report ∧ d'.nextCell = d.nextCell := by
  rw [reserve] at h
  split at h <;> (cases h; exact ⟨rfl, rfl, rfl⟩)

theorem treated_of_step (h : step s d number raw = (d', stop)) :
    Treated s d number raw (Line.ofClean (Line.clean raw)) d' := by
  rw [step] at h
  cases hline : Line.ofClean (Line.clean raw) with
  | blank =>
    rw [hline] at h
    cases h
    exact .nothing rfl rfl rfl rfl
  | declaration name value =>
    rw [hline] at h
    exact treated_of_declare h
  | statement label body =>
    rw [hline] at h
    cases label with
    | none =>
      obtain ⟨hsymbols, hreport, hcell⟩ := reserve_cases h
      exact .nothing rfl hsymbols hcell hreport
    | some name =>
      simp only [mark] at h
      cases hdefine : define { d with report := d.report.atLine number }
          (.ofLabel name d.here number) raw with
      | mk d₁ flags =>
        have hnone : (Line.statement (some name) body).isDeclaration = true →
            d.nextCell ≤ s.variableLimit := fun hdecl => absurd hdecl Bool.false_ne_true
        rw [show here { d with report := d.report.atLine number } = d.here from rfl, hdefine] at h
        obtain ⟨added, stop₁⟩ := flags
        have hcell : d₁.nextCell = d₁.nextCell
            + if added && (Line.statement (some name) body).isDeclaration then 1 else 0 := by
          simp [Line.isDeclaration, Line.definition?, Line.Definition.isDeclared]
        cases stop₁ with
        | some e =>
          cases h
          exact treated_of_define rfl hnone hdefine rfl rfl hcell
        | none =>
          obtain ⟨hsymbols, hreport, hkept⟩ := reserve_cases h
          exact treated_of_define rfl hnone hdefine hsymbols hreport (hkept.trans hcell)

/-- A line adds the symbol that it asks for, or none. -/
theorem Treated.mem_symbols {line : Line} (h : Treated s d number raw line d') {u : Symbol}
    (hu : u ∈ d'.symbols.symbols) : u ∈ d.symbols.symbols ∨ d.wanted number line = some u := by
  cases h with
  | nothing _ hsymbols => exact .inl (hsymbols ▸ hu)
  | refused _ _ hsymbols => exact .inl (hsymbols ▸ hu)
  | added hwanted _ hadd =>
    rcases (SymbolTable.mem_symbols_of_insert hadd).mp hu with rfl | hu
    · exact .inr hwanted
    · exact .inl hu
  | repeated _ _ _ hsymbols => exact .inl (hsymbols ▸ hu)
  | cut _ hsymbols => exact .inl (hsymbols ▸ hu)

end Step

section Walk

variable {s : Settings}

/-- Every symbol that a walk adds was asked for by one of its lines. -/
theorem exists_wanted_of_walk {number : Nat} {lines : List Text} {d d' : Definitions}
    {stop : Option Failure} (h : walkLines (step s) number lines d = (d', stop)) {u : Symbol}
    (hu : u ∈ d'.symbols.symbols) :
    u ∈ d.symbols.symbols ∨ ∃ k raw, lines[k]? = some raw
      ∧ (walkLines (step s) number (lines.take k) d).1.wanted (number + k)
          (Line.ofClean (Line.clean raw)) = some u := by
  induction lines generalizing number d with
  | nil =>
    cases h
    exact .inl hu
  | cons raw rest ih =>
    have hback : ∀ d₁ stop₁, step s d number raw = (d₁, stop₁) → u ∈ d₁.symbols.symbols →
        u ∈ d.symbols.symbols ∨ ∃ k raw', (raw :: rest)[k]? = some raw'
          ∧ (walkLines (step s) number ((raw :: rest).take k) d).1.wanted (number + k)
              (Line.ofClean (Line.clean raw')) = some u := by
      intro d₁ stop₁ hstep hu
      exact ((treated_of_step hstep).mem_symbols hu).imp_right fun hwanted => ⟨0, raw, rfl, hwanted⟩
    rw [walkLines] at h
    split at h
    · rename_i d₁ hstep
      rcases ih h with hu | ⟨k, raw', hget, hwanted⟩
      · exact hback d₁ none hstep hu
      · refine .inr ⟨k + 1, raw', hget, ?_⟩
        rw [List.take_succ_cons, walkLines, hstep, ← Nat.add_assoc, Nat.add_right_comm]
        exact hwanted
    · rename_i hstep
      cases h
      exact hback _ _ hstep hu

/-- Every symbol of the first pass was asked for by the line that it cites. -/
theorem exists_wanted_of_run {file : String} {lines : List Text} {d : Definitions}
    {stop : Option Failure} (h : run s file lines = (d, stop)) {u : Symbol}
    (hu : u ∈ d.symbols.symbols) :
    ∃ (k : Nat) (raw : Text), lines[k]? = some raw ∧ u.line = k + 1
      ∧ (run s file (lines.take k)).1.wanted (k + 1) (Line.ofClean (Line.clean raw))
        = some u := by
  rcases exists_wanted_of_walk h hu with hu | ⟨k, raw, hget, hwanted⟩
  · cases hu
  · rw [Nat.add_comm] at hwanted
    exact ⟨k, raw, hget, line_of_wanted hwanted, hwanted⟩

end Walk

end Definitions

/-! ## Kinds -/

namespace Assembly

/-- The text behind a name on the line that it is defined on. -/
def DefinedBy (source : Text) (u : Symbol) (rest : Text) : Prop :=
  ∃ (k : Nat) (raw : Text), (Text.lines source)[k]? = some raw ∧ u.line = k + 1
    ∧ Line.splitLabel (Line.clean raw) = (some u.name, rest)

theorem DefinedBy.unique {source rest rest' : Text} {u : Symbol} (h : DefinedBy source u rest)
    (h' : DefinedBy source u rest') : rest = rest' := by
  obtain ⟨k, raw, hraw, hline, hsplit⟩ := h
  obtain ⟨k', raw', hraw', hline', hsplit'⟩ := h'
  obtain rfl : k = k' := by omega
  rw [hraw] at hraw'
  cases hraw'
  rw [hsplit] at hsplit'
  exact congrArg Prod.snd hsplit'

end Assembly

namespace Definitions

/-- A symbol bears the name in front of the line that asks for it.  It is a variable if there
is an equals sign behind the name, and something else too. -/
theorem of_wanted {d : Definitions} {number : Nat} {t : Text} {u : Symbol}
    (h : d.wanted number (Line.ofClean t) = some u) :
    ∃ rest, Line.splitLabel t = (some u.name, rest)
      ∧ (u.kind = .cell ↔ Line.hasEquals rest = true ∧ ¬ Line.IsBare rest) := by
  cases hline : Line.ofClean t with
  | blank =>
    rw [hline] at h
    cases h
  | declaration name value =>
    rw [hline] at h
    obtain ⟨rest, hsplit, hequals, rfl⟩ := Line.declaration_iff.mp hline
    have hbare := Line.initialValue_eq_none_iff (Line.tight_of_splitLabel hsplit)
    cases h
    cases hvalue : Line.initialValue rest with
    | none =>
      refine ⟨rest, hsplit, ?_⟩
      constructor
      · intro hkind
        cases hkind
      · rintro ⟨-, hnotBare⟩
        exact absurd ⟨Line.ne_nil_of_hasEquals hequals, hbare.mp hvalue⟩ hnotBare
    | some value =>
      refine ⟨rest, hsplit, fun _ => ⟨hequals, fun hfull => ?_⟩, fun _ => rfl⟩
      rw [hbare.mpr hfull.2] at hvalue
      cases hvalue
  | statement label body =>
    rw [hline] at h
    cases label with
    | none => cases h
    | some name =>
      cases h
      have hsplit := Line.splitLabel_of_statement hline
      refine ⟨body, hsplit, ?_⟩
      constructor
      · intro hkind
        cases hkind
      · rintro ⟨hequals, -⟩
        have hdeclaration := Line.declaration_iff.mpr ⟨body, hsplit, hequals, rfl⟩
        rw [hline] at hdeclaration
        cases hdeclaration

end Definitions

namespace Assembly

/-- In an assembly that succeeds, every symbol is defined by the line that it cites, under the
name in front of that line.  An equals sign behind the name tells whether it is a variable, unless
nothing but equals signs stands there.  Such bare declarations are the only ones whose names are
printed for addresses by the disassembler, and the only ones the linker passes over when it looks
for variables that share storage. -/
theorem kind_follows_declaration_iff (s : Settings) (allow : Bool) (file : String) (source : Text)
    (h : (ofSource s allow file source).failure = none) :
    (∀ u ∈ (ofSource s allow file source).symbols.symbols, ∃ rest, DefinedBy source u rest
        ∧ ((u.kind = .cell ↔ Line.hasEquals rest = true) ↔ ¬ Line.IsBare rest))
      ∧ (∀ a name, (ofSource s allow file source).symbols.labelAt? a = some name →
        ∃ u ∈ (ofSource s allow file source).symbols.symbols, u.name = name ∧ u.address = a
          ∧ ∃ rest, DefinedBy source u rest ∧ (Line.hasEquals rest = true → Line.IsBare rest))
      ∧ ∀ u ∈ (ofSource s allow file source).symbols.symbols,
        u ∈ (ofSource s allow file source).symbols.cells
          ↔ ∃ rest, DefinedBy source u rest ∧ Line.hasEquals rest = true ∧ ¬ Line.IsBare rest := by
  obtain ⟨d, m, hrun, -, -, -, hsymbols, -, -⟩ := exists_passes h
  have hdefined : ∀ u ∈ d.symbols.symbols, ∃ rest, DefinedBy source u rest
      ∧ (u.kind = .cell ↔ Line.hasEquals rest = true ∧ ¬ Line.IsBare rest) := by
    intro u hu
    obtain ⟨k, raw, hraw, hline, hwanted⟩ := Definitions.exists_wanted_of_run hrun hu
    obtain ⟨rest, hsplit, hkind⟩ := Definitions.of_wanted hwanted
    exact ⟨rest, ⟨k, raw, hraw, hline, hsplit⟩, hkind⟩
  rw [hsymbols]
  refine ⟨fun u hu => ?_, fun a name hlabel => ?_, fun u hu => ?_⟩
  · obtain ⟨rest, hrest, hkind⟩ := hdefined u hu
    refine ⟨rest, hrest, ?_⟩
    rw [hkind]
    have hequals : Line.IsBare rest → Line.hasEquals rest = true := Line.hasEquals_of_isBare
    tauto
  · obtain ⟨u, hfind, rfl⟩ := Option.map_eq_some_iff.mp hlabel
    have hu := List.mem_of_find?_eq_some hfind
    have hlabelled := List.find?_some hfind
    simp only [Bool.and_eq_true, beq_iff_eq, Symbol.isLabel] at hlabelled
    obtain ⟨rest, hrest, hkind⟩ := hdefined u hu
    refine ⟨u, hu, rfl, hlabelled.1, rest, hrest, fun hequals => ?_⟩
    by_contra hbare
    have hcell := hkind.mpr ⟨hequals, hbare⟩
    rw [hlabelled.2] at hcell
    cases hcell
  · obtain ⟨rest, hrest, hkind⟩ := hdefined u hu
    rw [SymbolTable.cells, List.mem_filter, Symbol.isVariable, beq_iff_eq, hkind]
    constructor
    · rintro ⟨-, hdeclared⟩
      exact ⟨rest, hrest, hdeclared⟩
    · rintro ⟨rest', hrest', hdeclared⟩
      rw [hrest'.unique hrest] at hdeclared
      exact ⟨hu, hdeclared⟩

/-- A variable, a label and a declaration without a value. -/
def threeKinds : Text := "count = 7\nstart: lda count\nspare ==\n".toList

theorem kind_follows_declaration_iff_threeKinds :
    (ofSource {} false "<input>" threeKinds).failure = none
      ∧ (∃ rest, DefinedBy threeKinds (.ofVariable "count".toList 0x200 1 (some "7".toList)) rest
        ∧ Line.hasEquals rest = true ∧ ¬ Line.IsBare rest)
      ∧ ∃ u ∈ (ofSource {} false "<input>" threeKinds).symbols.symbols,
        u.name = "spare".toList ∧ u.address = 0x201
          ∧ ∃ rest, DefinedBy threeKinds u rest
            ∧ (Line.hasEquals rest = true → Line.IsBare rest) := by
  have hsucceeds : (ofSource {} false "<input>" threeKinds).failure = none := by decide
  obtain ⟨-, hlabels, hcells⟩ :=
    kind_follows_declaration_iff {} false "<input>" threeKinds hsucceeds
  exact ⟨hsucceeds, (hcells _ (by decide)).mp (by decide),
    hlabels 0x201 "spare".toList (by decide)⟩

/-- A declaration without a value takes a cell and is a label.  Its name is printed for the
address, and there is no warning about another cell in the same place. -/
theorem bare_declaration_is_label :
    (ofSource {} false "x.s" "x =\n".toList).failure = none
      ∧ (ofSource {} false "x.s" "x =\n".toList).symbols.symbols = [.ofLabel "x".toList 0x200 1]
      ∧ DefinedBy "x =\n".toList (.ofLabel "x".toList 0x200 1) "=".toList
      ∧ Line.hasEquals "=".toList = true
      ∧ (ofSource {} false "x.s" "x =\n".toList).symbols.labelAt? 0x200 = some "x".toList
      ∧ Link.Merged.sharing { table := (ofSource {} false "x.s" "x =\n".toList).symbols } "y.s"
          (.ofLabel "y".toList 0x200 1) = [] := by
  refine ⟨by decide, by decide, ⟨0, "x =".toList, ?_⟩, by decide, ?_⟩
  · decide
  · decide

end Assembly

end Cross6502
