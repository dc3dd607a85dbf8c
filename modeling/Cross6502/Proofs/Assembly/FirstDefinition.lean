import Cross6502.Proofs.Assembly.SymbolOrigin
import Mathlib.Data.List.Induction

/-!
# First definitions

A source may define a name on several lines.  The first of them binds it, and each of the
others is reported: with an error on that line and, directly behind it, a note on the first
one.  Nothing else gives rise to such an error.

Which lines define a name is said in terms of the source alone (`definers`).  A label always
does.  A declaration does if there is a cell left for it, and a cell is taken by every
declaration above that is the first to define its name (`cellsTaken`); those that are refused,
for want of a cell or because their names are taken, leave the cells as they are.  The first
pass keeps to this account line by line (`Definitions.Recounts`), and so it does to the end
unless it is cut off by the limit on errors (`Definitions.first_definition_binds`).
-/

namespace Cross6502

/-! ## Defining lines -/

/-- A line that defines a name. -/
structure Definer where
  number : Nat
  raw : Text
  name : Text
  /-- The line is a declaration, not a label. -/
  declares : Bool
  deriving DecidableEq

/-- The first line that defines a name. -/
def firstOf (ds : List Definer) (name : Text) : Option Definer := ds.find? fun e => e.name == name

/-- The number of declarations that are the first to define their names. -/
def cellsTaken (ds : List Definer) : Nat :=
  ds.countP fun e => e.declares && firstOf ds e.name == some e

/-- The lines that define a name again, each with the first that does. -/
def repeats (ds : List Definer) : List (Definer × Definer) :=
  ds.filterMap fun e => ((firstOf ds e.name).filter (· != e)).map (·, e)

/-- A line as one that defines a name, behind others that do. -/
def definer? (s : Settings) (above : List Definer) (number : Nat) (raw : Text) : Option Definer :=
  match (Line.ofClean (Line.clean raw)).definition? with
  | some p =>
      if p.isDeclared && s.variableLimit < s.variableStart + cellsTaken above then none
      else some ⟨number, raw, p.name, p.isDeclared⟩
  | none => none

/-- The lines of a source that define names. -/
def definers (s : Settings) (lines : List Text) : List Definer :=
  (lines.zipIdx 1).foldl (fun above p => above ++ (definer? s above p.2 p.1).toList) []

theorem definers_concat (s : Settings) (before : List Text) (raw : Text) :
    definers s (before ++ [raw]) = definers s before
      ++ (definer? s (definers s before) (before.length + 1) raw).toList := by
  rw [definers, List.zipIdx_append, List.foldl_append, Nat.add_comm 1]
  rfl

theorem of_definer? {s : Settings} {above : List Definer} {number : Nat} {raw : Text} {e : Definer}
    (h : definer? s above number raw = some e) : e.number = number ∧ e.raw = raw := by
  rw [definer?] at h
  split at h
  · split at h
    · cases h
    · cases h
      exact ⟨rfl, rfl⟩
  · cases h

/-- A defining line stands where its number says. -/
theorem getElem?_of_mem_definers {s : Settings} {lines : List Text} {e : Definer}
    (he : e ∈ definers s lines) : ∃ k, e.number = k + 1 ∧ lines[k]? = some e.raw := by
  induction lines using List.reverseRecOn with
  | nil => cases he
  | append_singleton before raw ih =>
    rw [definers_concat, List.mem_append, Option.mem_toList] at he
    rcases he with he | he
    · obtain ⟨k, hnumber, hraw⟩ := ih he
      exact ⟨k, hnumber, List.getElem?_append_left
        (List.getElem?_eq_some_iff.mp hraw).1 ▸ hraw⟩
    · obtain ⟨hnumber, hraw⟩ := of_definer? he
      exact ⟨before.length, hnumber, by rw [List.getElem?_concat_length, hraw]⟩

section Concat

variable {ds : List Definer} {e : Definer}

theorem firstOf_concat (ds : List Definer) (e : Definer) (name : Text) :
    firstOf (ds ++ [e]) name
      = (firstOf ds name).or (if e.name = name then some e else none) := by
  rw [firstOf, List.find?_append, List.find?_singleton]
  simp [firstOf]

theorem firstOf_concat_of_mem {x : Definer} (hx : x ∈ ds) :
    firstOf (ds ++ [e]) x.name = firstOf ds x.name := by
  have hsome : (firstOf ds x.name).isSome = true := by
    rw [firstOf, List.find?_isSome]
    exact ⟨x, hx, beq_self_eq_true _⟩
  rw [firstOf_concat, Option.or_of_isSome hsome]

theorem ne_of_firstOf (hnew : e ∉ ds) {name : Text} {first : Definer}
    (h : firstOf ds name = some first) : first ≠ e := by
  rintro rfl
  exact hnew (List.mem_of_find?_eq_some h)

/-- One more line takes a cell if it is a declaration and the first to define its name. -/
theorem cellsTaken_concat (hnew : e ∉ ds) :
    cellsTaken (ds ++ [e])
      = cellsTaken ds + if e.declares && (firstOf ds e.name).isNone then 1 else 0 := by
  have hbefore : (ds.countP fun x => x.declares && firstOf (ds ++ [e]) x.name == some x)
      = cellsTaken ds := by
    refine List.countP_congr fun x hx => ?_
    rw [firstOf_concat_of_mem hx]
  -- a line with the same name above is another one, so that the new line is not the first
  have hlast : (firstOf (ds ++ [e]) e.name == some e) = (firstOf ds e.name).isNone := by
    rw [firstOf_concat, if_pos rfl]
    cases hfirst : firstOf ds e.name with
    | none => simp
    | some first => simp [ne_of_firstOf hnew hfirst]
  rw [cellsTaken, List.countP_append, List.countP_singleton, hbefore, hlast]

/-- One more line repeats the first that defines its name, if there is one. -/
theorem repeats_concat (hnew : e ∉ ds) :
    repeats (ds ++ [e]) = repeats ds ++ ((firstOf ds e.name).map (·, e)).toList := by
  have hbefore : (ds.filterMap fun x => ((firstOf (ds ++ [e]) x.name).filter (· != x)).map (·, x))
      = repeats ds := by
    refine List.filterMap_congr fun x hx => ?_
    rw [firstOf_concat_of_mem hx]
  rw [repeats, List.filterMap_append, hbefore]
  cases hfirst : firstOf ds e.name with
  | none => simp [firstOf_concat, hfirst]
  | some first => simp [firstOf_concat, hfirst, ne_of_firstOf hnew hfirst]

end Concat

/-! ## Errors with their notes -/

/-- The record is an error on a name that is defined again. -/
def Record.isRepeat : Record → Bool
  | .error { cause := .duplicateSymbol _ _, .. } => true
  | _ => false

/-- The errors on names that are defined again, each with the record behind it. -/
def followed : List Record → List (Record × Option Record)
  | [] => []
  | r :: rest => if r.isRepeat then (r, rest.head?) :: followed rest else followed rest

/-- What is to be reported on a line that defines a name again: an error there, and a note on
the line that defines it first. -/
def Definer.complaint (file : String) (first later : Definer) : Record × Option Record :=
  (.error
    { cause := .duplicateSymbol later.name (some { file := file, line := first.number })
      location := some { file := file, line := later.number }
      sourceLine := some (Text.trimRight later.raw) },
   some (.note { file := file, line := first.number }
    ("previous definition of '" ++ String.ofList later.name ++ "' is here")))

theorem followed_append {records : List Record}
    (hlast : ∀ r ∈ records.getLast?, r.isRepeat = false) (more : List Record) :
    followed (records ++ more) = followed records ++ followed more := by
  induction records with
  | nil => rfl
  | cons r rest ih =>
    rw [List.cons_append, followed, followed]
    cases rest with
    | nil =>
      rw [hlast r rfl]
      rfl
    | cons r' rest =>
      rw [ih hlast]
      split <;> rfl

namespace Definitions

/-! ## The first pass -/

/-- A first pass behind some lines, as far as it can be told from the lines. -/
structure Recounts (s : Settings) (file : String) (lines : List Text) (d : Definitions) : Prop where
  line : d.report.line = lines.length
  reportFile : d.report.file = file
  tableFile : d.symbols.file = file
  cell : d.nextCell = s.variableStart + cellsTaken (definers s lines)
  bound : ∀ name, (d.symbols.find? name).map Symbol.line
    = (firstOf (definers s lines) name).map fun e => (e.number : Int)
  repeated : followed d.report.records
    = (repeats (definers s lines)).map fun p => p.1.complaint file p.2
  /-- What is reported next does not come directly behind an error of this kind. -/
  last : ∀ r ∈ d.report.records.getLast?, r.isRepeat = false

section Step

variable {s : Settings} {file : String} {before : List Text} {raw : Text} {d d' : Definitions}
  {number : Nat} {line : Line}

theorem not_mem_definers {e : Definer} (he : e.number = before.length + 1) :
    e ∉ definers s before := by
  intro hmem
  obtain ⟨k, hnumber, hraw⟩ := getElem?_of_mem_definers hmem
  have hlt := (List.getElem?_eq_some_iff.mp hraw).1
  omega

/-- The account of one more line, from what it does to the names and from what it adds to the
report. -/
theorem Recounts.concat (h : Recounts s file before d) (more : List Record)
    (hlast : ∀ r ∈ more.getLast?, r.isRepeat = false)
    (hreport : d'.report = { d.report.atLine (before.length + 1 : Nat) with
      records := d.report.records ++ more })
    (hfile : d'.symbols.file = d.symbols.file)
    (hcell : d'.nextCell = s.variableStart + cellsTaken (definers s (before ++ [raw])))
    (hbound : ∀ name, (d'.symbols.find? name).map Symbol.line
      = (firstOf (definers s (before ++ [raw])) name).map fun e => (e.number : Int))
    (hrepeated : (repeats (definers s (before ++ [raw]))).map (fun p => p.1.complaint file p.2)
      = (repeats (definers s before)).map (fun p => p.1.complaint file p.2) ++ followed more) :
    Recounts s file (before ++ [raw]) d' := by
  refine ⟨?_, ?_, hfile.trans h.tableFile, hcell, hbound, ?_, ?_⟩
  · rw [hreport, List.length_append, List.length_singleton]
    rfl
  · rw [hreport]
    exact h.reportFile
  · rw [hreport, hrepeated, ← h.repeated]
    exact followed_append h.last more
  · rw [hreport]
    intro r hr
    rw [List.getLast?_append] at hr
    cases hmore : more.getLast? with
    | none =>
      rw [hmore] at hr
      exact h.last r hr
    | some r' =>
      rw [hmore] at hr
      exact hlast r (hmore ▸ hr)

/-- The account of a line that defines nothing. -/
theorem Recounts.of_none (h : Recounts s file before d)
    (hnone : definer? s (definers s before) (before.length + 1) raw = none)
    (hsymbols : d'.symbols = d.symbols) (hcell : d'.nextCell = d.nextCell) (more : List Record)
    (hlast : ∀ r ∈ more.getLast?, r.isRepeat = false) (hfollowed : followed more = [])
    (hreport : d'.report = { d.report.atLine (before.length + 1 : Nat) with
      records := d.report.records ++ more }) :
    Recounts s file (before ++ [raw]) d' := by
  have hsame : definers s (before ++ [raw]) = definers s before := by
    rw [definers_concat, hnone, Option.toList_none, List.append_nil]
  refine h.concat more hlast hreport (congrArg SymbolTable.file hsymbols) ?_ ?_ ?_
  · rw [hcell, hsame, h.cell]
  · rw [hsymbols, hsame]
    exact h.bound
  · rw [hsame, hfollowed, List.append_nil]

/-- A line that asks for a symbol is a defining line if there is a cell for it, where it needs
one. -/
theorem definers_of_wanted {u : Symbol}
    (hcell : d.nextCell = s.variableStart + cellsTaken (definers s before))
    (hwanted : d.wanted number (Line.ofClean (Line.clean raw)) = some u)
    (hroom : (Line.ofClean (Line.clean raw)).isDeclaration = true →
      d.nextCell ≤ s.variableLimit) :
    definers s (before ++ [raw]) = definers s before
      ++ [⟨before.length + 1, raw, u.name, (Line.ofClean (Line.clean raw)).isDeclaration⟩] := by
  obtain ⟨p, hp, rfl⟩ := Option.map_eq_some_iff.mp hwanted
  rw [Line.isDeclaration_of_definition? hp] at hroom ⊢
  have hfits : (p.isDeclared
      && decide (s.variableLimit < s.variableStart + cellsTaken (definers s before))) = false := by
    rw [Bool.and_eq_false_iff, decide_eq_false_iff_not, ← hcell]
    by_cases hline : p.isDeclared = true
    · exact .inr (Int.not_lt.mpr (hroom hline))
    · exact .inl (Bool.eq_false_iff.mpr hline)
  rw [definers_concat, definer?, hp, name_symbolOf]
  simp only [hfits]
  rfl

theorem Recounts.firstOf_eq_none_iff (h : Recounts s file before d) {name : Text} :
    firstOf (definers s before) name = none ↔ d.symbols.find? name = none := by
  have hbound := congrArg Option.isNone (h.bound name)
  rw [Option.isNone_map, Option.isNone_map] at hbound
  rw [← Option.isNone_iff_eq_none, ← hbound, Option.isNone_iff_eq_none]

/-- The account of a line that is the first to define its name. -/
theorem Recounts.of_added (h : Recounts s file before d) {u : Symbol}
    (hwanted : d.wanted (before.length + 1) (Line.ofClean (Line.clean raw)) = some u)
    (hroom : (Line.ofClean (Line.clean raw)).isDeclaration = true → d.nextCell ≤ s.variableLimit)
    (hadd : d.symbols.insert u = .ok d'.symbols)
    (hcell : d'.nextCell = d.nextCell
      + if (Line.ofClean (Line.clean raw)).isDeclaration then 1 else 0)
    (hreport : d'.report = d.report.atLine (before.length + 1 : Nat)) :
    Recounts s file (before ++ [raw]) d' := by
  have hmore := definers_of_wanted h.cell hwanted hroom
  have hnew : Definer.mk (before.length + 1) raw u.name
      (Line.ofClean (Line.clean raw)).isDeclaration ∉ definers s before := not_mem_definers rfl
  have hfirst := h.firstOf_eq_none_iff.mpr (SymbolTable.find?_eq_none_of_insert hadd)
  refine h.concat [] (fun r hr => absurd hr (Option.not_mem_none r)) ?_
    (SymbolTable.file_of_insert hadd) ?_ ?_ ?_
  · rw [hreport, List.append_nil]
    rfl
  · rw [hmore, cellsTaken_concat hnew, hfirst, hcell, h.cell, Option.isNone_none, Bool.and_true]
    split <;> omega
  · intro name
    rw [hmore, firstOf_concat, SymbolTable.find?_of_insert hadd]
    split
    · rename_i hname
      rw [← hname, hfirst, Option.none_or, Option.map_some, Option.map_some, line_of_wanted hwanted]
    · rw [Option.or_none, h.bound]
  · rw [hmore, repeats_concat hnew, hfirst]
    simp [followed]

/-- The account of a line that defines a name again. -/
theorem Recounts.of_repeated (h : Recounts s file before d) {u first : Symbol}
    (hwanted : d.wanted (before.length + 1) (Line.ofClean (Line.clean raw)) = some u)
    (hroom : (Line.ofClean (Line.clean raw)).isDeclaration = true → d.nextCell ≤ s.variableLimit)
    (hfind : d.symbols.find? u.name = some first)
    (hsymbols : d'.symbols = d.symbols) (hcell : d'.nextCell = d.nextCell)
    (hreport : d'.report = ((d.report.atLine (before.length + 1 : Nat)).push
      (.error (d.repeatError (before.length + 1 : Nat) raw first))).push (d.repeatNote first)) :
    Recounts s file (before ++ [raw]) d' := by
  have hmore := definers_of_wanted h.cell hwanted hroom
  have hnew : Definer.mk (before.length + 1) raw u.name
      (Line.ofClean (Line.clean raw)).isDeclaration ∉ definers s before := not_mem_definers rfl
  have hname : first.name = u.name := by simpa using List.find?_some hfind
  obtain ⟨e, hfirst, hnumber⟩ : ∃ e, firstOf (definers s before) u.name = some e
      ∧ (e.number : Int) = first.line := by
    have hbound := h.bound u.name
    rw [hfind, Option.map_some] at hbound
    exact Option.map_eq_some_iff.mp hbound.symm
  refine h.concat [.error (d.repeatError (before.length + 1 : Nat) raw first), d.repeatNote first]
    ?_ ?_ (congrArg SymbolTable.file hsymbols) ?_ ?_ ?_
  · rintro r hr
    cases hr
    rfl
  · rw [hreport]
    simp [Report.push, Report.atLine]
  · rw [hmore, cellsTaken_concat hnew, hfirst, hcell, h.cell]
    simp
  · intro name
    rw [hmore, firstOf_concat, hsymbols, h.bound]
    split
    · rename_i hsame
      rw [← hsame, hfirst, Option.some_or]
    · rw [Option.or_none]
  · rw [hmore, repeats_concat hnew, hfirst, List.map_append]
    simp [followed, Record.isRepeat, repeatError, repeatNote, Definer.complaint, hnumber, hname,
      h.tableFile, h.reportFile]

/-- A line keeps the account, unless the pass is cut off on it. -/
theorem Recounts.of_treated (h : Recounts s file before d)
    (htreated : Treated s d (before.length + 1) raw (Line.ofClean (Line.clean raw)) d')
    (hcut : ¬ d'.CutOff) : Recounts s file (before ++ [raw]) d' := by
  cases htreated with
  | nothing hwanted hsymbols hcell hreport =>
    have hnone : definer? s (definers s before) (before.length + 1) raw = none := by
      rw [definer?, Option.map_eq_none_iff.mp hwanted]
    refine h.of_none hnone hsymbols hcell [] (fun r hr => absurd hr (Option.not_mem_none r))
      rfl ?_
    rw [hreport, List.append_nil]
    rfl
  | refused hline hfull hsymbols hcell hreport =>
    have hnone : definer? s (definers s before) (before.length + 1) raw = none := by
      rw [h.cell] at hfull
      obtain ⟨p, hp, hdeclared⟩ := (Option.any_eq_true _ _).mp hline
      rw [definer?, hp]
      simp [hdeclared, hfull]
    refine h.of_none hnone hsymbols hcell [_] ?_ ?_ hreport
    · rintro r hr
      cases hr
      rfl
    · rfl
  | added hwanted hroom hadd hcell hreport => exact h.of_added hwanted hroom hadd hcell hreport
  | repeated hwanted hroom hfind hsymbols hcell hreport =>
    exact h.of_repeated hwanted hroom hfind hsymbols hcell hreport
  | cut hlimit => exact absurd hlimit hcut

end Step

section Run

variable {s : Settings} {file : String} {lines : List Text} {d d' : Definitions} {number : Nat}
  {stop : Option Failure}

/-- A report only grows, and its limit stays. -/
theorem Treated.report_extends {raw : Text} {line : Line} (h : Treated s d number raw line d') :
    d.report.records <+: d'.report.records ∧ d'.report.maxErrors = d.report.maxErrors := by
  cases h with
  | nothing _ _ _ hreport =>
    rw [hreport]
    exact ⟨List.prefix_rfl, rfl⟩
  | refused _ _ _ _ hreport =>
    rw [hreport]
    exact ⟨List.prefix_append _ _, rfl⟩
  | added _ _ _ _ hreport =>
    rw [hreport]
    exact ⟨List.prefix_rfl, rfl⟩
  | repeated _ _ _ _ _ hreport =>
    rw [hreport]
    exact ⟨(List.prefix_append _ _).trans (List.prefix_append _ _), rfl⟩
  | cut _ _ _ hreport =>
    obtain ⟨e, hreport⟩ := hreport
    rw [hreport]
    exact ⟨List.prefix_append _ _, rfl⟩

theorem CutOff.of_treated {raw : Text} {line : Line} (h : d.CutOff)
    (htreated : Treated s d number raw line d') : d'.CutOff := by
  obtain ⟨hrecords, hmax⟩ := htreated.report_extends
  refine ⟨?_, ?_⟩
  · obtain ⟨r, hr, herror⟩ := List.any_eq_true.mp h.1
    exact List.any_eq_true.mpr ⟨r, hrecords.subset hr, herror⟩
  · rw [hmax]
    exact Int.le_trans h.2 (Int.ofNat_le.mpr hrecords.sublist.countP_le)

/-- A pass that was cut off stays so. -/
theorem CutOff.of_walk (hcut : d.CutOff) (h : walkLines (step s) number lines d = (d', stop)) :
    d'.CutOff := by
  induction lines generalizing number d with
  | nil =>
    cases h
    exact hcut
  | cons raw rest ih =>
    rw [walkLines] at h
    split at h
    · rename_i d₁ hfirst
      exact ih (hcut.of_treated (treated_of_step hfirst)) h
    · rename_i hfirst
      cases h
      exact hcut.of_treated (treated_of_step hfirst)

/-- A pass that is not cut off keeps the account as far as it gets. -/
theorem Recounts.of_walk {before : List Text} (hrecounts : Recounts s file before d)
    (h : walkLines (step s) (before.length + 1) lines d = (d', stop)) (hcut : ¬ d'.CutOff) :
    ∃ n ≤ lines.length, (stop = none → n = lines.length)
      ∧ Recounts s file (before ++ lines.take n) d' := by
  induction lines generalizing before d with
  | nil =>
    cases h
    exact ⟨0, Nat.le_refl 0, fun _ => rfl, by rwa [List.take_nil, List.append_nil]⟩
  | cons raw rest ih =>
    rw [walkLines] at h
    split at h
    · rename_i d₁ hfirst
      have hcut₁ : ¬ d₁.CutOff := fun hcut₁ => hcut (hcut₁.of_walk h)
      have hrecounts₁ := hrecounts.of_treated (treated_of_step hfirst) hcut₁
      have hlength : (before ++ [raw]).length + 1 = before.length + 1 + 1 := by simp
      obtain ⟨n, hn, hstop, hrest⟩ := ih hrecounts₁ (hlength ▸ h)
      refine ⟨n + 1, Nat.succ_le_succ hn, fun hnone => congrArg (· + 1) (hstop hnone), ?_⟩
      rw [List.take_succ_cons, ← List.singleton_append, ← List.append_assoc]
      exact hrest
    · rename_i hfirst
      cases h
      refine ⟨1, Nat.succ_le_succ (Nat.zero_le _),
        fun hnone => absurd hnone (Option.some_ne_none _), ?_⟩
      exact hrecounts.of_treated (treated_of_step hfirst) hcut

end Run

/-- In a first pass that is not cut off by the limit on errors, every name is bound by the first
of the lines passed over that define it, to the symbol that this line asks for.  The report has
one error for each of the other lines that define a name, in their order: it is located at that
line and a note on the first follows it directly.  There are no other errors of this kind. -/
theorem first_definition_binds (s : Settings) (file : String) (lines : List Text)
    (d : Definitions) (stop : Option Failure) (h : run s file lines = (d, stop))
    (hcut : ¬ (d.report.hasErrors = true ∧ d.report.maxErrors ≤ d.report.errorCount)) :
    ∃ n ≤ lines.length, (stop = none → n = lines.length) ∧ d.report.line = n
      ∧ (∀ name, firstOf (definers s (lines.take n)) name = none → d.symbols.find? name = none)
      ∧ (∀ name first, firstOf (definers s (lines.take n)) name = some first →
        ∃ u, d.symbols.find? name = some u ∧ u.line = first.number
          ∧ (run s file (lines.take (first.number - 1))).1.wanted first.number
              (Line.ofClean (Line.clean first.raw)) = some u)
      ∧ followed d.report.records
        = (repeats (definers s (lines.take n))).map fun p => p.1.complaint file p.2 := by
  have hstart : Recounts s file [] (start s file) :=
    ⟨rfl, rfl, rfl, (Int.add_zero _).symm, fun name => rfl, rfl,
      fun r hr => absurd hr (Option.not_mem_none r)⟩
  obtain ⟨n, hn, hstop, hrecounts⟩ := hstart.of_walk h hcut
  rw [List.nil_append] at hrecounts
  refine ⟨n, hn, hstop, ?_, fun name => hrecounts.firstOf_eq_none_iff.mp, ?_, hrecounts.repeated⟩
  · rw [hrecounts.line, List.length_take_of_le hn]
  · intro name first hfirst
    have hbound := hrecounts.bound name
    rw [hfirst, Option.map_some, Option.map_eq_some_iff] at hbound
    obtain ⟨u, hfind, hline⟩ := hbound
    obtain ⟨k, raw, hraw, hcited, hwanted⟩ :=
      exists_wanted_of_run h (List.mem_of_find?_eq_some hfind)
    obtain ⟨k', hnumber, hraw'⟩ := getElem?_of_mem_definers (List.mem_of_find?_eq_some hfirst)
    -- the symbol and the defining line give the same number, so they speak of one line
    obtain rfl : k = k' := by omega
    rw [List.getElem?_take] at hraw'
    split at hraw'
    · rw [hraw, Option.some.injEq] at hraw'
      refine ⟨u, hfind, hline, ?_⟩
      rw [hnumber, ← hraw']
      exact hwanted
    · cases hraw'

/-- With one cell for variables, neither declaration of `b` defines it. -/
def contested : List Text :=
  ["a = 1", "b = 2", "a: nop", "b: nop", "b = 3", "b: rts"].map String.toList

theorem first_definition_binds_contested :
    ¬ ((run { variableLimit := 0x200 } "x.s" contested).1.report.hasErrors = true
        ∧ (run { variableLimit := 0x200 } "x.s" contested).1.report.maxErrors
          ≤ (run { variableLimit := 0x200 } "x.s" contested).1.report.errorCount)
      ∧ (∃ u, (run { variableLimit := 0x200 } "x.s" contested).1.symbols.find? "b".toList = some u
        ∧ u.line = 4)
      ∧ followed (run { variableLimit := 0x200 } "x.s" contested).1.report.records
        = [Definer.complaint "x.s" ⟨1, "a = 1".toList, "a".toList, true⟩
            ⟨3, "a: nop".toList, "a".toList, false⟩,
          Definer.complaint "x.s" ⟨4, "b: nop".toList, "b".toList, false⟩
            ⟨6, "b: rts".toList, "b".toList, false⟩] := by
  have hcut : ¬ ((run { variableLimit := 0x200 } "x.s" contested).1.report.hasErrors = true
      ∧ (run { variableLimit := 0x200 } "x.s" contested).1.report.maxErrors
        ≤ (run { variableLimit := 0x200 } "x.s" contested).1.report.errorCount) := by
    decide
  obtain ⟨n, -, hstop, -, -, hbound, hfollowed⟩ :=
    first_definition_binds { variableLimit := 0x200 } "x.s" contested
      (run { variableLimit := 0x200 } "x.s" contested).1
      (run { variableLimit := 0x200 } "x.s" contested).2 rfl hcut
  obtain rfl : n = contested.length := hstop (by decide)
  rw [List.take_length] at hbound hfollowed
  obtain ⟨u, hfind, hline, -⟩ := hbound "b".toList ⟨4, "b: nop".toList, "b".toList, false⟩
    (by decide)
  refine ⟨hcut, ⟨u, hfind, hline⟩, hfollowed.trans ?_⟩
  decide

end Definitions

end Cross6502
