import Cross6502.Proofs.Assembly.Sizing
import Cross6502.Proofs.Assembly.SymbolOrigin
import Mathlib.Data.List.Induction

/-!
# Cells of variables

The variables of a source that assembles lie side by side.  The first declaration gets the
first cell of the variable area, and each one after it the next cell, whatever stands between
them: the first pass counts a cell for every declaration and for nothing else
(`Definitions.Allotted`).

Declarations have no part in the program itself.  The second pass goes over them without
putting anything out, and the first pass over the other lines alone lays the same program out
and gives all other names the addresses they had (`Definitions.Without`).
-/

namespace Cross6502

/-! ## Declarations of a source -/

/-- The name that a line declares: a label with an equals sign behind it
(`Line.declaration_iff`). -/
def Line.declaredName? (raw : Text) : Option Text :=
  ((Line.ofClean (Line.clean raw)).definition?.filter Definition.isDeclared).map Definition.name

theorem Line.declaredName?_eq_some_iff {raw name : Text} :
    Line.declaredName? raw = some name ↔
      ∃ value, Line.ofClean (Line.clean raw) = .declaration name value := by
  rw [declaredName?]
  cases Line.ofClean (Line.clean raw) with
  | blank => simp [definition?]
  | declaration name' value => simp [definition?, Definition.isDeclared, Definition.name]
  | statement label body => cases label <;> simp [definition?, Definition.isDeclared]

theorem Line.declaredName?_eq_none_iff {raw : Text} :
    Line.declaredName? raw = none ↔
      (Line.ofClean (Line.clean raw)).isDeclaration = false := by
  rw [declaredName?, isDeclaration, Option.map_eq_none_iff, Option.filter_eq_none_iff]
  cases (ofClean (clean raw)).definition? <;> simp

/-- The declarations of a source in order, as the numbers of their lines and the names. -/
def declarations (lines : List Text) : List (Nat × Text) :=
  (lines.zipIdx 1).filterMap fun p => (Line.declaredName? p.1).map (p.2, ·)

/-- The lines that declare nothing. -/
def undeclaring (lines : List Text) : List Text :=
  lines.filter fun raw => (Line.declaredName? raw).isNone

theorem declarations_concat (before : List Text) (raw : Text) :
    declarations (before ++ [raw]) = declarations before
      ++ ((Line.declaredName? raw).map (before.length + 1, ·)).toList := by
  rw [declarations, List.zipIdx_append, List.filterMap_append, Nat.add_comm 1]
  cases h : Line.declaredName? raw <;> simp [declarations, h]

theorem undeclaring_concat (before : List Text) (raw : Text) :
    undeclaring (before ++ [raw]) = undeclaring before
      ++ if (Line.declaredName? raw).isNone then [raw] else [] := by
  rw [undeclaring, List.filter_append, List.filter_singleton, Bool.cond_eq_ite]
  rfl

/-! ## Tables without some of their names -/

namespace SymbolTable

/-- A table, and one that has the same addresses for all but some of its names. -/
structure Lacking (names : List Text) (t t' : SymbolTable) : Prop where
  known : ∀ name ∈ names, t.addressOf? name ≠ none
  gone : ∀ name ∈ names, t'.addressOf? name = none
  kept : ∀ name, name ∉ names → t'.addressOf? name = t.addressOf? name

namespace Lacking

variable {names : List Text} {t t' u u' : SymbolTable} {x y : Symbol}

theorem ne_of_insert (h : Lacking names t t') (hadd : t.insert x = .ok u) :
    ∀ name ∈ names, x.name ≠ name := by
  rintro name hname rfl
  refine h.known x.name hname ?_
  rw [addressOf?, find?_eq_none_of_insert hadd, Option.map_none]

/-- A name that is new with the others is new without them. -/
theorem find?_eq_none_of_insert (h : Lacking names t t') (hadd : t.insert x = .ok u) :
    t'.find? x.name = none := by
  have hkept := h.kept x.name fun hmem => h.ne_of_insert hadd x.name hmem rfl
  rw [addressOf?, addressOf?, SymbolTable.find?_eq_none_of_insert hadd, Option.map_none,
    Option.map_eq_none_iff] at hkept
  exact hkept

/-- One more name is left out. -/
theorem add_left (h : Lacking names t t') (hadd : t.insert x = .ok u) :
    Lacking (names ++ [x.name]) u t' := by
  have hnew := h.ne_of_insert hadd
  refine ⟨?_, ?_, ?_⟩
  · rw [List.forall_mem_append, List.forall_mem_singleton]
    refine ⟨fun name hname => ?_, ?_⟩
    · rw [addressOf?_of_insert hadd, if_neg (hnew name hname)]
      exact h.known name hname
    · rw [addressOf?_of_insert hadd, if_pos rfl]
      exact Option.some_ne_none _
  · rw [List.forall_mem_append, List.forall_mem_singleton]
    refine ⟨h.gone, ?_⟩
    rw [addressOf?, h.find?_eq_none_of_insert hadd, Option.map_none]
  · intro name hname
    rw [List.mem_append, List.mem_singleton, not_or] at hname
    rw [h.kept name hname.1, addressOf?_of_insert hadd, if_neg (Ne.symm hname.2)]

/-- A name at the same address in both. -/
theorem add_both (h : Lacking names t t') (hadd : t.insert x = .ok u) (hadd' : t'.insert y = .ok u')
    (hname : y.name = x.name) (haddress : y.address = x.address) : Lacking names u u' := by
  have hnew := h.ne_of_insert hadd
  refine ⟨fun name hmem => ?_, fun name hmem => ?_, fun name hmem => ?_⟩
  · rw [addressOf?_of_insert hadd, if_neg (hnew name hmem)]
    exact h.known name hmem
  · rw [addressOf?_of_insert hadd', hname, if_neg (hnew name hmem)]
    exact h.gone name hmem
  · rw [addressOf?_of_insert hadd, addressOf?_of_insert hadd', hname, haddress, h.kept name hmem]

end Lacking

end SymbolTable

namespace Definitions

section Run

variable {s : Settings} {file : String} {lines before : List Text} {raw : Text}
  {d d' e : Definitions} {number : Nat} {line : Line}

/-- What holds in front of the first line and is kept by lines without an error holds at the
end of a first pass without errors. -/
theorem run_induction {I : List Text → Definitions → Prop} (hstart : I [] (start s file))
    (hstep : ∀ before raw d d', I before d → step s d (1 + before.length) raw = (d', none) →
      d'.report.hasErrors = false → I (before ++ [raw]) d')
    (h : run s file lines = (d, none)) (hclean : d.report.hasErrors = false) : I lines d := by
  induction lines using List.reverseRecOn generalizing d with
  | nil =>
    cases h
    exact hstart
  | append_singleton before raw ih =>
    obtain ⟨d₁, hbefore, hlast⟩ := walkLines_concat.mp h
    exact hstep before raw d₁ d (ih hbefore (of_step hlast hclean).1) hlast hclean

/-- A line without an error asks for no symbol, or it gets the one it asks for. -/
theorem Treated.of_clean (h : Treated s d number raw line d')
    (hclean : d'.report.hasErrors = false) :
    (d.wanted number line = none ∧ d'.symbols = d.symbols ∧ d'.nextCell = d.nextCell)
      ∨ ∃ u, d.wanted number line = some u ∧ d.symbols.insert u = .ok d'.symbols
        ∧ (line.isDeclaration = true → d.nextCell ≤ s.variableLimit)
        ∧ d'.nextCell = d.nextCell + if line.isDeclaration then 1 else 0 := by
  cases h with
  | nothing hwanted hsymbols hcell => exact .inl ⟨hwanted, hsymbols, hcell⟩
  | refused _ _ _ _ hreport => simp [hreport, Report.hasErrors_push, Record.isError] at hclean
  | added hwanted hroom hadd hcell => exact .inr ⟨_, hwanted, hadd, hroom, hcell⟩
  | repeated _ _ _ _ _ hreport => simp [hreport, Report.hasErrors_push, Record.isError] at hclean
  | cut hcut => simp [hcut.1] at hclean

/-! ## Allotting -/

/-- Every declaration has the cell that is its own by its place among the declarations, and
the next cell comes behind them. -/
structure Allotted (s : Settings) (lines : List Text) (d : Definitions) : Prop where
  next : d.nextCell = s.variableStart + (declarations lines).length
  bound : ∀ (k number : Nat) (name : Text), (declarations lines)[k]? = some (number, name) →
    s.variableStart + k ≤ s.variableLimit
      ∧ ∃ u, d.symbols.find? name = some u ∧ u.line = number
        ∧ u.address = Symbol.wrapAddress (s.variableStart + k)

/-- A line that declares nothing takes no cell. -/
theorem Allotted.of_other (h : Allotted s before d) (hname : Line.declaredName? raw = none)
    (hcell : d'.nextCell = d.nextCell)
    (hkept : ∀ name u, d.symbols.find? name = some u → d'.symbols.find? name = some u) :
    Allotted s (before ++ [raw]) d' := by
  have hsame : declarations (before ++ [raw]) = declarations before := by
    rw [declarations_concat, hname, Option.map_none, Option.toList_none, List.append_nil]
  refine ⟨?_, fun k number name hget => ?_⟩
  · rw [hcell, hsame, h.next]
  · rw [hsame] at hget
    obtain ⟨hroom, u, hfind, hu⟩ := h.bound k number name hget
    exact ⟨hroom, u, hkept name u hfind, hu⟩

/-- A declaration takes the next cell. -/
theorem Allotted.of_declaration {name : Text} {value : Option Text} (h : Allotted s before d)
    (hname : Line.declaredName? raw = some name) (hroom : d.nextCell ≤ s.variableLimit)
    (hadd : d.symbols.insert (declared name value d.nextCell (before.length + 1)) = .ok d'.symbols)
    (hcell : d'.nextCell = d.nextCell + 1) : Allotted s (before ++ [raw]) d' := by
  have hmore : declarations (before ++ [raw])
      = declarations before ++ [(before.length + 1, name)] := by
    rw [declarations_concat, hname, Option.map_some, Option.toList_some]
  refine ⟨?_, fun k number other hget => ?_⟩
  · rw [hcell, hmore, h.next, List.length_append, List.length_singleton]
    omega
  · rw [hmore, List.getElem?_append] at hget
    split at hget
    · obtain ⟨hbelow, u, hfind, hu⟩ := h.bound k number other hget
      exact ⟨hbelow, u, SymbolTable.find?_of_insert_of_some hadd hfind, hu⟩
    · rename_i hlast
      rw [List.getElem?_singleton] at hget
      split at hget
      · rename_i hfirst
        cases hget
        have hk : d.nextCell = s.variableStart + k := by
          rw [h.next]
          omega
        rw [← hk]
        refine ⟨hroom, declared name value d.nextCell (before.length + 1), ?_, ?_⟩
        · rw [SymbolTable.find?_of_insert hadd]
          exact if_pos (by cases value <;> rfl)
        · cases value <;> exact ⟨rfl, rfl⟩
      · cases hget

theorem allotted_of_run (h : run s file lines = (d, none)) (hclean : d.report.hasErrors = false) :
    Allotted s lines d := by
  refine run_induction (I := Allotted s) ⟨?_, ?_⟩ ?_ h hclean
  · exact (Int.add_zero _).symm
  · intro k number name hget
    cases hget
  · intro before raw d d' hallotted hstep hclean
    have htreated := (treated_of_step hstep).of_clean hclean
    rw [Nat.add_comm 1] at htreated
    cases hname : Line.declaredName? raw with
    | some name =>
      obtain ⟨value, hline⟩ := Line.declaredName?_eq_some_iff.mp hname
      rw [hline] at htreated
      obtain ⟨hwanted, -⟩ | ⟨u, hwanted, hadd, hroom, hcell⟩ := htreated
      · cases hwanted
      · cases hwanted
        exact hallotted.of_declaration hname (hroom rfl) hadd hcell
    | none =>
      have hother := Line.declaredName?_eq_none_iff.mp hname
      obtain ⟨-, hsymbols, hcell⟩ | ⟨u, -, hadd, -, hcell⟩ := htreated
      · refine hallotted.of_other hname hcell fun name u hfind => ?_
        rw [hsymbols]
        exact hfind
      · rw [hother] at hcell
        refine hallotted.of_other hname (hcell.trans (Int.add_zero _)) fun name v hfind => ?_
        exact SymbolTable.find?_of_insert_of_some hadd hfind

section Inside

variable (h : Allotted s lines d) (hstart : 0 ≤ s.variableStart) (hlimit : s.variableLimit ≤ 0xFFFF)
include h hstart hlimit

/-- In a variable area inside the address space, no address is wrapped. -/
theorem Allotted.bound_inside {k number : Nat} {name : Text}
    (hget : (declarations lines)[k]? = some (number, name)) :
    ∃ u, d.symbols.find? name = some u ∧ u.line = number
      ∧ u.address = s.variableStart + k ∧ u.address ≤ s.variableLimit := by
  obtain ⟨hroom, u, hfind, hline, haddress⟩ := h.bound k number name hget
  have hinside : u.address = s.variableStart + k := by
    rw [haddress, Symbol.wrapAddress, Int.emod_eq_of_lt (by omega) (by omega)]
  exact ⟨u, hfind, hline, hinside, hinside ▸ hroom⟩

theorem Allotted.nodup_addresses :
    ((declarations lines).map fun p => d.symbols.addressOf? p.2).Nodup := by
  have haddresses : ((declarations lines).map fun p => d.symbols.addressOf? p.2)
      = (List.range (declarations lines).length).map fun k : Nat =>
        some (s.variableStart + k) := by
    refine List.ext_getElem (by simp) fun k hk hk' => ?_
    rw [List.length_map] at hk
    obtain ⟨u, hfind, -, haddress, -⟩ :=
      h.bound_inside hstart hlimit (List.getElem?_eq_getElem hk)
    rw [List.get_eq_getElem] at hfind
    rw [List.getElem_map, List.getElem_map, List.getElem_range, SymbolTable.addressOf?, hfind,
      Option.map_some, haddress]
  rw [haddresses]
  refine List.nodup_range.map fun i j hij => ?_
  have hcells := Option.some.inj hij
  omega

end Inside

/-! ## Leaving declarations out -/

/-- A first pass that went over all lines but the declarations, beside one that went over all. -/
structure Without (names : List Text) (d e : Definitions) : Prop where
  clean : e.report.hasErrors = false
  layout : e.layout = d.layout
  current : e.current = d.current
  symbols : SymbolTable.Lacking names d.symbols e.symbols

/-- A statement without a label goes through if there is room for its body. -/
theorem step_of_body {body : Text} {o : Object} {current : Int}
    (hline : Line.ofClean (Line.clean raw) = .statement none body)
    (hlayout : d.layOut body = .ok (o, current)) :
    step s d number raw = ({ d with
      report := d.report.atLine number, layout := o, current := current }, none) := by
  rw [step, hline]
  simp only [mark, reserve, layOut] at hlayout ⊢
  rw [hlayout]

/-- One with a label goes through if the label is new, too. -/
theorem step_of_label {name body : Text} {o : Object} {current : Int} {table : SymbolTable}
    (hline : Line.ofClean (Line.clean raw) = .statement (some name) body)
    (hlayout : d.layOut body = .ok (o, current))
    (hadd : d.symbols.insert (.ofLabel name d.here number) = .ok table) :
    step s d number raw = ({ d with
      report := d.report.atLine number, layout := o, current := current, symbols := table
      log := d.log ++ [.added (.ofLabel name d.here number)] }, none) := by
  rw [step, hline]
  simp only [mark, define, here, reserve, layOut] at hadd hlayout ⊢
  rw [hadd]
  simp only [hlayout]

namespace Without

variable {names : List Text}

theorem here_eq (h : Without names d e) : e.here = d.here := by
  rw [here, here, h.layout, h.current]

theorem layOut_eq (h : Without names d e) (body : Text) : e.layOut body = d.layOut body := by
  rw [layOut, layOut, h.layout, h.current]

/-- Any line but a declaration does the same without the declarations as with them. -/
theorem of_other (h : Without names d e)
    (hother : (Line.ofClean (Line.clean raw)).isDeclaration = false)
    (hstep : step s d number raw = (d', none)) (hclean : d'.report.hasErrors = false)
    (number' : Nat) : ∃ e', step s e number' raw = (e', none) ∧ Without names d' e' := by
  have hafter := (of_step hstep hclean).2
  cases hline : Line.ofClean (Line.clean raw) with
  | blank =>
    rw [hline] at hafter
    obtain ⟨hlayout, hcurrent, -, hsymbols⟩ := hafter
    refine ⟨{ e with report := e.report.atLine number' }, by rw [step, hline], h.clean, ?_, ?_, ?_⟩
    · exact h.layout.trans hlayout.symm
    · exact h.current.trans hcurrent.symm
    · rw [hsymbols]
      exact h.symbols
  | declaration name value =>
    rw [hline] at hother
    cases hother
  | statement label body =>
    rw [hline] at hafter
    cases label with
    | none =>
      obtain ⟨hlayout, -, hsymbols⟩ := hafter
      refine ⟨_, step_of_body hline (h.layOut_eq body ▸ hlayout), h.clean, rfl, rfl, ?_⟩
      rw [hsymbols]
      exact h.symbols
    | some name =>
      obtain ⟨hlayout, -, hadd⟩ := hafter
      have hfresh : e.symbols.find? name = none := h.symbols.find?_eq_none_of_insert hadd
      obtain ⟨table, hadd'⟩ := SymbolTable.insert_of_find?_eq_none
        (s := .ofLabel name e.here number') hfresh
      refine ⟨_, step_of_label hline (h.layOut_eq body ▸ hlayout) hadd', h.clean, rfl, rfl, ?_⟩
      refine h.symbols.add_both hadd hadd' rfl ?_
      rw [h.here_eq]
      rfl

/-- A declaration is left out. -/
theorem of_declaration (h : Without names d e) {name : Text} {value : Option Text}
    (hline : Line.ofClean (Line.clean raw) = .declaration name value)
    (hstep : step s d number raw = (d', none)) (hclean : d'.report.hasErrors = false) :
    Without (names ++ [name]) d' e := by
  have hafter := (of_step hstep hclean).2
  rw [hline] at hafter
  obtain ⟨hlayout, hcurrent, -, hadd⟩ := hafter
  have hlacking := h.symbols.add_left hadd
  rw [show (declared name value d.nextCell number).name = name by cases value <;> rfl] at hlacking
  exact ⟨h.clean, h.layout.trans hlayout.symm, h.current.trans hcurrent.symm, hlacking⟩

end Without

/-- The first pass over the lines that declare nothing. -/
theorem exists_run_undeclaring (h : run s file lines = (d, none))
    (hclean : d.report.hasErrors = false) :
    ∃ e, run s file (undeclaring lines) = (e, none)
      ∧ Without ((declarations lines).map Prod.snd) d e := by
  refine run_induction (I := fun lines d => ∃ e, run s file (undeclaring lines) = (e, none)
    ∧ Without ((declarations lines).map Prod.snd) d e) ?_ ?_ h hclean
  · refine ⟨start s file, rfl, rfl, rfl, rfl, ?_, ?_, fun name _ => rfl⟩
    · exact fun name hname => absurd hname List.not_mem_nil
    · exact fun name hname => absurd hname List.not_mem_nil
  · rintro before raw d d' ⟨e, hrun, hwithout⟩ hstep hclean
    rw [declarations_concat, undeclaring_concat]
    cases hname : Line.declaredName? raw with
    | some name =>
      obtain ⟨value, hline⟩ := Line.declaredName?_eq_some_iff.mp hname
      refine ⟨e, ?_, ?_⟩
      · simpa using hrun
      · simpa using hwithout.of_declaration hline hstep hclean
    | none =>
      -- the line has a lower number where declarations above it are left out
      obtain ⟨e', hstep', hwithout'⟩ := hwithout.of_other
        (Line.declaredName?_eq_none_iff.mp hname) hstep hclean (1 + (undeclaring before).length)
      refine ⟨e', ?_, ?_⟩
      · exact walkLines_concat.mpr ⟨e, hrun, hstep'⟩
      · simpa using hwithout'

end Run

end Definitions

/-! ## Assemblies -/

namespace Assembly

/-- Over a declaration, the second pass puts nothing out. -/
theorem emissionAt_succ_of_declaration {s : Settings} {allow : Bool} {file : String}
    {source : Text} (h : (ofSource s allow file source).failure = none) {k : Nat}
    {raw name : Text} (hraw : (Text.lines source)[k]? = some raw)
    (hname : Line.declaredName? raw = some name) :
    (emissionAt s allow file source (k + 1)).object = (emissionAt s allow file source k).object
      ∧ (emissionAt s allow file source (k + 1)).entries
        = (emissionAt s allow file source k).entries := by
  obtain ⟨d, m, hd, hm, -, hclean, -⟩ := exists_passes h
  have hsplit : Text.lines source
      = (Text.lines source).take (k + 1) ++ (Text.lines source).drop (k + 1) :=
    (List.take_append_drop (k + 1) _).symm
  obtain ⟨m₂, hfront, hback⟩ := walkLines_split (hsplit ▸ hm)
  have hclean₂ := Emission.clean_of_walk hback hclean
  have hbehind : emissionAt s allow file source (k + 1) = m₂ := by
    rw [emissionAt, hd]
    exact congrArg Prod.fst hfront
  rw [List.take_add_one, hraw, Option.toList_some] at hfront
  obtain ⟨m₁, hbefore, hstep⟩ := walkLines_concat.mp hfront
  have hinFront : emissionAt s allow file source k = m₁ := by
    rw [emissionAt, hd]
    exact congrArg Prod.fst hbefore
  obtain ⟨value, hline⟩ := Line.declaredName?_eq_some_iff.mp hname
  have hafter := (Emission.of_step hstep hclean₂).2
  rw [hline] at hafter
  rw [hbehind, hinFront]
  exact ⟨hafter.1, hafter.2.2⟩

/-- In an assembly that succeeds, with the variable area inside the address space, the
declarations take one cell after another from its start and stay in it, so that no two of them
share one.  They put nothing out, and without them the first pass lays the rest of the source out
as before, with the labels at the same addresses. -/
theorem variables_take_consecutive_cells (s : Settings) (allow : Bool) (file : String)
    (source : Text) (hstart : 0 ≤ s.variableStart) (hlimit : s.variableLimit ≤ 0xFFFF)
    (h : (ofSource s allow file source).failure = none) :
    (∀ (k number : Nat) (name : Text),
        (declarations (Text.lines source))[k]? = some (number, name) →
        ∃ u, (ofSource s allow file source).symbols.find? name = some u ∧ u.line = number
          ∧ u.address = s.variableStart + k ∧ u.address ≤ s.variableLimit)
      ∧ ((declarations (Text.lines source)).map fun p =>
          (ofSource s allow file source).symbols.addressOf? p.2).Nodup
      ∧ (∀ k raw name, (Text.lines source)[k]? = some raw → Line.declaredName? raw = some name →
        (emissionAt s allow file source (k + 1)).object
            = (emissionAt s allow file source k).object
          ∧ (emissionAt s allow file source (k + 1)).entries
            = (emissionAt s allow file source k).entries)
      ∧ ∃ e, Definitions.run s file (undeclaring (Text.lines source)) = (e, none)
        ∧ e.report.hasErrors = false
        ∧ e.layout = (definitionsAt s file source (Text.lines source).length).layout
        ∧ (∀ p ∈ declarations (Text.lines source), e.symbols.addressOf? p.2 = none)
        ∧ ∀ name, (∀ p ∈ declarations (Text.lines source), p.2 ≠ name) →
          e.symbols.addressOf? name
            = (ofSource s allow file source).symbols.addressOf? name := by
  obtain ⟨d, m, hrun, -, hclean, -, hsymbols, -, -⟩ := exists_passes h
  have hallotted := Definitions.allotted_of_run hrun hclean
  obtain ⟨e, hrest, hwithout⟩ := Definitions.exists_run_undeclaring hrun hclean
  have hdefinitions : definitionsAt s file source (Text.lines source).length = d := by
    rw [definitionsAt, List.take_length, hrun]
  rw [hsymbols, hdefinitions]
  refine ⟨fun k number name hget => hallotted.bound_inside hstart hlimit hget,
    hallotted.nodup_addresses hstart hlimit,
    fun k raw name => emissionAt_succ_of_declaration h, e, hrest, hwithout.clean,
    hwithout.layout, fun p hp => ?_, fun name hname => ?_⟩
  · exact hwithout.symbols.gone p.2 (List.mem_map_of_mem hp)
  · refine hwithout.symbols.kept name fun hmem => ?_
    obtain ⟨p, hp, hpname⟩ := List.mem_map.mp hmem
    exact hname p hp hpname

/-- Two declarations with code around them. -/
def twoVariables : Text := "count = 5\nloop: lda count\ntotal=0\n sta total\n jmp loop\n".toList

theorem variables_take_consecutive_cells_twoVariables :
    (0 : Int) ≤ ({} : Settings).variableStart ∧ ({} : Settings).variableLimit ≤ 0xFFFF
      ∧ (ofSource {} false "<input>" twoVariables).failure = none
      ∧ (∃ u, (ofSource {} false "<input>" twoVariables).symbols.find? "total".toList = some u
        ∧ u.line = 3 ∧ u.address = 0x200 + 1 ∧ u.address ≤ ({} : Settings).variableLimit)
      ∧ (emissionAt {} false "<input>" twoVariables 3).object
        = (emissionAt {} false "<input>" twoVariables 2).object
      ∧ ∃ e, Definitions.run {} "<input>" (undeclaring (Text.lines twoVariables)) = (e, none)
        ∧ e.symbols.addressOf? "loop".toList
          = (ofSource {} false "<input>" twoVariables).symbols.addressOf? "loop".toList := by
  have hsucceeds : (ofSource {} false "<input>" twoVariables).failure = none := by decide
  obtain ⟨hbound, -, hemission, e, hrun, -, -, -, hkept⟩ :=
    variables_take_consecutive_cells {} false "<input>" twoVariables (by decide) (by decide)
      hsucceeds
  refine ⟨by decide, by decide, hsucceeds, hbound 1 3 "total".toList (by decide), ?_,
    e, hrun, hkept "loop".toList (by decide)⟩
  exact (hemission 2 "total=0".toList "total".toList (by decide) (by decide)).1

end Assembly

end Cross6502
