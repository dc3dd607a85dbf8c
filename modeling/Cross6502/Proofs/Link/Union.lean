import Cross6502.Proofs.Link.Merging
import Cross6502.Proofs.Link.Placement
import Cross6502.Proofs.Numeral.Written

/-!
# Merged tables as consistent unions

Inputs come to the linker in an order, and the first input to define a name is the one
that is remembered for it.  `firstDefinition?` reads that input and its symbol off the
list of inputs, and `Merged.definition?` reads them off the state of the merge.  The two
are the same after every merge that goes through (`definition?_addTables`), whatever was
merged.

Everything else is read off the list.  A merge fails where an input gives a name another
address than the first definition does, or is the first to define it, on a line that has more
digits than are written (`MergeFault`, `of_addTables_error`).  So it goes through exactly if
no two inputs disagree and every first definition can be told.  As long as the lines can be
written, that does not depend on the order of the inputs.
-/

namespace Cross6502

namespace Link

/-! ## First definitions -/

/-- The first input that defines a name, and what it defines it as. -/
def firstDefinition? (name : Text) : List (String × SymbolTable) → Option (String × Symbol)
  | [] => none
  | (input, t) :: rest => ((t.find? name).map (input, ·)).or (firstDefinition? name rest)

/-- No two inputs give a name different addresses. -/
def Consistent (inputs : List (String × SymbolTable)) : Prop :=
  ∀ i ∈ inputs, ∀ j ∈ inputs, ∀ name a b,
    i.2.addressOf? name = some a → j.2.addressOf? name = some b → a = b

theorem Consistent.perm {inputs inputs' : List (String × SymbolTable)} (h : inputs.Perm inputs')
    (hinputs : Consistent inputs) : Consistent inputs' := fun i hi j hj =>
  hinputs i (h.mem_iff.mpr hi) j (h.mem_iff.mpr hj)

section FirstDefinition

variable {name : Text} {inputs : List (String × SymbolTable)}

theorem exists_append_of_firstDefinition? {input : String} {u : Symbol}
    (h : firstDefinition? name inputs = some (input, u)) :
    ∃ before t after, inputs = before ++ (input, t) :: after
      ∧ (∀ i ∈ before, i.2.find? name = none) ∧ t.find? name = some u := by
  induction inputs with
  | nil => cases h
  | cons i inputs ih =>
    obtain ⟨file, t⟩ := i
    rw [firstDefinition?] at h
    cases hfind : t.find? name with
    | some v =>
      rw [hfind] at h
      cases h
      exact ⟨[], t, inputs, rfl, fun i hi => absurd hi List.not_mem_nil, hfind⟩
    | none =>
      rw [hfind] at h
      obtain ⟨before, s, after, rfl, hbefore, hs⟩ := ih h
      refine ⟨(file, t) :: before, s, after, rfl, fun i hi => ?_, hs⟩
      rcases List.mem_cons.mp hi with rfl | hi
      · exact hfind
      · exact hbefore i hi

end FirstDefinition

namespace Merged

/-! ## What a merge remembers -/

/-- The input a name came from, and its symbol. -/
def definition? (m : Merged) (name : Text) : Option (String × Symbol) :=
  (m.table.find? name).map (m.origin name, ·)

theorem addressOf?_eq_definition? (m : Merged) (name : Text) :
    m.table.addressOf? name = (m.definition? name).map fun d => d.2.address := by
  rw [SymbolTable.addressOf?, definition?, Option.map_map]
  rfl

/-- Why a symbol of an input ends a merge, given the first definition of its name in front of
that input. -/
inductive MergeFault (older : Option (String × Symbol)) (input : String) (u : Symbol) :
    Failure → Prop
  /-- The first definition has another address. -/
  | conflict {file : String} {first : Symbol} (h : older = some (file, first))
      (hne : first.address ≠ u.address) :
      MergeFault older input u (Failure.source
        { cause := .conflictingSymbol u.name { file := file, line := first.line }
          location := some { file := input, line := u.line } }).worded
  /-- The symbol is the first definition, and its line cannot be told. -/
  | line (h : older = none) (hline : Text.isWritable u.line = false) :
      MergeFault older input u (.value .tooLongToWrite)

section Add

variable {m m' : Merged} {input : String} {u : Symbol}

/-- A symbol is merged if it has the address that is there, or if its name is new and its line
can be told. -/
theorem of_add (h : (m.add input u).outcome = .ok m') :
    (∃ first, m.table.find? u.name = some first ∧ first.address = u.address ∧ m' = m)
      ∨ ∃ t, m.table.insert u = .ok t ∧ Text.isWritable u.line = true
        ∧ m' = ⟨t, (u.name, input) :: m.origins⟩ := by
  cases hfind : m.table.find? u.name with
  | some first =>
    rw [add_of_find?_eq_some input hfind] at h
    split at h
    · rename_i haddress
      cases h
      exact .inl ⟨first, rfl, haddress, rfl⟩
    · cases h
  | none =>
    obtain ⟨t, ht, houtcome⟩ := add_of_find?_eq_none input hfind
    rw [houtcome] at h
    split at h
    · rename_i hline
      cases h
      exact .inr ⟨t, ht, hline, rfl⟩
    · cases h

theorem of_add_error {e : Failure} (h : (m.add input u).outcome = .error e) :
    MergeFault (m.definition? u.name) input u e := by
  cases hfind : m.table.find? u.name with
  | some first =>
    rw [add_of_find?_eq_some input hfind] at h
    split at h
    · cases h
    · rename_i hne
      cases h
      exact .conflict (by rw [definition?, hfind]; rfl) hne
  | none =>
    obtain ⟨t, -, houtcome⟩ := add_of_find?_eq_none input hfind
    rw [houtcome] at h
    split at h
    · cases h
    · rename_i hline
      cases h
      exact .line (by rw [definition?, hfind]; rfl) (Bool.eq_false_iff.mpr hline)

theorem definition?_of_add (h : (m.add input u).outcome = .ok m') (name : Text) :
    m'.definition? name
      = (m.definition? name).or (if u.name = name then some (input, u) else none) := by
  rcases of_add h with ⟨first, hfind, -, rfl⟩ | ⟨t, ht, -, rfl⟩
  · by_cases hname : u.name = name
    · rw [← hname, definition?, hfind]
      rfl
    · rw [if_neg hname, Option.or_none]
  · have hnone := SymbolTable.find?_eq_none_of_insert ht
    rw [definition?, definition?, SymbolTable.find?_of_insert ht]
    by_cases hname : u.name = name
    · subst hname
      rw [hnone, if_pos rfl, if_pos rfl, origin, List.lookup_cons_self]
      rfl
    · -- Another name keeps its origin, since the new entry does not match it.
      have horigin : origin ⟨t, (u.name, input) :: m.origins⟩ name = m.origin name := by
        rw [origin, List.lookup_cons, beq_eq_false_iff_ne.mpr (Ne.symm hname)]
        rfl
      rw [if_neg hname, if_neg hname, Option.or_none, horigin]

/-- After a symbol was merged, its name has its address. -/
theorem addressOf?_self_of_add (h : (m.add input u).outcome = .ok m') :
    m'.table.addressOf? u.name = some u.address := by
  rcases of_add h with ⟨first, hfind, haddress, rfl⟩ | ⟨t, ht, -, rfl⟩
  · rw [SymbolTable.addressOf?, hfind, ← haddress]
    rfl
  · exact (SymbolTable.addressOf?_of_insert ht u.name).trans (if_pos rfl)

/-- Each name of a merged table is there once, longer names first, and all lines can be
told. -/
structure Shape (m : Merged) : Prop where
  nodup : m.table.NamesNodup
  longestFirst : m.table.LongestFirst
  line : ∀ v ∈ m.table.symbols, Text.isWritable v.line = true

theorem shape_empty : ({} : Merged).Shape :=
  ⟨List.nodup_nil, List.Pairwise.nil, fun _ hv => absurd hv List.not_mem_nil⟩

theorem shape_of_add (h : (m.add input u).outcome = .ok m') (hm : m.Shape) : m'.Shape := by
  rcases of_add h with ⟨-, -, -, rfl⟩ | ⟨t, ht, hline, rfl⟩
  · exact hm
  · refine ⟨SymbolTable.namesNodup_of_insert ht hm.nodup,
      SymbolTable.longestFirst_of_insert ht hm.longestFirst, fun v hv => ?_⟩
    rcases (SymbolTable.mem_symbols_of_insert ht).mp hv with rfl | hv
    · exact hline
    · exact hm.line v hv

end Add

/-! ## One table -/

section AddAll

variable {m m' : Merged} {input : String} {us : List Symbol}

theorem of_addAll_cons {u : Symbol} (h : (m.addAll input (u :: us)).outcome = .ok m') :
    ∃ n, (m.add input u).outcome = .ok n ∧ (n.addAll input us).outcome = .ok m' := by
  rw [addAll, Logged.outcome_bind] at h
  exact Outcome.bind_eq_ok_iff.mp h

theorem definition?_of_addAll (h : (m.addAll input us).outcome = .ok m') (name : Text) :
    m'.definition? name
      = (m.definition? name).or ((us.find? fun u => u.name == name).map (input, ·)) := by
  induction us generalizing m with
  | nil =>
    cases h
    exact (Option.or_none).symm
  | cons u us ih =>
    obtain ⟨n, hadd, hrest⟩ := of_addAll_cons h
    rw [ih hrest, definition?_of_add hadd, Option.or_assoc, List.find?_cons]
    by_cases hname : u.name = name
    · rw [if_pos hname, beq_iff_eq.mpr hname]
      rfl
    · rw [if_neg hname, beq_eq_false_iff_ne.mpr hname]
      rfl

/-- What a table defined, it still defines at the same address after a merge. -/
theorem addressOf?_mono_of_addAll (h : (m.addAll input us).outcome = .ok m') {name : Text}
    {a : Int} (ha : m.table.addressOf? name = some a) : m'.table.addressOf? name = some a := by
  rw [addressOf?_eq_definition?] at ha ⊢
  obtain ⟨d, hd, hda⟩ := Option.map_eq_some_iff.mp ha
  rw [definition?_of_addAll h, hd, ← hda]
  rfl

theorem addressOf?_of_mem_of_addAll (h : (m.addAll input us).outcome = .ok m') {u : Symbol}
    (hu : u ∈ us) : m'.table.addressOf? u.name = some u.address := by
  induction us generalizing m with
  | nil => cases hu
  | cons v us ih =>
    obtain ⟨n, hadd, hrest⟩ := of_addAll_cons h
    rcases List.mem_cons.mp hu with rfl | hu
    · exact addressOf?_mono_of_addAll hrest (addressOf?_self_of_add hadd)
    · exact ih hrest hu

theorem shape_of_addAll (h : (m.addAll input us).outcome = .ok m') (hm : m.Shape) :
    m'.Shape := by
  induction us generalizing m with
  | nil =>
    cases h
    exact hm
  | cons u us ih =>
    obtain ⟨n, hadd, hrest⟩ := of_addAll_cons h
    exact ih hrest (shape_of_add hadd hm)

/-- A table is refused for one of its symbols, by what was defined before the table was
reached. -/
theorem of_addAll_error (hnodup : (us.map Symbol.name).Nodup) {e : Failure}
    (h : (m.addAll input us).outcome = .error e) :
    ∃ u ∈ us, MergeFault (m.definition? u.name) input u e := by
  induction us generalizing m with
  | nil => cases h
  | cons u us ih =>
    rw [addAll, Logged.outcome_bind] at h
    rcases Outcome.bind_eq_error_iff.mp h with h | ⟨n, hadd, hrest⟩
    · exact ⟨u, List.mem_cons_self, of_add_error h⟩
    · obtain ⟨hhead, htail⟩ := List.nodup_cons.mp hnodup
      obtain ⟨v, hv, hfault⟩ := ih htail hrest
      -- The symbol in front has another name, so the definition is older than this table.
      have hname : u.name ≠ v.name := fun heq => hhead (heq ▸ List.mem_map_of_mem hv)
      rw [definition?_of_add hadd, if_neg hname, Option.or_none] at hfault
      exact ⟨v, List.mem_cons_of_mem u hv, hfault⟩

end AddAll

/-! ## Many tables -/

/-- Fold the tables of inputs in, one after another. -/
def addTables (m : Merged) : List (String × SymbolTable) → Logged Merged
  | [] => Logged.ok m
  | (input, t) :: rest => do
      let m ← m.addAll input t.symbols
      addTables m rest

/-- The symbols of objects are merged as the tables of those objects that have one. -/
theorem addObjects_eq_addTables (m : Merged) (objects : List Object) (names : List String)
    (h : objects.length ≤ names.length) :
    (m.addObjects objects names).outcome
      = (m.addTables
          ((names.zip objects).filterMap fun i => i.2.symbols.map (i.1, ·))).outcome := by
  induction objects generalizing m names with
  | nil =>
    rw [List.zip_nil_right]
    rfl
  | cons o objects ih =>
    cases names with
    | nil => cases h
    | cons input names =>
      have hrest : objects.length ≤ names.length := Nat.le_of_succ_le_succ h
      rw [addObjects, Logged.outcome_bind, addObject, List.zip_cons_cons, List.filterMap_cons]
      cases hsymbols : o.symbols with
      | none => exact ih m names hrest
      | some t =>
        simp only [Option.map_some, addTables, Logged.outcome_bind]
        congr 1
        exact funext fun n => ih n names hrest

section AddTables

variable {m m' : Merged} {inputs : List (String × SymbolTable)}

theorem of_addTables_cons {input : String} {t : SymbolTable}
    (h : (m.addTables ((input, t) :: inputs)).outcome = .ok m') :
    ∃ n, (m.addAll input t.symbols).outcome = .ok n ∧ (n.addTables inputs).outcome = .ok m' := by
  rw [addTables, Logged.outcome_bind] at h
  exact Outcome.bind_eq_ok_iff.mp h

theorem definition?_addTables (h : (m.addTables inputs).outcome = .ok m') (name : Text) :
    m'.definition? name = (m.definition? name).or (firstDefinition? name inputs) := by
  induction inputs generalizing m with
  | nil =>
    cases h
    exact (Option.or_none).symm
  | cons i inputs ih =>
    obtain ⟨n, hadd, hrest⟩ := of_addTables_cons h
    rw [ih hrest, definition?_of_addAll hadd, Option.or_assoc]
    rfl

theorem addressOf?_mono_of_addTables (h : (m.addTables inputs).outcome = .ok m') {name : Text}
    {a : Int} (ha : m.table.addressOf? name = some a) : m'.table.addressOf? name = some a := by
  rw [addressOf?_eq_definition?] at ha ⊢
  obtain ⟨d, hd, hda⟩ := Option.map_eq_some_iff.mp ha
  rw [definition?_addTables h, hd, ← hda]
  rfl

theorem addressOf?_of_mem_of_addTables (h : (m.addTables inputs).outcome = .ok m')
    {i : String × SymbolTable} (hi : i ∈ inputs) {name : Text} {a : Int}
    (ha : i.2.addressOf? name = some a) : m'.table.addressOf? name = some a := by
  induction inputs generalizing m with
  | nil => cases hi
  | cons j inputs ih =>
    obtain ⟨n, hadd, hrest⟩ := of_addTables_cons h
    rcases List.mem_cons.mp hi with rfl | hi
    · obtain ⟨u, hu, rfl⟩ := Option.map_eq_some_iff.mp ha
      have hname : u.name = name := by simpa using List.find?_some hu
      rw [← hname]
      exact addressOf?_mono_of_addTables hrest
        (addressOf?_of_mem_of_addAll hadd (List.mem_of_find?_eq_some hu))
    · exact ih hrest hi

theorem shape_of_addTables (h : (m.addTables inputs).outcome = .ok m') (hm : m.Shape) :
    m'.Shape := by
  induction inputs generalizing m with
  | nil =>
    cases h
    exact hm
  | cons i inputs ih =>
    obtain ⟨n, hadd, hrest⟩ := of_addTables_cons h
    exact ih hrest (shape_of_addAll hadd hm)

/-- A merge fails at a symbol of an input, by the first definition of its name, which stands in
the state or in an earlier input. -/
theorem of_addTables_error (hnodup : ∀ i ∈ inputs, i.2.NamesNodup) {e : Failure}
    (h : (m.addTables inputs).outcome = .error e) :
    ∃ earlier input t later, inputs = earlier ++ (input, t) :: later ∧ ∃ u ∈ t.symbols,
      MergeFault ((m.definition? u.name).or (firstDefinition? u.name earlier)) input u e := by
  induction inputs generalizing m with
  | nil => cases h
  | cons i inputs ih =>
    obtain ⟨input, t⟩ := i
    rw [addTables, Logged.outcome_bind] at h
    rcases Outcome.bind_eq_error_iff.mp h with h | ⟨n, hadd, hrest⟩
    · obtain ⟨u, hu, hfault⟩ := of_addAll_error (hnodup (input, t) List.mem_cons_self) h
      refine ⟨[], input, t, inputs, rfl, u, hu, ?_⟩
      rwa [firstDefinition?, Option.or_none]
    · obtain ⟨earlier, file, t', later, rfl, u, hu, hfault⟩ :=
        ih (fun i hi => hnodup i (List.mem_cons_of_mem _ hi)) hrest
      refine ⟨(input, t) :: earlier, file, t', later, rfl, u, hu, ?_⟩
      rwa [definition?_of_addAll hadd, Option.or_assoc] at hfault

end AddTables

/-! ## From nothing -/

section FromNothing

variable {m : Merged} {inputs : List (String × SymbolTable)}

theorem definition?_empty (name : Text) : ({} : Merged).definition? name = none := rfl

theorem exists_defining_of_addTables (h : (addTables {} inputs).outcome = .ok m) {name : Text}
    {a : Int} (ha : m.table.addressOf? name = some a) :
    ∃ i ∈ inputs, i.2.addressOf? name = some a := by
  rw [addressOf?_eq_definition?, definition?_addTables h, definition?_empty, Option.none_or] at ha
  obtain ⟨⟨file, u⟩, hfirst, rfl⟩ := Option.map_eq_some_iff.mp ha
  obtain ⟨before, t, after, rfl, -, hfind⟩ := exists_append_of_firstDefinition? hfirst
  refine ⟨(file, t), by simp, ?_⟩
  rw [SymbolTable.addressOf?, hfind]
  rfl

/-- The symbol a merge fails at.  It stands behind the first definition of its name, at another
address, or it is that definition. -/
theorem cases_of_addTables_error (hnodup : ∀ i ∈ inputs, i.2.NamesNodup) {e : Failure}
    (h : (addTables {} inputs).outcome = .error e) :
    (∃ before file s between input t after u first,
      inputs = before ++ (file, s) :: between ++ (input, t) :: after
      ∧ u ∈ t.symbols
      ∧ (∀ i ∈ before, i.2.find? u.name = none) ∧ s.find? u.name = some first
      ∧ first.address ≠ u.address
      ∧ e = (Failure.source
          { cause := .conflictingSymbol u.name { file := file, line := first.line }
            location := some { file := input, line := u.line } }).worded)
    ∨ ∃ before input t after u,
      inputs = before ++ (input, t) :: after
      ∧ u ∈ t.symbols ∧ firstDefinition? u.name before = none
      ∧ Text.isWritable u.line = false ∧ e = .value .tooLongToWrite := by
  obtain ⟨earlier, input, t, after, rfl, u, hu, hfault⟩ := of_addTables_error hnodup h
  rw [definition?_empty, Option.none_or] at hfault
  cases hfault with
  | conflict hfirst hne =>
    obtain ⟨before, s, between, rfl, hbefore, hfind⟩ := exists_append_of_firstDefinition? hfirst
    exact .inl ⟨before, _, s, between, input, t, after, u, _, rfl, hu, hbefore, hfind, hne, rfl⟩
  | line hnone hline => exact .inr ⟨earlier, input, t, after, u, rfl, hu, hnone, hline, rfl⟩

/-- Every first definition has a line that can be told. -/
def FirstLinesWritable (inputs : List (String × SymbolTable)) : Prop :=
  ∀ name d, firstDefinition? name inputs = some d → Text.isWritable d.2.line = true

theorem firstDefinition?_append (name : Text) (before after : List (String × SymbolTable)) :
    firstDefinition? name (before ++ after)
      = (firstDefinition? name before).or (firstDefinition? name after) := by
  induction before with
  | nil => rfl
  | cons i before ih =>
    rw [List.cons_append, firstDefinition?, ih, firstDefinition?, Option.or_assoc]

theorem firstLinesWritable_of_mem
    (h : ∀ i ∈ inputs, ∀ u ∈ i.2.symbols, Text.isWritable u.line = true) :
    FirstLinesWritable inputs := by
  rintro name ⟨file, u⟩ hfirst
  obtain ⟨before, t, after, rfl, -, hfind⟩ := exists_append_of_firstDefinition? hfirst
  exact h (file, t) (by simp) u (List.mem_of_find?_eq_some hfind)

theorem addTables_succeeds_iff (hnodup : ∀ i ∈ inputs, i.2.NamesNodup) :
    (∃ m, (addTables {} inputs).outcome = .ok m)
      ↔ Consistent inputs ∧ FirstLinesWritable inputs := by
  constructor
  · rintro ⟨m, hm⟩
    refine ⟨fun i hi j hj name a b ha hb => ?_, fun name d hd => ?_⟩
    · have hab := (addressOf?_of_mem_of_addTables hm hi ha).symm.trans
        (addressOf?_of_mem_of_addTables hm hj hb)
      exact Option.some_inj.mp hab
    · have hdefinition := definition?_addTables hm name
      rw [definition?_empty, Option.none_or, hd] at hdefinition
      obtain ⟨u, hu, rfl⟩ := Option.map_eq_some_iff.mp hdefinition
      exact (shape_of_addTables hm shape_empty).line u (List.mem_of_find?_eq_some hu)
  · rintro ⟨hconsistent, hlines⟩
    cases houtcome : (addTables {} inputs).outcome with
    | ok m => exact ⟨m, rfl⟩
    | error e =>
      rcases cases_of_addTables_error hnodup houtcome with
        ⟨before, file, s, between, input, t, after, u, first, rfl, hu, -, hfind, hne, -⟩
        | ⟨before, input, t, after, u, rfl, hu, hnone, hline, -⟩
      · have ht : (input, t) ∈ before ++ (file, s) :: between ++ (input, t) :: after := by simp
        have haddress : s.addressOf? u.name = some first.address := by
          rw [SymbolTable.addressOf?, hfind]
          rfl
        exact absurd (hconsistent (file, s) (by simp) (input, t) ht u.name _ _ haddress
          ((SymbolTable.addressOf?_eq_some_iff (hnodup _ ht)).mpr ⟨u, hu, rfl, rfl⟩)) hne
      · have hfind : t.find? u.name = some u :=
          (SymbolTable.find?_eq_some_iff (hnodup (input, t) (by simp))).mpr ⟨hu, rfl⟩
        have hwritable := hlines u.name (input, u) (by
          rw [firstDefinition?_append, hnone, firstDefinition?, hfind]
          rfl)
        rw [hline] at hwritable
        cases hwritable

/-- The addresses after a merge are those of the inputs. -/
theorem addressOf?_addTables (h : (addTables {} inputs).outcome = .ok m) (name : Text) (a : Int) :
    m.table.addressOf? name = some a ↔ ∃ i ∈ inputs, i.2.addressOf? name = some a := by
  constructor
  · intro ha
    exact exists_defining_of_addTables h ha
  · rintro ⟨i, hi, ha⟩
    exact addressOf?_of_mem_of_addTables h hi ha

/-- Inputs in another order are merged alike, if their lines can be told. -/
theorem addTables_perm {inputs' : List (String × SymbolTable)} (hperm : inputs.Perm inputs')
    (hnodup : ∀ i ∈ inputs, i.2.NamesNodup)
    (hlines : ∀ i ∈ inputs, ∀ u ∈ i.2.symbols, Text.isWritable u.line = true) :
    Logged.Alike (fun m m' => m.table.SameAddresses m'.table)
      (addTables {} inputs) (addTables {} inputs') := by
  have hnodup' : ∀ i ∈ inputs', i.2.NamesNodup := fun i hi => hnodup i (hperm.mem_iff.mpr hi)
  have hfirst := firstLinesWritable_of_mem hlines
  have hfirst' : FirstLinesWritable inputs' :=
    firstLinesWritable_of_mem fun i hi => hlines i (hperm.mem_iff.mpr hi)
  cases houtcome : (addTables {} inputs).outcome with
  | ok m =>
    have hconsistent := ((addTables_succeeds_iff hnodup).mp ⟨m, houtcome⟩).1
    obtain ⟨m', houtcome'⟩ :=
      (addTables_succeeds_iff hnodup').mpr ⟨hconsistent.perm hperm, hfirst'⟩
    refine Logged.alike_of_ok houtcome houtcome' fun name => Option.ext fun a => ?_
    rw [addressOf?_addTables houtcome, addressOf?_addTables houtcome']
    simp only [hperm.mem_iff]
  | error e =>
    cases houtcome' : (addTables {} inputs').outcome with
    | ok m' =>
      -- A merge that goes through in one order goes through in the other.
      have hconsistent := ((addTables_succeeds_iff hnodup').mp ⟨m', houtcome'⟩).1
      obtain ⟨m, hm⟩ := (addTables_succeeds_iff hnodup).mpr ⟨hconsistent.perm hperm.symm, hfirst⟩
      rw [houtcome] at hm
      cases hm
    | error e' => exact Logged.alike_of_error houtcome houtcome'

/-- Merging the tables of inputs is their union.  It goes through exactly if no two inputs
give a name different addresses, in whatever order they come; then it defines the names of
all inputs, each once and at the address its inputs give it, longest names first.  Where it
fails, a symbol has another address than the first input to define its name gave it, and
the failure cites that input and the line there.  All this is what becomes of the symbols
of objects that have these tables.  The lines of the symbols have no more digits than are
written. -/
theorem addTables_consistent_union (inputs : List (String × SymbolTable))
    (hnodup : ∀ i ∈ inputs, i.2.NamesNodup)
    (hlines : ∀ i ∈ inputs, ∀ u ∈ i.2.symbols, Text.isWritable u.line = true) :
    ((∃ m, (addTables {} inputs).outcome = .ok m) ↔ Consistent inputs)
      ∧ (∀ m, (addTables {} inputs).outcome = .ok m →
          (∀ name a, m.table.addressOf? name = some a
            ↔ ∃ i ∈ inputs, i.2.addressOf? name = some a)
          ∧ m.table.NamesNodup ∧ m.table.LongestFirst)
      ∧ (∀ inputs', inputs.Perm inputs' →
          Logged.Alike (fun m m' => m.table.SameAddresses m'.table)
            (addTables {} inputs) (addTables {} inputs'))
      ∧ (∀ e, (addTables {} inputs).outcome = .error e →
          ∃ before file s between input t after u first,
            inputs = before ++ (file, s) :: between ++ (input, t) :: after
            ∧ u ∈ t.symbols
            ∧ (∀ i ∈ before, i.2.find? u.name = none) ∧ s.find? u.name = some first
            ∧ first.address ≠ u.address
            ∧ e = .source
                { cause := .conflictingSymbol u.name { file := file, line := first.line }
                  location := some { file := input, line := u.line } })
      ∧ ∀ objects names, objects.length ≤ names.length →
          inputs = ((names.zip objects).filterMap fun i => i.2.symbols.map (i.1, ·)) →
          (addObjects {} objects names).outcome = (addTables {} inputs).outcome := by
  refine ⟨?_, fun m hm => ⟨addressOf?_addTables hm, ?_⟩,
    fun inputs' hperm => addTables_perm hperm hnodup hlines, fun e he => ?_,
    fun objects names hlength hinputs => ?_⟩
  · rw [addTables_succeeds_iff hnodup, and_iff_left (firstLinesWritable_of_mem hlines)]
  · have hshape := shape_of_addTables hm shape_empty
    exact ⟨hshape.nodup, hshape.longestFirst⟩
  · rcases cases_of_addTables_error hnodup he with
      ⟨before, file, s, between, input, t, after, u, first, rfl, hu, hbefore, hfind, hne, rfl⟩
      | ⟨before, input, t, after, u, rfl, hu, -, hline, -⟩
    · refine ⟨before, file, s, between, input, t, after, u, first, rfl, hu, hbefore, hfind, hne,
        Failure.worded_of_writable ?_⟩
      have hfirst := hlines (file, s) (by simp) first (List.mem_of_find?_eq_some hfind)
      have hsecond := hlines (input, t) (by simp) u hu
      show [first.line, u.line].all Text.isWritable = true
      rw [List.all_cons, List.all_cons, List.all_nil, hfirst, hsecond]
      rfl
    · rw [hlines (input, t) (by simp) u hu] at hline
      cases hline
  · rw [hinputs]
    exact addObjects_eq_addTables {} objects names hlength

/-- Two inputs that share a cell, and a third that has it elsewhere. -/
def clashingInputs : List (String × SymbolTable) :=
  [("main", { symbols := [{ name := "start".toList, address := 0x600, line := 4 },
                          { name := "ptr".toList, address := 0x10, line := 2 }] }),
   ("lib", { symbols := [{ name := "ptr".toList, address := 0x10, line := 9 }] }),
   ("other", { symbols := [{ name := "ptr".toList, address := 0x20, line := 7 }] })]

theorem addTables_clashingInputs :
    (∃ m, (addTables {} (clashingInputs.take 2)).outcome = .ok m)
      ∧ Consistent (clashingInputs.take 2)
      ∧ ¬ Consistent clashingInputs
      ∧ (addTables {} clashingInputs).outcome
          = .error (.source
              { cause := .conflictingSymbol "ptr".toList { file := "main", line := 2 }
                location := some { file := "other", line := 7 } }) := by
  have hnodup : ∀ i ∈ clashingInputs, i.2.NamesNodup := by
    simp [clashingInputs, SymbolTable.NamesNodup]
  have hlines : ∀ i ∈ clashingInputs, ∀ u ∈ i.2.symbols, Text.isWritable u.line = true := by
    decide
  refine ⟨⟨_, rfl⟩, ?_, ?_, rfl⟩
  · exact (addTables_consistent_union _ (fun i hi => hnodup i (List.mem_of_mem_take hi))
      fun i hi => hlines i (List.mem_of_mem_take hi)).1.mp ⟨_, rfl⟩
  · intro hconsistent
    obtain ⟨m, hm⟩ := (addTables_consistent_union clashingInputs hnodup hlines).1.mpr hconsistent
    cases hm

/-- One input with one symbol, on the first line whose number is too long to be written. -/
def farInput : List (String × SymbolTable) :=
  [("main", { symbols := [{ name := "far".toList, address := 0x10,
                            line := Numeral.decimalLimit }] })]

/-- No two inputs disagree, and the merge fails. -/
theorem addTables_farInput :
    Consistent farInput
      ∧ (addTables {} farInput).outcome = .error (.value .tooLongToWrite) := by
  refine ⟨fun i hi j hj name a b ha hb => ?_, ?_⟩
  · rw [List.mem_singleton.mp hi] at ha
    rw [List.mem_singleton.mp hj, ha] at hb
    exact Option.some.inj hb
  · obtain ⟨t, -, hadd⟩ := add_of_find?_eq_none (m := {}) "main"
      (u := { name := "far".toList, address := 0x10, line := Numeral.decimalLimit }) rfl
    rw [if_neg (Bool.eq_false_iff.mp Numeral.isWritable_decimalLimit)] at hadd
    rw [farInput, addTables, Logged.outcome_bind, addAll, Logged.outcome_bind, hadd]
    rfl

end FromNothing

end Merged

end Link

end Cross6502
