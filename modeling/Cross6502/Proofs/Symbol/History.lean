import Cross6502.Proofs.Symbol.Ranking

/-!
# What a symbol table has been through

A table is changed by asking it for symbols: for one, or for several in a row, of which it takes
those in front of the first that fails.  A symbol fails for its name, if that is taken, or for
its line, if that has more digits than are written.  It is in the table by then in the second
case, since the table tells of a symbol after it has put it in.  So which symbols a table takes
can be said without the table (`takenBy`).  Everything about the table follows from that list:
its order is the stable sort of the list by length, and looking up a name is searching the list.

Looking up in the list takes time, so one may want to keep an index by name beside it.
`Indexed` is a table with such an index, written to and read on its own.  It is put in order by
looking for the place of a symbol and shifting what is behind, and it finds a name in the index
only.  `Keeps` is the invariant that ties list and index to what was taken.  One symbol is the
step (`Keeps.add_of_mem`, `Keeps.add_of_not_mem`), and from it follow a call that asks for
several and a whole history (`keeps_afterCalls`).
-/

namespace Cross6502

namespace SymbolTable

/-! ## Calls -/

/-- What can be asked of a table that may change it. -/
inductive Call where
  | add (s : Symbol)
  | addLabel (name : Text) (address line : Int)
  | addVariable (name : Text) (address line : Int) (value : Option Text)
  | merge (symbols : List Symbol)
  deriving DecidableEq, Inhabited

/-- The symbols that a call asks for, in order. -/
def Call.symbols : Call → List Symbol
  | .add s => [s]
  | .addLabel name address line => [.ofLabel name address line]
  | .addVariable name address line value => [.ofVariable name address line value]
  | .merge symbols => symbols

/-- What a call does to a table. -/
def call (t : SymbolTable) : Call → Addition
  | .add s => t.add s
  | .addLabel name address line => t.add (.ofLabel name address line)
  | .addVariable name address line value => t.add (.ofVariable name address line value)
  | .merge symbols => t.merge symbols

section Merge

variable {t : SymbolTable} {s : Symbol}

theorem merge_cons_of_failed {f : Failure} (h : (t.add s).failure = some f)
    (rest : List Symbol) : t.merge (s :: rest) = t.add s := by
  rw [merge, h]

theorem merge_cons_of_added (h : (t.add s).failure = none) (rest : List Symbol) :
    t.merge (s :: rest)
      = { (t.add s).table.merge rest with
          log := (t.add s).log ++ ((t.add s).table.merge rest).log } := by
  rw [merge, h]

end Merge

/-- Adding a symbol is merging it alone. -/
theorem add_eq_merge (t : SymbolTable) (s : Symbol) : t.add s = t.merge [s] := by
  cases h : (t.add s).failure with
  | some f => rw [merge_cons_of_failed h]
  | none =>
    rw [merge_cons_of_added h, merge]
    dsimp only
    rw [List.append_nil, ← h]

theorem call_eq_merge (t : SymbolTable) (c : Call) : t.call c = t.merge c.symbols := by
  cases c with
  | add s => exact t.add_eq_merge s
  | addLabel name address line => exact t.add_eq_merge _
  | addVariable name address line value => exact t.add_eq_merge _
  | merge symbols => rfl

/-- The table after calls, from an empty one on. -/
def afterCalls (file : String) (calls : List Call) : SymbolTable :=
  calls.foldl (fun t c => (t.call c).table) { file := file }

/-! ## What is taken -/

/-- What is taken, in the order of adding, when more symbols are asked for: those in front of
the first whose name is taken already, or up to the first whose line is too long to write. -/
def takeIn (taken : List Symbol) : List Symbol → List Symbol
  | [] => taken
  | s :: rest =>
      if taken.any fun u => u.name == s.name then taken
      else if Text.isWritable s.line then takeIn (taken ++ [s]) rest
      else taken ++ [s]

/-- What calls make an empty table take, in the order of adding. -/
def takenBy (calls : List Call) : List Symbol :=
  calls.foldl (fun taken c => takeIn taken c.symbols) []

theorem any_name_iff {taken : List Symbol} {name : Text} :
    (taken.any fun u => u.name == name) = true ↔ name ∈ taken.map Symbol.name := by
  simp only [List.any_eq_true, beq_iff_eq, List.mem_map]

theorem prefix_takeIn (taken us : List Symbol) : taken <+: takeIn taken us := by
  induction us generalizing taken with
  | nil => exact List.prefix_refl taken
  | cons s rest ih =>
    rw [takeIn]
    split
    · exact List.prefix_refl taken
    · split
      · exact (List.prefix_append taken [s]).trans (ih _)
      · exact List.prefix_append taken [s]

theorem takenBy_concat (calls : List Call) (c : Call) :
    takenBy (calls ++ [c]) = takeIn (takenBy calls) c.symbols := by
  rw [takenBy, List.foldl_append]
  rfl

/-- What is taken of one symbol depends on its name alone. -/
theorem takeIn_singleton (taken : List Symbol) (s : Symbol) :
    takeIn taken [s]
      = if taken.any fun u => u.name == s.name then taken else taken ++ [s] := by
  rw [takeIn, takeIn, ite_self]

/-- What was taken stays taken, in the same places. -/
theorem prefix_takenBy (before after : List Call) :
    takenBy before <+: takenBy (before ++ after) := by
  rw [takenBy, takenBy, List.foldl_append]
  generalize before.foldl (fun taken c => takeIn taken c.symbols) [] = taken
  induction after generalizing taken with
  | nil => exact List.prefix_refl taken
  | cons c rest ih => exact (prefix_takeIn taken c.symbols).trans (ih _)

/-! ## Tables with an index -/

/-- A table with an index by name beside its list. -/
structure Indexed extends SymbolTable where
  index : List (Text × Symbol) := []
  deriving DecidableEq, Inhabited

namespace Indexed

/-- Add a symbol, unless the index has its name: put it into the list at the place of the first
shorter name, enter it into the index, and tell of it. -/
def add (x : Indexed) (s : Symbol) : Indexed × Option Failure :=
  match x.index.lookup s.name with
  | some first =>
      (x, some (Failure.ofCause
        (.duplicateSymbol s.name (some { file := x.file, line := first.line }))).worded)
  | none =>
      let place := x.symbols.findIdx fun u => u.name.length < s.name.length
      ({ x with symbols := x.symbols.insertIdx place s, index := x.index ++ [(s.name, s)] },
        if Text.isWritable s.line then none else some (.value .tooLongToWrite))

/-- Add symbols in order up to the first that fails. -/
def merge (x : Indexed) : List Symbol → Indexed × Option Failure
  | [] => (x, none)
  | s :: rest =>
      match x.add s with
      | (x', none) => merge x' rest
      | (x', some f) => (x', some f)

/-- The table after a call, and why it failed if it did. -/
def call (x : Indexed) (c : Call) : Indexed × Option Failure := x.merge c.symbols

/-- The table after calls, from an empty one on. -/
def afterCalls (file : String) (calls : List Call) : Indexed :=
  calls.foldl (fun x c => (x.call c).1) { file := file }

theorem merge_cons (x : Indexed) (s : Symbol) (rest : List Symbol) :
    x.merge (s :: rest)
      = if (x.add s).2 = none then (x.add s).1.merge rest else x.add s := by
  rw [merge]
  cases x.add s with
  | mk x' failed => cases failed <;> rfl

theorem merge_singleton (x : Indexed) (s : Symbol) : x.merge [s] = x.add s := by
  rw [merge_cons, merge]
  split
  · rename_i h
    rw [← h]
  · rfl

end Indexed

/-- Where the scan puts a symbol, the place of the first shorter name. -/
theorem insertByLength_eq_insertIdx (s : Symbol) (us : List Symbol) :
    insertByLength s us = us.insertIdx (us.findIdx fun u => u.name.length < s.name.length) s := by
  induction us with
  | nil => rfl
  | cons u us ih =>
    rw [insertByLength, List.findIdx_cons]
    by_cases hshorter : u.name.length < s.name.length
    · rw [if_pos hshorter, decide_eq_true hshorter, cond_true, List.insertIdx_zero]
    · rw [if_neg hshorter, decide_eq_false hshorter, cond_false, List.insertIdx_succ_cons, ih]

theorem lookup_map_name (us : List Symbol) (name : Text) :
    (us.map fun u => (u.name, u)).lookup name = us.find? fun u => u.name == name := by
  induction us with
  | nil => rfl
  | cons u us ih =>
    rw [List.map_cons, List.lookup_cons, List.find?_cons, ih, BEq.comm]

/-- A refusal is raised as such if the line that it cites can be written. -/
theorem worded_duplicateSymbol_eq_source_iff {name : Text} {file : String} {line : Int}
    {e : SourceError} :
    (Failure.ofCause (.duplicateSymbol name (some { file := file, line := line }))).worded
        = .source e
      ↔ Text.isWritable line = true
        ∧ e = { cause := .duplicateSymbol name (some { file := file, line := line }) } := by
  have hnumbers : (Failure.ofCause
      (.duplicateSymbol name (some { file := file, line := line }))).numbers = [line] := rfl
  rw [Failure.worded_eq_iff Failure.noConfusion, hnumbers, List.all_cons, List.all_nil,
    Bool.and_true, and_comm, Failure.ofCause, Failure.source.injEq, eq_comm (a := e)]

/-! ## The invariant -/

/-- List and index of a table that has taken symbols in an order: the index has the symbols in
that order, each under its name; the list has the same symbols, longer names in front and names
of one length in that order. -/
structure Keeps (file : String) (taken : List Symbol) (x : Indexed) : Prop where
  file_eq : x.file = file
  nodup : (taken.map Symbol.name).Nodup
  index_eq : x.index = taken.map fun u => (u.name, u)
  perm : x.symbols.Perm taken
  ranked : Ranked taken x.symbols

theorem keeps_empty (file : String) : Keeps file [] { file := file } where
  file_eq := rfl
  nodup := List.nodup_nil
  index_eq := rfl
  perm := .refl []
  ranked := ⟨by simp, List.Pairwise.nil⟩

namespace Keeps

variable {file : String} {taken : List Symbol} {x : Indexed} {s : Symbol}

theorem namesNodup (h : Keeps file taken x) : x.NamesNodup :=
  (h.perm.map Symbol.name).nodup_iff.mpr h.nodup

/-- The index finds what was taken under a name. -/
theorem lookup_eq (h : Keeps file taken x) (name : Text) :
    x.index.lookup name = taken.find? fun u => u.name == name := by
  rw [h.index_eq, lookup_map_name]

/-- So does a search of the list, since a name is there once. -/
theorem find?_eq (h : Keeps file taken x) (name : Text) :
    x.find? name = taken.find? fun u => u.name == name := by
  have hnodup : NamesNodup { symbols := taken } := h.nodup
  show x.find? name = SymbolTable.find? { symbols := taken } name
  ext u
  rw [find?_eq_some_iff h.namesNodup, find?_eq_some_iff hnodup, h.perm.mem_iff]

/-- A name that is taken is refused, and the first definition is cited. -/
theorem add_of_mem (h : Keeps file taken x) (hmem : s.name ∈ taken.map Symbol.name) :
    ∃ first f, taken.find? (fun u => u.name == s.name) = some first
      ∧ f = (Failure.ofCause
        (.duplicateSymbol s.name (some { file := file, line := first.line }))).worded
      ∧ x.add s = (x, some f)
      ∧ x.toSymbolTable.add s = { table := x.toSymbolTable, failure := some f } := by
  obtain ⟨first, hfirst⟩ : ∃ first, taken.find? (fun u => u.name == s.name) = some first := by
    obtain ⟨u, hu, hname⟩ := List.mem_map.mp hmem
    rw [← Option.isSome_iff_exists, List.find?_isSome]
    exact ⟨u, hu, beq_iff_eq.mpr hname⟩
  have hname : first.name = s.name := by simpa using List.find?_some hfirst
  refine ⟨first, _, hfirst, rfl, ?_, ?_⟩
  · rw [Indexed.add, h.lookup_eq, hfirst, h.file_eq]
  · rw [SymbolTable.add, SymbolTable.insert, h.find?_eq, hfirst]
    simp only [duplicate, hname, h.file_eq, Failure.ofCause]

/-- A new name is taken, by the list with its index as by the list alone, and it is told of
afterwards. -/
theorem add_of_not_mem (h : Keeps file taken x) (hnew : s.name ∉ taken.map Symbol.name) :
    Keeps file (taken ++ [s]) (x.add s).1
      ∧ (x.toSymbolTable.add s).table = (x.add s).1.toSymbolTable
      ∧ (x.toSymbolTable.add s).failure = (x.add s).2
      ∧ (x.add s).2 = if Text.isWritable s.line then none else some (.value .tooLongToWrite) := by
  have hnone : taken.find? (fun u => u.name == s.name) = none := by
    rw [List.find?_eq_none]
    intro u hu hname
    exact hnew (List.mem_map.mpr ⟨u, hu, beq_iff_eq.mp hname⟩)
  have hindexed := h.lookup_eq s.name
  have hlisted := h.find?_eq s.name
  rw [hnone] at hindexed hlisted
  rw [SymbolTable.add, SymbolTable.insert, hlisted, Indexed.add, hindexed, canBeTold_added,
    insertByLength_eq_insertIdx]
  refine ⟨⟨h.file_eq, ?_, ?_, ?_, ?_⟩, ?_, ?_, rfl⟩
  · rw [List.map_append, List.map_singleton]
    exact List.nodup_append.mpr ⟨h.nodup, List.nodup_singleton _, fun a ha b hb hab =>
      hnew (List.mem_singleton.mp hb ▸ hab ▸ ha)⟩
  · rw [h.index_eq, List.map_append]
    rfl
  · show (x.symbols.insertIdx _ s).Perm (taken ++ [s])
    rw [← insertByLength_eq_insertIdx]
    exact (perm_insertByLength s x.symbols).trans
      ((h.perm.cons s).trans (List.perm_append_singleton s taken).symm)
  · show Ranked (taken ++ [s]) (x.symbols.insertIdx _ s)
    rw [← insertByLength_eq_insertIdx]
    exact ranked_insertByLength s h.ranked
  all_goals cases Text.isWritable s.line <;> rfl

/-- Several symbols are taken up to the first that fails, by the list with its index as by the
list alone. -/
theorem merge (h : Keeps file taken x) (us : List Symbol) :
    Keeps file (takeIn taken us) (x.merge us).1
      ∧ (x.toSymbolTable.merge us).table = (x.merge us).1.toSymbolTable
      ∧ (x.toSymbolTable.merge us).failure = (x.merge us).2 := by
  induction us generalizing taken x with
  | nil => exact ⟨h, rfl, rfl⟩
  | cons s rest ih =>
    rw [takeIn, Indexed.merge_cons]
    by_cases hmem : s.name ∈ taken.map Symbol.name
    · obtain ⟨first, f, -, -, hindexed, hlisted⟩ := h.add_of_mem hmem
      rw [if_pos (any_name_iff.mpr hmem), hindexed, if_neg (Option.some_ne_none f),
        merge_cons_of_failed (congrArg Addition.failure hlisted), hlisted]
      exact ⟨h, rfl, rfl⟩
    · obtain ⟨h', htable, hfailure, hresult⟩ := h.add_of_not_mem hmem
      rw [if_neg fun hany => hmem (any_name_iff.mp hany)]
      by_cases hline : Text.isWritable s.line = true
      · rw [if_pos hline] at hresult
        rw [if_pos hline, if_pos hresult, merge_cons_of_added (hfailure.trans hresult), htable]
        exact ih h'
      · rw [if_neg hline] at hresult
        rw [if_neg hline, hresult, if_neg (Option.some_ne_none _),
          merge_cons_of_failed (hfailure.trans hresult)]
        exact ⟨h', htable, hfailure⟩

end Keeps

/-- The invariant over a whole history, which the table with the index shares with the table
without. -/
theorem keeps_afterCalls (file : String) (calls : List Call) :
    Keeps file (takenBy calls) (Indexed.afterCalls file calls)
      ∧ (Indexed.afterCalls file calls).toSymbolTable = afterCalls file calls := by
  have hrun : ∀ (calls : List Call) (taken : List Symbol) (x : Indexed) (t : SymbolTable),
      Keeps file taken x → x.toSymbolTable = t →
      Keeps file (calls.foldl (fun taken c => takeIn taken c.symbols) taken)
          (calls.foldl (fun x c => (x.call c).1) x)
        ∧ (calls.foldl (fun x c => (x.call c).1) x).toSymbolTable
          = calls.foldl (fun t c => (t.call c).table) t := by
    intro calls
    induction calls with
    | nil => exact fun taken x t h ht => ⟨h, ht⟩
    | cons c rest ih =>
      rintro taken x _ h rfl
      obtain ⟨h', htable, -⟩ := h.merge c.symbols
      rw [List.foldl_cons, List.foldl_cons, List.foldl_cons, call_eq_merge, htable]
      exact ih _ _ _ h' rfl
  exact hrun calls [] { file := file } { file := file } (keeps_empty file) rfl

/-! ## Every history -/

-- A merge stopped in its middle leaves what stood in front of the name that was taken.
example :
    let name (text : String) : Text := text.toList
    let table := afterCalls "a.asm" [.addLabel (name "ab") 16 1, .merge
      [.ofLabel (name "loop") 32 2, .ofLabel (name "cd") 48 3, .ofLabel (name "ab") 64 4,
        .ofLabel (name "end") 80 5], .addVariable (name "far") 0 6 none]
    table.symbols.map Symbol.name = [name "loop", name "far", name "ab", name "cd"]
      ∧ (table.find? (name "ab")).map Symbol.line = some 1 := by
  decide

end SymbolTable

end Cross6502
