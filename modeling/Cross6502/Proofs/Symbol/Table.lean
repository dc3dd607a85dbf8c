import Cross6502.Symbol.Addition
import Mathlib.Data.List.Nodup

/-!
# Inserting into a symbol table

A table that takes a symbol is the old list with the symbol put in at one place.
Everything else about inserting follows from that: the name was not defined before, it
is found afterwards, no other name is found differently, and longer names stay in front
of shorter ones.
-/

namespace Cross6502

namespace SymbolTable

theorem insertByLength_eq_append (s : Symbol) (us : List Symbol) :
    ∃ above below, us = above ++ below ∧ insertByLength s us = above ++ s :: below := by
  induction us with
  | nil => exact ⟨[], [], rfl, rfl⟩
  | cons u us ih =>
    rw [insertByLength]
    split
    · exact ⟨[], u :: us, rfl, rfl⟩
    · obtain ⟨above, below, hus, hinsert⟩ := ih
      exact ⟨u :: above, below, by rw [hus, List.cons_append], by rw [hinsert, List.cons_append]⟩

theorem perm_insertByLength (s : Symbol) (us : List Symbol) :
    (insertByLength s us).Perm (s :: us) := by
  obtain ⟨above, below, hus, hinsert⟩ := insertByLength_eq_append s us
  rw [hinsert, hus]
  exact List.perm_middle

/-- The list of a table after symbols with new names were put into it in order. -/
def insertAllByLength (listed : List Symbol) : List Symbol → List Symbol
  | [] => listed
  | s :: rest => insertAllByLength (insertByLength s listed) rest

theorem perm_insertAllByLength (listed us : List Symbol) :
    (insertAllByLength listed us).Perm (us ++ listed) := by
  induction us generalizing listed with
  | nil => exact .refl _
  | cons s us ih =>
    rw [insertAllByLength, List.cons_append]
    exact (ih _).trans (((perm_insertByLength s listed).append_left us).trans List.perm_middle)

section Insert

variable {t t' : SymbolTable} {s : Symbol}

theorem find?_eq_none_of_insert (h : t.insert s = .ok t') : t.find? s.name = none := by
  rw [insert] at h
  split at h
  · cases h
  · assumption

theorem symbols_of_insert (h : t.insert s = .ok t') : t'.symbols = insertByLength s t.symbols := by
  rw [insert] at h
  split at h
  · cases h
  · cases h
    rfl

theorem exists_append_of_insert (h : t.insert s = .ok t') :
    ∃ above below, t.symbols = above ++ below ∧ t'.symbols = above ++ s :: below := by
  rw [symbols_of_insert h]
  exact insertByLength_eq_append s t.symbols

theorem mem_symbols_of_insert (h : t.insert s = .ok t') {u : Symbol} :
    u ∈ t'.symbols ↔ u = s ∨ u ∈ t.symbols := by
  rw [symbols_of_insert h, mem_insertByLength]

/-- Inserting a symbol changes what is found under its name and under no other. -/
theorem find?_of_insert (h : t.insert s = .ok t') (name : Text) :
    t'.find? name = if s.name = name then some s else t.find? name := by
  have hnone := find?_eq_none_of_insert h
  obtain ⟨above, below, hold, hnew⟩ := exists_append_of_insert h
  rw [find?, hold, List.find?_append, Option.or_eq_none_iff] at hnone
  rw [find?, find?, hnew, hold, List.find?_append, List.find?_append, List.find?_cons]
  by_cases hname : s.name = name
  · subst hname
    simp [hnone.1]
  · rw [beq_eq_false_iff_ne.mpr hname, if_neg hname]

/-- Inserting a symbol leaves the names that are bound as they are. -/
theorem find?_of_insert_of_some (h : t.insert s = .ok t') {name : Text} {u : Symbol}
    (hfind : t.find? name = some u) : t'.find? name = some u := by
  rw [find?_of_insert h, if_neg, hfind]
  rintro rfl
  rw [find?_eq_none_of_insert h] at hfind
  cases hfind

theorem file_of_insert (h : t.insert s = .ok t') : t'.file = t.file := by
  rw [insert] at h
  split at h
  · cases h
  · cases h
    rfl

/-- Inserting a symbol leaves the labels at other addresses as they are. -/
theorem labelAt?_of_insert_of_ne (h : t.insert s = .ok t') {a : Int} (ha : a ≠ s.address) :
    t'.labelAt? a = t.labelAt? a := by
  obtain ⟨above, below, hold, hnew⟩ := exists_append_of_insert h
  rw [labelAt?, labelAt?, hnew, hold, List.find?_append, List.find?_append, List.find?_cons,
    beq_eq_false_iff_ne.mpr ha.symm, Bool.false_and]

/-- Each name is defined once. -/
def NamesNodup (t : SymbolTable) : Prop := (t.symbols.map Symbol.name).Nodup

theorem namesNodup_of_insert (h : t.insert s = .ok t') (hnodup : t.NamesNodup) : t'.NamesNodup := by
  have hnone := find?_eq_none_of_insert h
  obtain ⟨above, below, hold, hnew⟩ := exists_append_of_insert h
  have hfresh : s.name ∉ t.symbols.map Symbol.name := by
    intro hmem
    obtain ⟨u, hu, hname⟩ := List.mem_map.mp hmem
    rw [find?, List.find?_eq_none] at hnone
    exact hnone u hu (by simp [hname])
  rw [NamesNodup, hold, List.map_append] at hnodup
  rw [hold, List.map_append] at hfresh
  rw [NamesNodup, hnew, List.map_append, List.map_cons, List.nodup_middle, List.nodup_cons]
  exact ⟨hfresh, hnodup⟩

theorem eq_of_mem_of_name_eq (hnodup : t.NamesNodup) {u v : Symbol} (hu : u ∈ t.symbols)
    (hv : v ∈ t.symbols) (hname : u.name = v.name) : u = v :=
  List.inj_on_of_nodup_map hnodup hu hv hname

/-- Where names are distinct, looking one up finds the symbol that bears it. -/
theorem find?_eq_some_iff (hnodup : t.NamesNodup) {name : Text} {u : Symbol} :
    t.find? name = some u ↔ u ∈ t.symbols ∧ u.name = name := by
  constructor
  · intro h
    exact ⟨List.mem_of_find?_eq_some h, by simpa using List.find?_some h⟩
  · rintro ⟨hu, rfl⟩
    cases hfind : t.find? u.name with
    | none =>
      rw [find?, List.find?_eq_none] at hfind
      exact absurd (hfind u hu) (by simp)
    | some v =>
      have hname : v.name = u.name := by simpa using List.find?_some hfind
      rw [eq_of_mem_of_name_eq hnodup (List.mem_of_find?_eq_some hfind) hu hname]

theorem insert_of_find?_eq_none (h : t.find? s.name = none) : ∃ t', t.insert s = .ok t' := by
  rw [insert, h]
  exact ⟨_, rfl⟩

/-- Longer names stand in front of shorter ones. -/
def LongestFirst (t : SymbolTable) : Prop :=
  t.symbols.Pairwise fun u v => v.name.length ≤ u.name.length

theorem pairwise_insertByLength (s : Symbol) {us : List Symbol}
    (h : us.Pairwise fun u v => v.name.length ≤ u.name.length) :
    (insertByLength s us).Pairwise fun u v => v.name.length ≤ u.name.length := by
  induction us with
  | nil => exact List.pairwise_singleton _ s
  | cons u us ih =>
    obtain ⟨hhead, htail⟩ := List.pairwise_cons.mp h
    unfold insertByLength
    split
    · rename_i hshorter
      refine List.pairwise_cons.mpr ⟨fun v hv => ?_, h⟩
      rcases List.mem_cons.mp hv with rfl | hv
      · exact Nat.le_of_lt hshorter
      · exact Nat.le_trans (hhead v hv) (Nat.le_of_lt hshorter)
    · rename_i hlonger
      refine List.pairwise_cons.mpr ⟨fun v hv => ?_, ih htail⟩
      rcases mem_insertByLength.mp hv with rfl | hv
      · exact Nat.le_of_not_lt hlonger
      · exact hhead v hv

theorem longestFirst_of_insert (h : t.insert s = .ok t') (hlong : t.LongestFirst) :
    t'.LongestFirst := by
  unfold LongestFirst
  rw [symbols_of_insert h]
  exact pairwise_insertByLength s hlong

end Insert

/-! ## Adding -/

section Add

variable {t t' : SymbolTable} {s : Symbol}

theorem canBeTold_added (s : Symbol) : (Event.added s).canBeTold = Text.isWritable s.line :=
  Bool.and_true _

theorem add_of_insert (h : t.insert s = .ok t') (hline : Text.isWritable s.line = true) :
    t.add s = { table := t', log := [.added s] } := by
  rw [add, h, canBeTold_added]
  exact if_pos hline

/-- A symbol that is put into a table has been added once its line is written. -/
theorem logged_add_of_insert (h : t.insert s = .ok t') :
    (t.add s).logged
      = if Text.isWritable s.line then ⟨[.added s], .ok t'⟩
        else ⟨[], .error (.value .tooLongToWrite)⟩ := by
  rw [add, h, canBeTold_added]
  dsimp only
  split <;> rfl

end Add

/-! ## Tables as maps from names to addresses -/

/-- The address of a name. -/
def addressOf? (t : SymbolTable) (name : Text) : Option Int := (t.find? name).map Symbol.address

/-- Two tables that give every name the same address, or none. -/
def SameAddresses (t u : SymbolTable) : Prop := ∀ name, t.addressOf? name = u.addressOf? name

theorem addressOf?_eq_some_iff {t : SymbolTable} (hnodup : t.NamesNodup) {name : Text} {a : Int} :
    t.addressOf? name = some a ↔ ∃ u ∈ t.symbols, u.name = name ∧ u.address = a := by
  rw [addressOf?, Option.map_eq_some_iff]
  constructor
  · rintro ⟨u, hu, haddress⟩
    obtain ⟨hmem, hname⟩ := (find?_eq_some_iff hnodup).mp hu
    exact ⟨u, hmem, hname, haddress⟩
  · rintro ⟨u, hmem, hname, haddress⟩
    exact ⟨u, (find?_eq_some_iff hnodup).mpr ⟨hmem, hname⟩, haddress⟩

theorem addressOf?_of_insert {t t' : SymbolTable} {u : Symbol} (h : t.insert u = .ok t')
    (name : Text) :
    t'.addressOf? name = if u.name = name then some u.address else t.addressOf? name := by
  rw [addressOf?, find?_of_insert h]
  split <;> rfl

end SymbolTable

end Cross6502
