import Cross6502.Link.Merge
import Cross6502.Proofs.Outcome
import Cross6502.Proofs.Symbol.Table

/-!
# Merging symbols, seen through addresses

The linker asks a merged table for addresses and for nothing else.  Seen that way, a
table is a partial map from names to addresses (`SymbolTable.addressOf?`), and folding
the symbols of an input in is the union of two such maps.  It succeeds exactly if the
maps agree where both are defined, and the lines of the new names can be told
(`Merged.addAll_of_admits`, `Merged.addAll_of_not_admits`).

The order of the symbols does not matter, nor do their kinds, the values they were declared
with, and their lines, as long as these can be told.  So inputs whose tables are the same map
are merged alike (`Merged.addAll_alike`).
-/

namespace Cross6502

namespace Link

namespace Merged

/-! ## One symbol -/

/-- A symbol that can be folded in.  Its name is there with its address, or the name is new
and the line of the definition can be told. -/
structure Admits (m : Merged) (u : Symbol) : Prop where
  address : ∀ a, m.table.addressOf? u.name = some a → a = u.address
  line : m.table.addressOf? u.name = none → Text.isWritable u.line = true

section Add

variable {m : Merged} {u : Symbol} (input : String)

/-- A name that is there is kept if it has the address, and refused otherwise. -/
theorem add_of_find?_eq_some {first : Symbol} (h : m.table.find? u.name = some first) :
    (m.add input u).outcome
      = if first.address = u.address then .ok m else .error (m.conflict input first u) := by
  rw [add, h]
  by_cases haddress : first.address = u.address
  · rw [if_pos haddress]
    simp only [haddress, beq_self_eq_true, if_true]
    rfl
  · rw [if_neg haddress]
    simp only [beq_eq_false_iff_ne.mpr haddress]
    rfl

/-- A name that is not there is put in, and its definition is told. -/
theorem add_of_find?_eq_none (h : m.table.find? u.name = none) :
    ∃ t, m.table.insert u = .ok t ∧ (m.add input u).outcome
      = if Text.isWritable u.line then .ok ⟨t, (u.name, input) :: m.origins⟩
        else .error (.value .tooLongToWrite) := by
  obtain ⟨t, ht⟩ := SymbolTable.insert_of_find?_eq_none h
  refine ⟨t, ht, ?_⟩
  rw [add, h]
  simp only [Logged.outcome_bind, SymbolTable.logged_add_of_insert ht]
  split <;> rfl

theorem add_of_admits (h : m.Admits u) :
    ∃ m', (m.add input u).outcome = .ok m' ∧ ∀ name,
      m'.table.addressOf? name = if u.name = name then some u.address
        else m.table.addressOf? name := by
  cases hfind : m.table.find? u.name with
  | some first =>
    have hfirst : m.table.addressOf? u.name = some first.address := by
      rw [SymbolTable.addressOf?, hfind]
      rfl
    have haddress := h.address first.address hfirst
    refine ⟨m, by rw [add_of_find?_eq_some input hfind, if_pos haddress], fun name => ?_⟩
    split
    · rename_i hname
      rw [← hname, hfirst, haddress]
    · rfl
  | none =>
    have hline := h.line (by rw [SymbolTable.addressOf?, hfind]; rfl)
    obtain ⟨t, ht, houtcome⟩ := add_of_find?_eq_none input hfind
    rw [if_pos hline] at houtcome
    exact ⟨_, houtcome, SymbolTable.addressOf?_of_insert ht⟩

theorem add_of_not_admits (h : ¬ m.Admits u) : ∃ e, (m.add input u).outcome = .error e := by
  cases hfind : m.table.find? u.name with
  | some first =>
    rw [add_of_find?_eq_some input hfind]
    refine ⟨_, if_neg fun haddress => h ⟨fun a ha => ?_, fun hnone => ?_⟩⟩
    · rw [SymbolTable.addressOf?, hfind] at ha
      exact (Option.some.inj ha).symm.trans haddress
    · rw [SymbolTable.addressOf?, hfind] at hnone
      cases hnone
  | none =>
    obtain ⟨t, -, houtcome⟩ := add_of_find?_eq_none input hfind
    rw [houtcome]
    refine ⟨_, if_neg fun hline => h ⟨fun a ha => ?_, fun _ => hline⟩⟩
    rw [SymbolTable.addressOf?, hfind] at ha
    cases ha

end Add

/-! ## All symbols of an input -/

theorem addressOf?_of_mem_tail {m m' : Merged} {u : Symbol} {us : List Symbol}
    (hnodup : ((u :: us).map Symbol.name).Nodup)
    (hm' : ∀ name, m'.table.addressOf? name = if u.name = name then some u.address
      else m.table.addressOf? name) {v : Symbol} (hv : v ∈ us) :
    m'.table.addressOf? v.name = m.table.addressOf? v.name := by
  have hne : u.name ≠ v.name := fun h =>
    (List.nodup_cons.mp hnodup).1 (h ▸ List.mem_map_of_mem hv)
  rw [hm', if_neg hne]

/-- A symbol that is folded in leaves it open whether those behind it can be. -/
theorem admits_iff_of_mem_tail {m m' : Merged} {u : Symbol} {us : List Symbol}
    (hnodup : ((u :: us).map Symbol.name).Nodup)
    (hm' : ∀ name, m'.table.addressOf? name = if u.name = name then some u.address
      else m.table.addressOf? name) {v : Symbol} (hv : v ∈ us) : m'.Admits v ↔ m.Admits v := by
  have hsame := addressOf?_of_mem_tail hnodup hm' hv
  constructor
  · exact fun h => ⟨hsame ▸ h.address, hsame ▸ h.line⟩
  · exact fun h => ⟨hsame ▸ h.address, hsame ▸ h.line⟩

/-- Symbols that can be folded in are, and the result is the union. -/
theorem addAll_of_admits {us : List Symbol} (hnodup : (us.map Symbol.name).Nodup) {m : Merged}
    (h : ∀ u ∈ us, m.Admits u) (input : String) :
    ∃ m', (m.addAll input us).outcome = .ok m' ∧ ∀ name a,
      m'.table.addressOf? name = some a
        ↔ m.table.addressOf? name = some a ∨ ∃ u ∈ us, u.name = name ∧ u.address = a := by
  induction us generalizing m with
  | nil => exact ⟨m, rfl, by simp⟩
  | cons u us ih =>
    obtain ⟨hu, hus⟩ := List.forall_mem_cons.mp h
    obtain ⟨m₁, hadd, hm₁⟩ := add_of_admits input hu
    obtain ⟨m', haddAll, hm'⟩ := ih (List.nodup_cons.mp hnodup).2 fun v hv =>
      (admits_iff_of_mem_tail hnodup hm₁ hv).mpr (hus v hv)
    refine ⟨m', ?_, fun name a => ?_⟩
    · rw [addAll, Logged.outcome_bind, hadd]
      exact haddAll
    · have hstep : m₁.table.addressOf? name = some a
          ↔ m.table.addressOf? name = some a ∨ (u.name = name ∧ u.address = a) := by
        rw [hm₁]
        split
        · rename_i hname
          subst hname
          rw [Option.some_inj]
          constructor
          · intro ha
            exact .inr ⟨rfl, ha⟩
          · rintro (ha | ⟨-, ha⟩)
            · exact (hu.address a ha).symm
            · exact ha
        · rename_i hname
          simp only [hname, false_and, or_false]
      rw [hm', hstep, or_assoc]
      simp only [List.mem_cons, exists_eq_or_imp]

/-- A symbol that cannot be folded in ends the merge. -/
theorem addAll_of_not_admits {us : List Symbol} (hnodup : (us.map Symbol.name).Nodup) {m : Merged}
    (h : ¬ ∀ u ∈ us, m.Admits u) (input : String) :
    ∃ e, (m.addAll input us).outcome = .error e := by
  induction us generalizing m with
  | nil => exact absurd (fun u hu => absurd hu List.not_mem_nil) h
  | cons u us ih =>
    by_cases hu : m.Admits u
    · -- The symbol is further on, and the head leaves it as it is.
      obtain ⟨m₁, hadd, hm₁⟩ := add_of_admits input hu
      have hrest : ¬ ∀ v ∈ us, m₁.Admits v := fun hrest =>
        h (List.forall_mem_cons.mpr ⟨hu, fun v hv =>
          (admits_iff_of_mem_tail hnodup hm₁ hv).mp (hrest v hv)⟩)
      obtain ⟨e, he⟩ := ih (List.nodup_cons.mp hnodup).2 hrest
      refine ⟨e, ?_⟩
      rw [addAll, Logged.outcome_bind, hadd]
      exact he
    · obtain ⟨e, he⟩ := add_of_not_admits input hu
      refine ⟨e, ?_⟩
      rw [addAll, Logged.outcome_bind, he]
      rfl

/-! ## Inputs with the same addresses -/

section SameAddresses

variable {m m' : Merged} {t t' : SymbolTable}

/-- Whether a table whose lines can be told can be folded in depends on its addresses alone. -/
theorem admits_iff (hnodup : t.NamesNodup)
    (hlines : ∀ u ∈ t.symbols, Text.isWritable u.line = true) :
    (∀ u ∈ t.symbols, m.Admits u) ↔ ∀ name a b,
      m.table.addressOf? name = some a → t.addressOf? name = some b → a = b := by
  constructor
  · intro h name a b ha hb
    obtain ⟨u, hu, rfl, rfl⟩ := (SymbolTable.addressOf?_eq_some_iff hnodup).mp hb
    exact (h u hu).address a ha
  · intro h u hu
    refine ⟨fun a ha => ?_, fun _ => hlines u hu⟩
    exact h u.name a u.address ha
      ((SymbolTable.addressOf?_eq_some_iff hnodup).mpr ⟨u, hu, rfl, rfl⟩)

theorem addAll_alike (hm : m.table.SameAddresses m'.table) (hnodup : t.NamesNodup)
    (hnodup' : t'.NamesNodup) (hlines : ∀ u ∈ t.symbols, Text.isWritable u.line = true)
    (hlines' : ∀ u ∈ t'.symbols, Text.isWritable u.line = true) (ht : t.SameAddresses t')
    (input input' : String) :
    Logged.Alike (fun n n' => n.table.SameAddresses n'.table)
      (m.addAll input t.symbols) (m'.addAll input' t'.symbols) := by
  have hadmits : (∀ u ∈ t.symbols, m.Admits u) ↔ ∀ u ∈ t'.symbols, m'.Admits u := by
    rw [admits_iff hnodup hlines, admits_iff hnodup' hlines']
    simp only [hm _, ht _]
  by_cases h : ∀ u ∈ t.symbols, m.Admits u
  · obtain ⟨n, hn, hmap⟩ := addAll_of_admits hnodup h input
    obtain ⟨n', hn', hmap'⟩ := addAll_of_admits hnodup' (hadmits.mp h) input'
    refine Logged.alike_of_ok hn hn' fun name => Option.ext fun a => ?_
    rw [hmap, hmap', hm, ← SymbolTable.addressOf?_eq_some_iff hnodup,
      ← SymbolTable.addressOf?_eq_some_iff hnodup', ht]
  · obtain ⟨e, he⟩ := addAll_of_not_admits hnodup h input
    obtain ⟨e', he'⟩ := addAll_of_not_admits hnodup' (fun h' => h (hadmits.mpr h')) input'
    exact Logged.alike_of_error he he'

end SameAddresses

end Merged

end Link

end Cross6502
