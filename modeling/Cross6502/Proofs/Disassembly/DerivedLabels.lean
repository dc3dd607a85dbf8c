import Cross6502.Disassembly.Labels
import Cross6502.Proofs.Symbol.Table
import Cross6502.Proofs.Text.Digits

/-!
# The labels a disassembly makes up

A fresh disassembler makes up a label for every target that begins an instruction.
Since the labels are numbered and a number is never used twice, no label is refused,
and the table that results is as good as a list of addresses: every label in it marks
the beginning of an instruction, and no two places share a name (`Labelling`).
-/

namespace Cross6502

namespace Disassembler

theorem labelName_inj {k l : Nat} (h : labelName k = labelName l) : k = l :=
  Text.decimal_natCast_inj (List.append_cancel_left h)

/-- A table of made-up labels with numbers below the next one, for some of the
addresses given. -/
structure Derived (starts : List Int) (d : Disassembler) : Prop where
  shape : ∀ u ∈ d.symbols.symbols, ∃ k a, k < d.nextLabel ∧ a ∈ starts
    ∧ u = Symbol.ofLabel (labelName k) a 0
  nodup : d.symbols.NamesNodup

theorem derived_default (starts : List Int) : Derived starts {} where
  shape u hu := by cases hu
  nodup := List.nodup_nil

section Step

variable {starts : List Int} {d : Disassembler}

theorem Derived.find?_next (h : Derived starts d) :
    d.symbols.find? (labelName d.nextLabel) = none := by
  rw [SymbolTable.find?, List.find?_eq_none]
  intro u hu hname
  obtain ⟨k, a, hk, -, rfl⟩ := h.shape u hu
  have heq : labelName k = labelName d.nextLabel := by simpa [Symbol.ofLabel] using hname
  exact absurd (labelName_inj heq) (by omega)

/-- One more label. -/
theorem Derived.add (h : Derived starts d) {target : Int} (ht : target ∈ starts)
    {table : SymbolTable}
    (hadd : d.symbols.insert (.ofLabel (labelName d.nextLabel) target 0) = .ok table) :
    Derived starts { d with nextLabel := d.nextLabel + 1, symbols := table } where
  shape u hu := by
    rcases (SymbolTable.mem_symbols_of_insert hadd).mp hu with rfl | hu
    · exact ⟨d.nextLabel, target, Nat.lt_succ_self _, ht, rfl⟩
    · obtain ⟨k, a, hk, ha, hu⟩ := h.shape u hu
      exact ⟨k, a, Nat.lt_succ_of_lt hk, ha, hu⟩
  nodup := SymbolTable.namesNodup_of_insert hadd h.nodup

/-- A label is missing where control passes to the beginning of an instruction that has
none. -/
theorem missingLabel?_eq_some_iff {s : Site} {target : Int} :
    d.missingLabel? starts s = some target
      ↔ target? s = some target ∧ target ∈ starts ∧ d.symbols.labelAt? target = none := by
  rw [missingLabel?]
  cases htarget : target? s with
  | none => simp
  | some a =>
    simp only [Option.ite_none_right_eq_some, Option.some.injEq, Bool.and_eq_true,
      List.contains_iff_mem, Option.isNone_iff_eq_none]
    constructor
    · rintro ⟨⟨hmem, hnone⟩, rfl⟩
      exact ⟨rfl, hmem, hnone⟩
    · rintro ⟨rfl, hmem, hnone⟩
      exact ⟨⟨hmem, hnone⟩, rfl⟩

/-- A label that is missing is put into the table, and the next one has the next number. -/
theorem deriveFrom_of_missing {s : Site} {rest : List Site} {target : Int} {table : SymbolTable}
    {r : Derivation} (hmissing : d.missingLabel? starts s = some target)
    (hadd : d.symbols.insert (.ofLabel (labelName d.nextLabel) target 0) = .ok table)
    (hrest : deriveFrom starts { symbols := table, nextLabel := d.nextLabel + 1 } rest = r) :
    deriveFrom starts d (s :: rest)
      = { r with
          added := .ofLabel (labelName d.nextLabel) target 0 :: r.added
          log := .added (.ofLabel (labelName d.nextLabel) target 0)
            :: .synthesized (labelName d.nextLabel) target :: r.log } := by
  have hline : Text.isWritable 0 = true := by decide
  rw [deriveFrom, hmissing]
  simp only [SymbolTable.add_of_insert hadd hline, hrest]
  rfl

/-- Deriving labels never fails, and uses at most one number for each instruction. -/
theorem deriveFrom_spec (h : Derived starts d) (sites : List Site) :
    (deriveFrom starts d sites).failure = none
      ∧ Derived starts (deriveFrom starts d sites).disassembler
      ∧ (deriveFrom starts d sites).disassembler.nextLabel ≤ d.nextLabel + sites.length := by
  induction sites generalizing d with
  | nil => exact ⟨rfl, h, Nat.le_refl _⟩
  | cons s rest ih =>
    cases hmissing : d.missingLabel? starts s with
    | none =>
      obtain ⟨hfailure, hderived, hnext⟩ := ih h
      rw [deriveFrom, hmissing, List.length_cons]
      exact ⟨hfailure, hderived, Nat.le_trans hnext (by omega)⟩
    | some target =>
      obtain ⟨table, hadd⟩ := SymbolTable.insert_of_find?_eq_none
        (s := .ofLabel (labelName d.nextLabel) target 0) h.find?_next
      have hmem := (missingLabel?_eq_some_iff.mp hmissing).2.1
      obtain ⟨hfailure, hderived, hnext⟩ := ih (h.add hmem hadd)
      rw [deriveFrom_of_missing hmissing hadd rfl, List.length_cons]
      exact ⟨hfailure, hderived, Nat.le_trans hnext (Nat.le_of_eq (Nat.succ_add_eq_add_succ _ _))⟩

end Step

/-- A table whose labels mark beginnings of instructions, are numbered, and are told
apart by their names. -/
structure Labelling (table : SymbolTable) (sites : List Site) : Prop where
  shape : ∀ a name, table.labelAt? a = some name →
    (∃ k, k ≤ sites.length ∧ name = labelName k) ∧ ∃ s ∈ sites, s.address = a
  unique : ∀ a b name, table.labelAt? a = some name → table.labelAt? b = some name → a = b

theorem exists_of_labelAt? {table : SymbolTable} {a : Int} {name : Text}
    (h : table.labelAt? a = some name) : ∃ u ∈ table.symbols, u.address = a ∧ u.name = name := by
  obtain ⟨u, hu, rfl⟩ := Option.map_eq_some_iff.mp h
  refine ⟨u, List.mem_of_find?_eq_some hu, ?_, rfl⟩
  have hcond := List.find?_some hu
  rw [Bool.and_eq_true, beq_iff_eq] at hcond
  exact hcond.1

/-- The labels that a fresh disassembler derives for an object that lies inside the
address space. -/
theorem labelling_derive {o : Object}
    (hrange : ∀ s ∈ sites o, 0 ≤ s.address ∧ s.address < 65536) :
    (derive {} o).failure = none ∧ Labelling (derive {} o).disassembler.symbols (sites o) := by
  obtain ⟨hfailure, hderived, hnext⟩ :=
    deriveFrom_spec (derived_default ((sites o).map Site.address)) (sites o)
  refine ⟨hfailure, ?_, ?_⟩
  · intro a name h
    obtain ⟨u, hu, haddress, hname⟩ := exists_of_labelAt? h
    obtain ⟨k, a', hk, ha', rfl⟩ := hderived.shape u hu
    obtain ⟨s, hs, rfl⟩ := List.mem_map.mp ha'
    have hwrap : s.address % 65536 = s.address := by
      have := hrange s hs
      omega
    have heq : s.address = a := hwrap.symm.trans haddress
    refine ⟨⟨k, ?_, hname.symm⟩, s, hs, heq⟩
    change _ ≤ 1 + _ at hnext
    omega
  · intro a b name ha hb
    obtain ⟨u, hu, rfl, hname⟩ := exists_of_labelAt? ha
    obtain ⟨v, hv, rfl, hname'⟩ := exists_of_labelAt? hb
    rw [SymbolTable.eq_of_mem_of_name_eq hderived.nodup hu hv (hname.trans hname'.symm)]

end Disassembler

end Cross6502
