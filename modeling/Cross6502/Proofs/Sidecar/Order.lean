import Cross6502.Proofs.Sidecar.RoundTrip
import Cross6502.Proofs.Symbol.Ranking

/-!
# The order in which a sidecar gives symbols back

A sidecar lists symbols by address and line, and the table that is made of it puts longer
names in front.  Two sorts, one behind the other, and both are stable: listing keeps the
order of the table among symbols of one address and line, and adding keeps the order of
the list among names of one length.  So the table that comes back is ordered by length,
then by address, then by line, and what is still tied stands as it stood in the original
table.  Names are distinct, hence this determines the table.

That one symbol stands before another in a list is said by `[u, v].Sublist order`, as in
`Proofs.Symbol.Ranking`, which has the two sorts.  The main result is `read_write_restores`:
all that a sidecar gives back.
-/

namespace Cross6502

/-! ## Listing by address -/

/-- The order of a listing: by address, then by line. -/
def Symbol.listedBefore (u v : Symbol) : Bool :=
  u.address < v.address || (u.address == v.address && u.line ≤ v.line)

theorem Symbol.listedBefore_iff {u v : Symbol} : u.listedBefore v = true
    ↔ u.address < v.address ∨ u.address = v.address ∧ u.line ≤ v.line := by
  simp [Symbol.listedBefore]

theorem Symbol.listedBefore_trans (u v w : Symbol) (huv : u.listedBefore v = true)
    (hvw : v.listedBefore w = true) : u.listedBefore w = true := by
  rw [listedBefore_iff] at huv hvw ⊢
  omega

theorem Symbol.listedBefore_total (u v : Symbol) :
    (u.listedBefore v || v.listedBefore u) = true := by
  rw [Bool.or_eq_true, listedBefore_iff, listedBefore_iff]
  omega

namespace Sidecar

theorem map_bare_listedSymbols (o : Object) :
    (listedSymbols o).map bare = ((tableSymbols o).map bare).mergeSort Symbol.listedBefore := by
  have hlisted : listedSymbols o = (tableSymbols o).mergeSort Symbol.listedBefore := by
    rw [listedSymbols, tableSymbols]
    cases o.symbols with
    | none => rw [List.mergeSort_nil]
    | some t => rfl
  rw [hlisted]
  exact List.map_mergeSort fun u _ v _ => rfl

/-! ## What comes back -/

/-- Longer names first, names of one length by address and then by line, and what is still
tied as it stands in another list. -/
def Precedes (order : List Symbol) (u v : Symbol) : Prop :=
  v.name.length < u.name.length ∨ u.name.length = v.name.length
    ∧ (u.address < v.address ∨ u.address = v.address
      ∧ (u.line < v.line ∨ u.line = v.line ∧ [u, v].Sublist order))

theorem pairwise_precedes {us : List Symbol} (hnodup : us.Nodup) :
    (SymbolTable.insertAllByLength [] (us.mergeSort Symbol.listedBefore)).Pairwise
      (Precedes us) := by
  have hempty : SymbolTable.Ranked [] [] := ⟨by simp, List.Pairwise.nil⟩
  have hranked :=
    SymbolTable.ranked_insertAllByLength hempty (us.mergeSort Symbol.listedBefore)
  have hsorted :=
    pairwise_mergeSort_of_nodup Symbol.listedBefore_trans Symbol.listedBefore_total hnodup
  refine hranked.pairwise.imp fun {u v} huv => huv.imp_right fun ⟨hlength, hpair⟩ => ?_
  refine ⟨hlength, ?_⟩
  obtain ⟨hbefore, htied⟩ := List.pairwise_iff_forall_sublist.mp hsorted hpair
  rw [Symbol.listedBefore_iff] at hbefore htied
  rcases hbefore with haddress | ⟨haddress, hline⟩
  · exact .inl haddress
  · refine .inr ⟨haddress, ?_⟩
    rcases Int.lt_or_eq_of_le hline with hline | hline
    · exact .inl hline
    · exact .inr ⟨hline, htied (.inr ⟨haddress.symm, hline ▸ Int.le_refl _⟩)⟩

/-- A sidecar is written for an object and read, and gives back its segments, its
references and its symbols, the values of variables apart.  Names have to be words that do
not look like comments, and numbers written in decimal to have no more digits than are
read; signs do not matter, and neither does the size of addresses.  The symbols come back
ordered by length of name, address and line, and then as they were. -/
theorem read_write_restores {o : Object} (h : Writable o) (file : String) :
    ∃ t s, write o = .ok t ∧ (read file t).outcome = .ok s
      ∧ s.segments = o.segments.mapIdx segmentEntry
      ∧ s.references = o.references
      ∧ s.symbols.symbols.Perm ((tableSymbols o).map bare)
      ∧ s.symbols.symbols.Pairwise (Precedes ((tableSymbols o).map bare)) := by
  have hlisted := map_bare_listedSymbols o
  have hnodup : ((tableSymbols o).map bare).Nodup := by
    have hnames : (((tableSymbols o).map bare).map Symbol.name).Nodup := by
      rw [List.map_map]
      exact h.nodup
    exact hnames.of_map
  have hperm := SymbolTable.perm_insertAllByLength [] ((listedSymbols o).map bare)
  refine ⟨_, _, h.write_eq, read_write_eq h file, rfl, rfl, ?_, ?_⟩
  · rw [List.append_nil, hlisted] at hperm
    rw [hlisted]
    exact hperm.trans (List.mergeSort_perm _ _)
  · rw [hlisted]
    exact pairwise_precedes hnodup

/-- An object with numbers of either sign, a value that is lost, and a tie in its table. -/
def scattered : Object where
  first := ⟨-5, [0xEA]⟩
  later := [⟨0x12345, []⟩]
  symbols := some ⟨"a.s", [⟨"loop".toList, .label, 7, -3, none⟩,
    ⟨"pq".toList, .cell, 0x200, 2, some "5".toList⟩, ⟨"ab".toList, .label, 0x200, 2, none⟩,
    ⟨"zz".toList, .label, -1, 9, none⟩]⟩
  references := [⟨"far".toList, -1, -2, .relative, 4⟩]

theorem read_write_restores_scattered :
    Writable scattered ∧ ∃ t s, write scattered = .ok t ∧ (read "a.sym" t).outcome = .ok s
      ∧ s.segments = [⟨0, -5, 1⟩, ⟨1, 0x12345, 0⟩]
      ∧ s.references = [⟨"far".toList, -1, -2, .relative, 4⟩]
      ∧ s.symbols.symbols.Perm [⟨"loop".toList, .label, 7, -3, none⟩,
          ⟨"pq".toList, .cell, 0x200, 2, none⟩, ⟨"ab".toList, .label, 0x200, 2, none⟩,
          ⟨"zz".toList, .label, -1, 9, none⟩]
      ∧ s.symbols.symbols.Pairwise (Precedes [⟨"loop".toList, .label, 7, -3, none⟩,
          ⟨"pq".toList, .cell, 0x200, 2, none⟩, ⟨"ab".toList, .label, 0x200, 2, none⟩,
          ⟨"zz".toList, .label, -1, 9, none⟩]) := by
  have hname : ∀ name ∈ ["loop".toList, "pq".toList, "ab".toList, "zz".toList, "far".toList],
      IsEntryName name := by
    intro name hmem
    simp only [List.mem_cons, List.not_mem_nil, or_false] at hmem
    rcases hmem with rfl | rfl | rfl | rfl | rfl <;> exact ⟨⟨by decide, by decide⟩, by decide⟩
  have hline : ∀ n : Int, n.natAbs ≤ digitLimit → n.natAbs < Numeral.decimalLimit :=
    fun n hn => Numeral.lt_decimalLimit hn
  have hwritable : Writable scattered := by
    refine ⟨Numeral.lt_decimalLimit (by decide), fun g hg => ?_, fun u hu => ?_, by decide,
      fun r hr => ?_⟩
    · rcases List.mem_cons.mp hg with rfl | hg
      · exact Numeral.lt_decimalLimit (by decide)
      · rw [List.mem_singleton.mp hg]
        exact Numeral.lt_decimalLimit (by decide)
    · have hall : ∀ v ∈ tableSymbols scattered,
          v.name ∈ ["loop".toList, "pq".toList, "ab".toList, "zz".toList, "far".toList]
            ∧ v.line.natAbs ≤ digitLimit := by decide
      exact ⟨hname u.name (hall u hu).1, hline u.line (hall u hu).2⟩
    · rw [List.mem_singleton.mp hr]
      exact ⟨hname _ (by decide), hline _ (by decide), hline _ (by decide), hline _ (by decide)⟩
  exact ⟨hwritable, read_write_restores hwritable "a.sym"⟩

end Sidecar

end Cross6502
