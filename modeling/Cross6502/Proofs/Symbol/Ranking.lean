import Cross6502.Proofs.Symbol.Table
import Mathlib.Data.List.Sort

/-!
# The order of a symbol table

Adding a symbol puts it in front of the first shorter name.  Done again and again, this is a
sort by descending length that leaves names of one length in the order in which they were
added.  That one symbol stands before another in a list is said by `[u, v].Sublist order`.

* `pairwise_mergeSort_of_nodup`: what a sort of a list without duplicates leaves tied
  keeps its order.
* `ranked_insertAllByLength`: the same for adding to a table.
* `eq_mergeSort_of_ranked`: so the table is the sort of what was added.
-/

namespace Cross6502

/-! ## Pairs in lists -/

section Pairs

variable {α : Type} {a b : α} {l : List α}

/-- Of two members, one stands before the other. -/
theorem pair_sublist_or (ha : a ∈ l) (hb : b ∈ l) (hne : a ≠ b) :
    [a, b].Sublist l ∨ [b, a].Sublist l := by
  obtain ⟨front, back, rfl⟩ := List.append_of_mem ha
  rcases List.mem_append.mp hb with hb | hb
  · have hpair := (List.singleton_sublist.mpr hb).append
      (List.singleton_sublist.mpr (List.mem_cons_self (a := a) (l := back)))
    exact .inr hpair
  · have hb : b ∈ back := (List.mem_cons.mp hb).resolve_left hne.symm
    have hpair := ((List.singleton_sublist.mpr hb).cons_cons a).trans
      (List.sublist_append_right front (a :: back))
    exact .inl hpair

/-- Without duplicates, only one of them does. -/
theorem not_pair_sublist_swap (hnodup : l.Nodup) (hab : [a, b].Sublist l) :
    ¬ [b, a].Sublist l := by
  induction l with
  | nil => exact fun h => by cases h
  | cons c l ih =>
    obtain ⟨hc, hnodup⟩ := List.nodup_cons.mp hnodup
    intro hba
    cases hab with
    | cons _ hab =>
      cases hba with
      | cons _ hba => exact ih hnodup hab hba
      | cons_cons _ _ => exact hc (hab.subset (by simp))
    | cons_cons _ _ =>
      cases hba with
      | cons _ hba => exact hc (hba.subset (by simp))
      | cons_cons _ hba => exact hc (List.singleton_sublist.mp hba)

/-- A sort leaves tied members in the order it found them in. -/
theorem pairwise_mergeSort_of_nodup {le : α → α → Bool}
    (htrans : ∀ a b c, le a b = true → le b c = true → le a c = true)
    (htotal : ∀ a b, (le a b || le b a) = true) (hnodup : l.Nodup) :
    (l.mergeSort le).Pairwise fun a b => le a b = true
      ∧ (le b a = true → [a, b].Sublist l) := by
  have hsorted := List.pairwise_mergeSort htrans htotal l
  have hperm := List.mergeSort_perm l le
  have hnodup' := hperm.nodup_iff.mpr hnodup
  refine List.pairwise_iff_forall_sublist.mpr fun {a b} hab =>
    ⟨List.pairwise_iff_forall_sublist.mp hsorted hab, fun hle => ?_⟩
  have hne : a ≠ b := by
    have hpair := hnodup'.sublist hab
    simpa using hpair
  have ha : a ∈ l := hperm.mem_iff.mp (hab.subset (by simp))
  have hb : b ∈ l := hperm.mem_iff.mp (hab.subset (by simp))
  -- Standing the other way round before, they would still do so after a stable sort.
  rcases pair_sublist_or ha hb hne with h | h
  · exact h
  · exact absurd (List.pair_sublist_mergeSort htrans htotal hle h)
      (not_pair_sublist_swap hnodup' hab)

end Pairs

/-! ## Adding to a table -/

namespace SymbolTable

/-- A list of symbols in which longer names stand in front, and names of one length as they
stand in another list. -/
structure Ranked (order listed : List Symbol) : Prop where
  mem : ∀ u ∈ listed, u ∈ order
  pairwise : listed.Pairwise fun u v => v.name.length < u.name.length
    ∨ u.name.length = v.name.length ∧ [u, v].Sublist order

/-- A symbol goes behind all names of its length and in front of all shorter ones. -/
theorem exists_append_of_ranked (s : Symbol) {order listed : List Symbol}
    (h : Ranked order listed) :
    ∃ above below, listed = above ++ below ∧ insertByLength s listed = above ++ s :: below
      ∧ (∀ u ∈ above, s.name.length ≤ u.name.length)
      ∧ ∀ v ∈ below, v.name.length < s.name.length := by
  induction listed with
  | nil => exact ⟨[], [], rfl, rfl, by simp, by simp⟩
  | cons u us ih =>
    obtain ⟨hhead, htail⟩ := List.pairwise_cons.mp h.pairwise
    rw [insertByLength]
    by_cases hshorter : u.name.length < s.name.length
    · refine ⟨[], u :: us, rfl, by rw [if_pos hshorter]; rfl, by simp, fun v hv => ?_⟩
      rcases List.mem_cons.mp hv with rfl | hv
      · exact hshorter
      · rcases hhead v hv with hlt | ⟨heq, -⟩
        · omega
        · omega
    · obtain ⟨above, below, hus, hinsert, habove, hbelow⟩ :=
        ih ⟨fun v hv => h.mem v (List.mem_cons_of_mem u hv), htail⟩
      refine ⟨u :: above, below, by rw [hus]; rfl, by rw [if_neg hshorter, hinsert]; rfl,
        fun v hv => ?_, hbelow⟩
      rcases List.mem_cons.mp hv with rfl | hv
      · omega
      · exact habove v hv

theorem ranked_insertByLength (s : Symbol) {order listed : List Symbol}
    (h : Ranked order listed) : Ranked (order ++ [s]) (insertByLength s listed) := by
  refine ⟨fun u hu => ?_, ?_⟩
  · rcases mem_insertByLength.mp hu with rfl | hu
    · exact List.mem_append_right order List.mem_cons_self
    · exact List.mem_append_left [s] (h.mem u hu)
  · obtain ⟨above, below, hlisted, hinsert, habove, hbelow⟩ := exists_append_of_ranked s h
    have hold : (above ++ below).Pairwise fun u v => v.name.length < u.name.length
        ∨ u.name.length = v.name.length ∧ [u, v].Sublist (order ++ [s]) := by
      rw [← hlisted]
      refine h.pairwise.imp fun huv => huv.imp_right fun ⟨heq, hpair⟩ => ⟨heq, ?_⟩
      exact hpair.trans (List.sublist_append_left order [s])
    obtain ⟨hfront, hback, hacross⟩ := List.pairwise_append.mp hold
    rw [hinsert]
    refine List.pairwise_append.mpr
      ⟨hfront, List.pairwise_cons.mpr ⟨?_, hback⟩, fun u hu v hv => ?_⟩
    · exact fun v hv => .inl (hbelow v hv)
    · rcases List.mem_cons.mp hv with rfl | hv
      · -- The new symbol is the last of the order, so all others come before it there.
        have hmem : u ∈ order := h.mem u (hlisted ▸ List.mem_append_left below hu)
        have hpair : [u, v].Sublist (order ++ [v]) :=
          (List.singleton_sublist.mpr hmem).append (List.Sublist.refl [v])
        have hle := habove u hu
        rcases Nat.lt_or_eq_of_le hle with hlt | heq
        · exact .inl hlt
        · exact .inr ⟨heq.symm, hpair⟩
      · exact hacross u hu v hv

theorem ranked_insertAllByLength {order listed : List Symbol} (h : Ranked order listed)
    (us : List Symbol) : Ranked (order ++ us) (insertAllByLength listed us) := by
  induction us generalizing order listed with
  | nil =>
    rw [List.append_nil]
    exact h
  | cons s us ih =>
    have hnext := ih (ranked_insertByLength s h)
    rw [List.append_assoc] at hnext
    exact hnext

/-- The order of a table: a name goes in front of those that are no longer than it. -/
def goesBefore (u v : Symbol) : Bool := v.name.length ≤ u.name.length

theorem goesBefore_iff {u v : Symbol} :
    goesBefore u v = true ↔ v.name.length ≤ u.name.length := decide_eq_true_iff

/-- Length, and the order of adding among names of one length, determine the table. -/
theorem eq_mergeSort_of_ranked {order listed : List Symbol} (hnodup : order.Nodup)
    (hperm : listed.Perm order) (h : Ranked order listed) :
    listed = order.mergeSort goesBefore := by
  have htrans : ∀ u v w, goesBefore u v = true → goesBefore v w = true →
      goesBefore u w = true := by
    intro u v w huv hvw
    rw [goesBefore_iff] at huv hvw ⊢
    omega
  have htotal : ∀ u v, (goesBefore u v || goesBefore v u) = true := by
    intro u v
    rw [Bool.or_eq_true, goesBefore_iff, goesBefore_iff]
    omega
  refine List.Perm.eq_of_pairwise ?_ h.pairwise ?_ (hperm.trans (List.mergeSort_perm _ _).symm)
  · intro u v _ _ huv hvu
    rcases huv with huv | ⟨heq, huv⟩
    · rcases hvu with hvu | ⟨hvu, -⟩ <;> omega
    · rcases hvu with hvu | ⟨-, hvu⟩
      · omega
      · exact absurd hvu (not_pair_sublist_swap hnodup huv)
  · refine (pairwise_mergeSort_of_nodup htrans htotal hnodup).imp fun {u v} ⟨hle, htied⟩ => ?_
    rw [goesBefore_iff] at hle htied
    rcases Nat.lt_or_eq_of_le hle with hlt | heq
    · exact .inl hlt
    · exact .inr ⟨heq.symm, htied (Nat.le_of_eq heq.symm)⟩

end SymbolTable

end Cross6502
