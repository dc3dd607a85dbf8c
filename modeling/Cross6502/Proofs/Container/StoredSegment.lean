import Cross6502.Proofs.Container.ReadBack

/-!
# The segment that a flat file keeps

Writing and attaching choose the segment to keep apart from each other: the one looks at the
segments, the other at the lengths that the sidecar lists.  They have to agree for every
mixture of segments with and without bytes, or references end up in bytes that they were not
made for.

They do.  What comes back is the last segment with bytes, the references into it, and no
others.  Every reference that is left behind is reported, and besides the loss of segments
nothing else is: reading a sidecar warns of nothing (`Sidecar.warnings_readLines`).
-/

namespace Cross6502

/-- The warnings in a log. -/
def Logged.warnings {α : Type} (x : Logged α) : List Event := x.log.filter Event.isWarning

open Sidecar

/-! ## Who warns -/

theorem Flat.warnings_write (o : Object) :
    (Flat.write o).warnings = if 1 < o.populated.length then [.segmentsLost] else [] := by
  rw [Flat.write]
  split
  · rfl
  · rfl

namespace Sidecar

theorem warnings_insert (s : Sidecar) (entry : Entry) : (insert s entry).warnings = [] := by
  cases entry with
  | segment e => rfl
  | reference r => rfl
  | symbol u =>
    have hadd : (s.symbols.add u).logged.warnings = [] := by
      rw [SymbolTable.add]
      split
      · rfl
      · split <;> rfl
    exact Logged.filter_log_bind_eq_nil hadd fun _ => rfl

/-- All that is logged about lines is which symbols they add. -/
theorem warnings_readLines (file : String) (number : Nat) (current : Option Section)
    (s : Sidecar) (ls : List Text) : (readLines file number current s ls).warnings = [] := by
  induction ls generalizing number current s with
  | nil => rfl
  | cons raw rest ih =>
    simp only [readLines]
    split
    · exact ih _ _ _
    · split
      · exact ih _ _ _
      · split
        · rfl
        · exact Logged.filter_log_bind_eq_nil (warnings_insert s _) fun s' => ih _ _ s'

theorem warnings_read (file : String) (t : Text) : (read file t).warnings = [] :=
  warnings_readLines file 1 none _ _

end Sidecar

/-! ## The segment, its references and the warnings -/

theorem warnings_throughFiles_of_read {file : String} {o : Object} {t : Text} {s : Sidecar}
    (hwrite : write o = .ok t) (hread : (read file t).outcome = .ok s) :
    (throughFiles file o).warnings
      = (Flat.write o).warnings
        ++ (s.attach .flat { first := { start := 0, data := (Flat.stored o).data } }).warnings := by
  have hflat : (Flat.read (Flat.stored o).data).outcome
      = .ok { first := { start := 0, data := (Flat.stored o).data } } := rfl
  have hquiet := warnings_read file t
  rw [Logged.warnings] at hquiet
  rw [Logged.warnings, throughFiles, Logged.filter_log_bind_of_ok _ (Flat.outcome_write o),
    Logged.filter_log_bind_of_ok _ ((Logged.outcome_ofExcept _).trans hwrite),
    Logged.filter_log_bind_of_ok _ hflat, Logged.filter_log_bind_of_ok _ hread, hquiet]
  rfl

/-- An object that is written to a flat file and a sidecar and read back from them has one
segment, the last that had bytes, or the last of all if none had any.  It has the references
into this segment, in their order, and the symbols, the values of variables apart.  Each
other reference is reported, behind a warning if there was more than one segment with
bytes. -/
theorem throughFiles_restores_stored {o : Object} (h : Writable o) (file : String) :
    ∃ front g back table, Flat.Cut o.segments front g back
      ∧ (throughFiles file o).outcome = .ok
          { first := g, symbols := some table
            references := (o.references.filter fun r => r.segment == (front.length : Int)).map
              fun r => { r with segment := 0 } }
      ∧ (table.NamesNodup ∧ ∀ v, v ∈ table.symbols ↔ ∃ u ∈ tableSymbols o, v = bare u)
      ∧ (throughFiles file o).warnings
          = (if 1 < o.populated.length then [.segmentsLost] else [])
            ++ (o.references.filter fun r => r.segment != (front.length : Int)).map
                fun r => Event.discarded r .flat := by
  obtain ⟨front, g, back, hcut⟩ := Flat.exists_cut (List.cons_ne_nil o.first o.later)
  obtain ⟨s, hread, hsegments, hreferences, hnodup, hmem⟩ := read_write h file
  have hattach := attach_flat_eq h hsegments hreferences hcut.storedIndex_eq hcut.getElem?
    { first := { start := 0, data := g.data } }
  have houtcome := outcome_throughFiles_of_read h.write_eq hread
  have hwarnings := warnings_throughFiles_of_read h.write_eq hread
  rw [hcut.stored_eq, hattach] at houtcome hwarnings
  refine ⟨front, g, back, s.symbols, hcut, houtcome, ⟨hnodup, fun v => ?_⟩, ?_⟩
  · simp only [hmem, (perm_listedSymbols o).mem_iff]
  · -- That the address was restored is told and no warning.
    have hdiscarded : ∀ rs : List Reference,
        (rs.map fun r => Event.discarded r .flat).filter Event.isWarning
          = rs.map fun r => Event.discarded r .flat := by
      intro rs
      refine List.filter_eq_self.mpr fun e he => ?_
      obtain ⟨r, -, rfl⟩ := List.mem_map.mp he
      rfl
    rw [hwarnings, Flat.warnings_write, Logged.warnings, List.filter_append, hdiscarded]
    simp [Event.isWarning]

/-- Segments with bytes in two of four, the last of which is empty, and references into three
of them. -/
def fourSegments : Object where
  first := ⟨0x100, [0xEA]⟩
  later := [⟨0x200, []⟩, ⟨0x8000, [0x20, 0, 0]⟩, ⟨0x9000, []⟩]
  references := [⟨"near".toList, 0, 0, .immediate, 1⟩, ⟨"far".toList, 2, 1, .absolute, 4⟩,
    ⟨"gone".toList, 3, 0, .absolute, 5⟩]

theorem throughFiles_restores_stored_fourSegments :
    Writable fourSegments ∧ ∃ table, (throughFiles "a.sym" fourSegments).outcome = .ok
        { first := ⟨0x8000, [0x20, 0, 0]⟩, symbols := some table
          references := [⟨"far".toList, 0, 1, .absolute, 4⟩] }
      ∧ (throughFiles "a.sym" fourSegments).warnings
        = [.segmentsLost, .discarded ⟨"near".toList, 0, 0, .immediate, 1⟩ .flat,
          .discarded ⟨"gone".toList, 3, 0, .absolute, 5⟩ .flat] := by
  have hwritable : Writable fourSegments := by
    have hsize : ∀ g ∈ fourSegments.segments, g.size ≤ digitLimit := by decide
    have hreference : ∀ r ∈ fourSegments.references,
        r.name ∈ ["near".toList, "far".toList, "gone".toList]
          ∧ r.segment.natAbs ≤ digitLimit ∧ r.offset.natAbs ≤ digitLimit
          ∧ r.line.natAbs ≤ digitLimit := by decide
    have hname : ∀ name ∈ ["near".toList, "far".toList, "gone".toList], IsEntryName name := by
      intro name hmem
      simp only [List.mem_cons, List.not_mem_nil, or_false] at hmem
      rcases hmem with rfl | rfl | rfl <;> exact ⟨⟨by decide, by decide⟩, by decide⟩
    refine ⟨Numeral.lt_decimalLimit (by decide), fun g hg => Numeral.lt_decimalLimit (hsize g hg),
      fun u hu => absurd hu List.not_mem_nil, by decide, fun r hr => ?_⟩
    obtain ⟨hmem, hsegment, hoffset, hline⟩ := hreference r hr
    exact ⟨hname r.name hmem, Numeral.lt_decimalLimit hsegment, Numeral.lt_decimalLimit hoffset,
      Numeral.lt_decimalLimit hline⟩
  obtain ⟨front, g, back, table, hcut, houtcome, -, hwarnings⟩ :=
    throughFiles_restores_stored hwritable "a.sym"
  have hlength : front.length = 2 := by
    have hindex : Flat.storedIndex (fourSegments.segments.map fun s => (s.size : Int)) = 2 := by
      decide
    have hfront := hcut.storedIndex_eq
    omega
  have hg := hcut.getElem?
  rw [hlength] at houtcome hwarnings hg
  rw [← Option.some_inj.mp hg] at houtcome
  exact ⟨hwritable, table, houtcome, hwarnings⟩

/-- A call of another name, on the first line whose number is too long to be written. -/
def farCall : Object where
  first := ⟨0x8000, [0x20, 0, 0]⟩
  references := [⟨"far".toList, 0, 1, .absolute, Numeral.decimalLimit⟩]

/-- The name can stand in a sidecar, and the sidecar is not written. -/
theorem throughFiles_farCall :
    (∀ r ∈ farCall.references, IsEntryName r.name)
      ∧ (throughFiles "a.sym" farCall).outcome = .error (.value .tooLongToWrite) := by
  constructor
  · intro r hr
    rw [List.mem_singleton.mp hr]
    exact ⟨⟨by decide, by decide⟩, by decide⟩
  · have hwrite : write farCall = .error (.value .tooLongToWrite) := by
      refine if_neg fun hall => ?_
      have hline := List.all_eq_true.mp hall Numeral.decimalLimit (by
        exact List.mem_cons_of_mem _ (List.mem_cons_of_mem _ List.mem_cons_self))
      rw [Numeral.isWritable_decimalLimit] at hline
      cases hline
    rw [throughFiles, Logged.outcome_bind, Flat.outcome_write]
    simp only [Except.bind, Logged.outcome_bind, Logged.outcome_ofExcept, hwrite]

end Cross6502
