import Cross6502.Sidecar.Attach
import Cross6502.Proofs.Assembly.Produced

/-!
# What files keep of an object

An object is stored in two files: a flat file with the bytes of one segment, and a
sidecar with everything else.  Read back, it has that one segment.  The sidecar tells
where it belongs, and the references into it are renumbered.

Every list of segments can be cut at the one that is stored (`Flat.Cut`, `Flat.exists_cut`).

Of an object with bytes in at most one segment this loses nothing that matters.  The
segment with the bytes is the one that is stored, however many empty ones there are in
front of it or behind it (`Object.exists_lone`); an assembly puts references nowhere else
(`Object.Lone.index_eq`); and the sidecar gives the addresses of all names
(`sameAddresses_of_bare`).  What the object that comes back has in common with the
original is collected in `StandsFor`, and `Produced.exists_throughFiles` is the
main result.
-/

namespace Cross6502

open Sidecar

/-! ## The stored segment -/

namespace Flat

theorem findIdx?_reverse_of_forall {lengths : List Int} (h : ∀ n ∈ lengths, n = 0) :
    lengths.reverse.findIdx? (· ≠ 0) = none := by
  rw [List.findIdx?_eq_none_iff]
  intro n hn
  simp [h n (List.mem_reverse.mp hn)]

/-- The stored segment is the last one with bytes. -/
theorem storedIndex_append {front back : List Int} {n : Int} (hn : n ≠ 0)
    (hback : ∀ k ∈ back, k = 0) : storedIndex (front ++ n :: back) = front.length := by
  have hfind : (front ++ n :: back).reverse.findIdx? (· ≠ 0) = some back.length := by
    rw [List.reverse_append, List.reverse_cons, List.append_assoc, List.findIdx?_append,
      findIdx?_reverse_of_forall hback, List.singleton_append, List.findIdx?_cons]
    simp [hn]
  rw [storedIndex, hfind]
  simp only [List.length_append, List.length_cons]
  omega

/-- Without any bytes it is the last one of all. -/
theorem storedIndex_of_forall {front : List Int} (n : Int)
    (h : ∀ k ∈ front ++ [n], k = 0) : storedIndex (front ++ [n]) = front.length := by
  rw [storedIndex, findIdx?_reverse_of_forall h]
  simp only [List.length_append, List.length_singleton]
  omega

/-- Segments, cut at the one that a flat file holds: the last with bytes, or the last of all
if none has any. -/
structure Cut (segments front : List Segment) (g : Segment) (back : List Segment) : Prop where
  segments : segments = front ++ g :: back
  emptyBack : ∀ x ∈ back, x.data = []
  last : g.data = [] → back = [] ∧ ∀ x ∈ front, x.data = []

theorem exists_cut {segments : List Segment} (hne : segments ≠ []) :
    ∃ front g back, Cut segments front g back := by
  induction segments with
  | nil => exact absurd rfl hne
  | cons x xs ih =>
    by_cases hxs : xs = []
    · refine ⟨[], x, [], by rw [hxs]; rfl, ?_, fun _ => ⟨rfl, ?_⟩⟩
      · exact fun y hy => absurd hy List.not_mem_nil
      · exact fun y hy => absurd hy List.not_mem_nil
    · obtain ⟨front, g, back, hcut⟩ := ih hxs
      by_cases hg : g.data = []
      · -- All behind `x` is empty, so `x` is the one if it has bytes.
        obtain ⟨hback, hfront⟩ := hcut.last hg
        by_cases hx : x.data = []
        · refine ⟨x :: front, g, back, by rw [hcut.segments]; rfl, hcut.emptyBack,
            fun _ => ⟨hback, fun y hy => ?_⟩⟩
          rcases List.mem_cons.mp hy with rfl | hy
          · exact hx
          · exact hfront y hy
        · refine ⟨[], x, xs, rfl, fun y hy => ?_, fun h => absurd h hx⟩
          rw [hcut.segments, hback] at hy
          rcases List.mem_append.mp hy with hy | hy
          · exact hfront y hy
          · rw [List.mem_singleton.mp hy, hg]
      · exact ⟨x :: front, g, back, by rw [hcut.segments]; rfl, hcut.emptyBack,
          fun h => absurd h hg⟩

namespace Cut

variable {segments front back : List Segment} {g : Segment}

theorem getElem? (h : Cut segments front g back) : segments[front.length]? = some g := by
  simp [h.segments]

/-- The cut is where the lengths of the segments put it. -/
theorem storedIndex_eq (h : Cut segments front g back) :
    storedIndex (segments.map fun s => (s.size : Int)) = front.length := by
  have hsize : ∀ xs : List Segment, (∀ x ∈ xs, x.data = []) →
      ∀ n ∈ xs.map (fun s => (s.size : Int)), n = 0 := by
    intro xs hxs n hn
    obtain ⟨x, hx, rfl⟩ := List.mem_map.mp hn
    rw [Segment.size, hxs x hx]
    rfl
  by_cases hg : g.data = []
  · obtain ⟨hback, hfront⟩ := h.last hg
    have hall : ∀ x ∈ front ++ [g], x.data = [] := by
      intro x hx
      rcases List.mem_append.mp hx with hx | hx
      · exact hfront x hx
      · rw [List.mem_singleton.mp hx, hg]
    have hzero := hsize (front ++ [g]) hall
    rw [List.map_append, List.map_singleton] at hzero
    rw [h.segments, hback, List.map_append, List.map_singleton,
      storedIndex_of_forall _ hzero, List.length_map]
  · have hpos : (g.size : Int) ≠ 0 := by simpa [Segment.size] using hg
    rw [h.segments, List.map_append, List.map_cons,
      storedIndex_append hpos (hsize back h.emptyBack), List.length_map]

theorem stored_eq {o : Object} (h : Cut o.segments front g back) : stored o = g := by
  rw [stored, h.storedIndex_eq, itemAt?_natCast, h.getElem?, Option.getD_some]

end Cut

end Flat

namespace Object

/-- An object that has one segment `g` and empty ones around it, and `g` is the one that
a flat file holds. -/
structure Lone (o : Object) (front : List Segment) (g : Segment) (back : List Segment) :
    Prop where
  segments : o.segments = front ++ g :: back
  emptyFront : ∀ x ∈ front, x.data = []
  emptyBack : ∀ x ∈ back, x.data = []
  stored : Flat.storedIndex (o.segments.map fun s => (s.size : Int)) = front.length

/-- An object with bytes in at most one segment is of this kind. -/
theorem exists_lone {o : Object} (h : o.populated.length ≤ 1) :
    ∃ front g back, o.Lone front g back := by
  obtain ⟨front, g, back, hcut⟩ := Flat.exists_cut (List.cons_ne_nil o.first o.later)
  refine ⟨front, g, back, hcut.segments, fun x hx => ?_, hcut.emptyBack, hcut.storedIndex_eq⟩
  by_cases hg : g.data = []
  · exact (hcut.last hg).2 x hx
  · -- Next to `g`, one more with bytes would make two.
    by_contra hdata
    have hpair : [x, g].Sublist o.segments := by
      rw [segments, hcut.segments]
      exact (List.singleton_sublist.mpr hx).append
        (List.singleton_sublist.mpr (List.mem_cons_self (a := g) (l := back)))
    have hlength := (hpair.filter fun x => !x.isEmpty).length_le
    have hkept : [x, g].filter (fun x => !x.isEmpty) = [x, g] := by
      simp [Segment.isEmpty, hdata, hg]
    rw [hkept] at hlength
    exact absurd (Nat.le_trans hlength h) (by simp)

namespace Lone

variable {o : Object} {front back : List Segment} {g : Segment}

theorem getElem? (h : o.Lone front g back) : o.segments[front.length]? = some g := by
  rw [h.segments, List.getElem?_append_right (Nat.le_refl _), Nat.sub_self]
  rfl

/-- A segment with bytes is the lone one. -/
theorem index_eq (h : o.Lone front g back) {i : Nat} {x : Segment} (hx : o.segments[i]? = some x)
    (hdata : x.data ≠ []) : i = front.length := by
  rw [h.segments] at hx
  rcases Nat.lt_trichotomy i front.length with hlt | heq | hgt
  · rw [List.getElem?_append_left hlt] at hx
    exact absurd (h.emptyFront x (List.mem_of_getElem? hx)) hdata
  · exact heq
  · rw [List.getElem?_append_right (Nat.le_of_lt hgt), List.getElem?_cons,
      if_neg (by omega)] at hx
    exact absurd (h.emptyBack x (List.mem_of_getElem? hx)) hdata

theorem stored_eq (h : o.Lone front g back) : Flat.stored o = g := by
  rw [Flat.stored, h.stored, itemAt?_natCast, h.getElem?, Option.getD_some]

theorem bytes_eq (h : o.Lone front g back) : o.bytes = g.data := by
  have hnil : ∀ xs : List Segment, (∀ x ∈ xs, x.data = []) → xs.flatMap Segment.data = [] :=
    fun xs hxs => List.flatMap_eq_nil_iff.mpr hxs
  rw [bytes, h.segments, List.flatMap_append, List.flatMap_cons, hnil front h.emptyFront,
    hnil back h.emptyBack, List.nil_append, List.append_nil]

theorem populated_eq (h : o.Lone front g back) :
    o.populated = [g].filter fun x => !x.isEmpty := by
  have hnil : ∀ xs : List Segment, (∀ x ∈ xs, x.data = []) →
      xs.filter (fun x => !x.isEmpty) = [] := fun xs hxs => by
    rw [List.filter_eq_nil_iff]
    intro x hx
    simp [Segment.isEmpty, hxs x hx]
  rw [populated, h.segments, ← List.singleton_append, List.filter_append, List.filter_append,
    hnil front h.emptyFront, hnil back h.emptyBack, List.nil_append, List.append_nil]

end Lone

end Object

/-! ## Through the files and back -/

/-- Write an object to a flat file and a sidecar, and read it back from them. -/
def throughFiles (file : String) (o : Object) : Logged Object := do
  let bytes ← Flat.write o
  let t ← Logged.ofExcept (Sidecar.write o)
  let read ← Flat.read bytes
  let s ← Sidecar.read file t
  s.attach .flat read

theorem Flat.outcome_write (o : Object) : (Flat.write o).outcome = .ok (Flat.stored o).data := by
  rw [Flat.write]
  split
  · rfl
  · rfl

/-- Where the sidecar can be written and read, it is attached to the bytes of the stored
segment. -/
theorem outcome_throughFiles_of_read {file : String} {o : Object} {t : Text} {s : Sidecar}
    (hwrite : Sidecar.write o = .ok t) (hread : (Sidecar.read file t).outcome = .ok s) :
    (throughFiles file o).outcome
      = (s.attach .flat { first := { start := 0, data := (Flat.stored o).data } }).outcome := by
  rw [throughFiles, Logged.outcome_bind, Flat.outcome_write]
  simp only [Except.bind, Flat.read, Logged.outcome_bind, Logged.outcome_say,
    Logged.outcome_ofExcept, hwrite, hread]
  rfl

/-- An object with one segment that has in it all that the linker asks of another object:
the only segment with bytes, the references, which all lie in it, and a table with the
same addresses. -/
structure StandsFor (o o' : Object) (front : List Segment) (g : Segment) (back : List Segment)
    (t t' : SymbolTable) : Prop where
  lone : o.Lone front g back
  segments : o'.segments = [g]
  inside : ∀ r ∈ o.references, r.segment = front.length
  references : o'.references = o.references.map fun r => { r with segment := 0 }
  symbols : o.symbols = some t
  symbols' : o'.symbols = some t'
  nodup : t.NamesNodup
  nodup' : t'.NamesNodup
  line : ∀ u ∈ t.symbols, Text.isWritable u.line = true
  line' : ∀ u ∈ t'.symbols, Text.isWritable u.line = true
  same : t.SameAddresses t'

/-- A table of the same symbols without their values has the same addresses. -/
theorem sameAddresses_of_bare {t t' : SymbolTable} (hnodup : t.NamesNodup)
    (hnodup' : t'.NamesNodup) (h : ∀ v, v ∈ t'.symbols ↔ ∃ u ∈ t.symbols, v = bare u) :
    t.SameAddresses t' := by
  intro name
  refine Option.ext fun a => ?_
  rw [SymbolTable.addressOf?_eq_some_iff hnodup, SymbolTable.addressOf?_eq_some_iff hnodup']
  constructor
  · rintro ⟨u, hu, hname, haddress⟩
    exact ⟨bare u, (h _).mpr ⟨u, hu, rfl⟩, hname, haddress⟩
  · rintro ⟨v, hv, hname, haddress⟩
    obtain ⟨u, hu, rfl⟩ := (h v).mp hv
    exact ⟨u, hu, hname, haddress⟩

/-- A sidecar that lists the segments of an object takes what is in a flat file for the
segment that the file would hold.  It restores the references into that one and discards the
others. -/
theorem attach_flat_eq {o : Object} {s : Sidecar} (h : Writable o)
    (hsegments : s.segments = o.segments.mapIdx segmentEntry)
    (hreferences : s.references = o.references) {k : Nat} {g : Segment}
    (hstored : Flat.storedIndex (o.segments.map fun s => (s.size : Int)) = k)
    (hg : o.segments[k]? = some g) (read : Object) :
    s.attach .flat read
      = ⟨(o.references.filter fun r => r.segment != (k : Int)).map
            (fun r => Event.discarded r .flat) ++ [.restored k g.start],
          .ok { read with
            first := { read.first with start := g.start }
            symbols := some s.symbols
            references := (o.references.filter fun r => r.segment == (k : Int)).map
              fun r => { r with segment := 0 } }⟩ := by
  have hindex : s.storedIndex .flat = k := by
    have hlengths : s.segments.map SegmentEntry.length
        = o.segments.map fun x => (x.size : Int) := by
      refine List.ext_getElem? fun i => ?_
      rw [hsegments, List.getElem?_map, List.getElem?_mapIdx, List.getElem?_map, Option.map_map]
      rfl
    rw [storedIndex, hlengths, hstored]
  have hentry : itemAt? s.segments (s.storedIndex .flat) = some (segmentEntry k g) := by
    rw [hindex, itemAt?_natCast, hsegments, List.getElem?_mapIdx, hg]
    rfl
  have htold : ∀ e ∈ (o.references.filter fun r => r.segment != (k : Int)).map
      (fun r => Event.discarded r .flat), e.canBeTold = true := by
    intro e he
    obtain ⟨r, hr, rfl⟩ := List.mem_map.mp he
    exact h.canBeTold_discarded (List.mem_of_mem_filter hr) .flat
  rw [attach, if_neg (by decide)]
  simp only [hentry]
  rw [hindex, droppedReferences, keptReferences, hreferences, Logged.report_of_canBeTold htold]
  rfl

/-- Whichever bytes a flat file has, they are taken for those of the segment that it would
hold. -/
theorem attach_flat {o : Object} {s : Sidecar} (h : Writable o)
    (hsegments : s.segments = o.segments.mapIdx segmentEntry)
    (hreferences : s.references = o.references) {k : Nat} {g : Segment}
    (hstored : Flat.storedIndex (o.segments.map fun s => (s.size : Int)) = k)
    (hg : o.segments[k]? = some g) (data : List UInt8) :
    (s.attach .flat { first := { start := 0, data := data } }).outcome
      = .ok { first := { start := g.start, data := data }, symbols := some s.symbols
              references := (o.references.filter fun r => r.segment == (k : Int)).map
                fun r => { r with segment := 0 } } := by
  rw [attach_flat_eq h hsegments hreferences hstored hg]

/-- A sidecar that lists the segments of an object restores the lone one. -/
theorem attach_eq {o : Object} {front back : List Segment} {g : Segment} (h : o.Lone front g back)
    (hwritable : Writable o) (hinside : ∀ r ∈ o.references, r.segment = front.length) {s : Sidecar}
    (hsegments : s.segments = o.segments.mapIdx segmentEntry)
    (hreferences : s.references = o.references) :
    (s.attach .flat { first := { start := 0, data := g.data } }).outcome
      = .ok { first := g, symbols := some s.symbols
              references := o.references.map fun r => { r with segment := 0 } } := by
  have hkept : (o.references.filter fun r => r.segment == (front.length : Int)) = o.references := by
    rw [List.filter_eq_self]
    intro r hr
    simp [hinside r hr]
  rw [attach_flat hwritable hsegments hreferences h.stored h.getElem?, hkept]

/-- An assembled object with bytes in at most one segment comes back from its files as one
that stands for it. -/
theorem Assembly.Produced.exists_throughFiles {o : Object} {t : SymbolTable} {count : Nat}
    (h : Produced o t count) (hlimit : 3 * (count + 1) < Numeral.decimalLimit)
    (hsingle : o.populated.length ≤ 1) (file : String) :
    ∃ o', (throughFiles file o).outcome = .ok o'
      ∧ ∃ front g back t', StandsFor o o' front g back t t' := by
  obtain ⟨front, g, back, hlone⟩ := Object.exists_lone hsingle
  have hwritable := h.writable hlimit
  obtain ⟨s, hread, hsegments, hreferences, hnodup, hmem⟩ := read_write hwritable file
  have hinside : ∀ r ∈ o.references, r.segment = front.length := by
    intro r hr
    obtain ⟨-, i, offset, line, hi, -, -, -, -, x, hx, hdata⟩ := h.reference r hr
    rw [hi, hlone.index_eq hx hdata]
  have hline : ∀ u ∈ t.symbols, Text.isWritable u.line = true := by
    intro u hu
    refine Numeral.isWritable_iff.mpr (hwritable.symbol u ?_).2
    rwa [tableSymbols, h.symbols]
  have hline' : ∀ v ∈ s.symbols.symbols, Text.isWritable v.line = true := by
    intro v hv
    obtain ⟨u, hu, rfl⟩ := (hmem v).mp hv
    exact hwritable.line_listedSymbols (bare u) (List.mem_map_of_mem hu)
  have hsame : t.SameAddresses s.symbols := by
    refine sameAddresses_of_bare h.nodup hnodup fun v => ?_
    rw [hmem, listedSymbols, h.symbols]
    simp only [SymbolTable.byAddress, List.mem_mergeSort]
  refine ⟨{ first := g, symbols := some s.symbols
            references := o.references.map fun r => { r with segment := 0 } }, ?_,
    front, g, back, s.symbols, hlone, rfl, hinside, rfl, h.symbols, rfl, h.nodup, hnodup, hline,
    hline', hsame⟩
  rw [outcome_throughFiles_of_read hwritable.write_eq hread, hlone.stored_eq,
    attach_eq hlone hwritable hinside hsegments hreferences]

end Cross6502
