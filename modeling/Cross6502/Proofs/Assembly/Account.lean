import Cross6502.Proofs.Assembly.Steps
import Cross6502.Proofs.Object.Segments

/-!
# The account of an assembly

The account of an assembly has an entry for all bytes that are put out, and the entry says to
which segment they went.  There are two ways for bytes to get into a segment, and they are entered
differently: an instruction before it is put out, with the address that it will have, and a byte of
a directive afterwards, as the last byte of the segment.  Either way the entry is what was put
behind the segment and the address where the segment ended (`directiveEntry_byte`), so the entries
of a segment stay a gapless account of it however the segments take turns (`Accounted`).
-/

namespace Cross6502

/-! ## Records of a segment -/

/-- The address and the bytes of an entry, if bytes went to the segment. -/
def ListingEntry.record? (segment : Int) : ListingEntry → Option (Int × List UInt8)
  | .code i address bytes _ _ => if i = segment then some (address, bytes) else none
  | _ => none

/-- What an account says about a segment, in order. -/
def records (segment : Int) (entries : List ListingEntry) : List (Int × List UInt8) :=
  entries.filterMap (ListingEntry.record? segment)

theorem records_append_singleton (segment : Int) (entries : List ListingEntry)
    (e : ListingEntry) :
    records segment (entries ++ [e]) = records segment entries ++ (e.record? segment).toList := by
  rw [records, List.filterMap_append]
  show records segment entries ++ _ = _
  rw [List.filterMap_cons]
  cases e.record? segment <;> rfl

/-- Records that together are the bytes of a segment, each at the address where those before it
end. -/
structure Segment.Recorded (g : Segment) (records : List (Int × List UInt8)) : Prop where
  data_eq : records.flatMap Prod.snd = g.data
  address_eq : ∀ before address bytes after, records = before ++ (address, bytes) :: after →
    address = g.start + (before.flatMap Prod.snd).length

theorem Segment.recorded_empty (start : Int) : Segment.Recorded { start := start } [] where
  data_eq := rfl
  address_eq before address bytes after h := absurd h (by simp)

/-- Bytes put behind a segment are recorded at its end. -/
theorem Segment.Recorded.append {g : Segment} {records : List (Int × List UInt8)}
    (h : g.Recorded records) (bytes : List UInt8) :
    (g.append bytes).Recorded (records ++ [(g.finish, bytes)]) where
  data_eq := by
    rw [List.flatMap_append, h.data_eq, List.flatMap_singleton, Segment.data_append]
  address_eq before address bytes' after heq := by
    rw [Segment.start_append]
    rcases List.eq_nil_or_concat after with rfl | ⟨after, last, rfl⟩
    · obtain ⟨rfl, hlast⟩ := List.append_inj' heq rfl
      cases hlast
      rw [h.data_eq, Segment.finish]
    · rw [List.concat_eq_append, ← List.cons_append, ← List.append_assoc] at heq
      exact h.address_eq before address bytes' after (List.append_inj' heq rfl).1

/-! ## The invariant -/

/-- An object with its account so far: the current segment exists, the records of every segment
are gapless, and there are none of anything else. -/
structure Accounted (o : Object) (current : Int) (entries : List ListingEntry) : Prop where
  inside : ∃ n : Nat, current = n ∧ n < o.segments.length
  recorded : ∀ (j : Nat) (g : Segment), o.segments[j]? = some g → g.Recorded (records j entries)
  outside : ∀ i, records i entries ≠ [] → ∃ n : Nat, i = n ∧ n < o.segments.length

namespace Accounted

variable {o o' : Object} {current : Int} {entries : List ListingEntry}

theorem starting (start : Int) : Accounted (.starting start) 0 [] where
  inside := ⟨0, rfl, Nat.zero_lt_one⟩
  recorded j g hg := by
    rw [Object.segments_starting] at hg
    rw [List.mem_singleton.mp (List.mem_of_getElem? hg)]
    exact Segment.recorded_empty start
  outside i hi := absurd rfl hi

/-- An entry without bytes changes nothing. -/
theorem record (h : Accounted o current entries) {e : ListingEntry}
    (he : ∀ i, e.record? i = none) : Accounted o current (entries ++ [e]) := by
  have hrecords : ∀ i, records i (entries ++ [e]) = records i entries := by
    intro i
    rw [records_append_singleton, he, Option.toList_none, List.append_nil]
  refine ⟨h.inside, fun j g hg => ?_, fun i hi => ?_⟩
  · rw [hrecords]
    exact h.recorded j g hg
  · rw [hrecords] at hi
    exact h.outside i hi

/-- The segment that is current. -/
theorem exists_segment (h : Accounted o current entries) :
    ∃ (n : Nat) (g : Segment), current = n ∧ o.segments[n]? = some g := by
  obtain ⟨n, hn, hlt⟩ := h.inside
  obtain ⟨g, hg⟩ := Object.exists_getElem?_of_lt hlt
  exact ⟨n, g, hn, hg⟩

/-- Bytes are put behind the current segment, and the entry has its end for their address. -/
theorem extend (h : Accounted o current entries) {g : Segment} {bytes : List UInt8}
    (hg : o.segmentAt? current = some g) (hextend : o.extend current bytes = .ok o')
    (line : Nat) (source : Text) :
    Accounted o' current (entries ++ [.code current g.finish bytes line source]) := by
  obtain ⟨n, rfl, hn⟩ := h.inside
  rw [Object.segmentAt?_natCast] at hg
  rw [Object.extend_natCast hn] at hextend
  cases hextend
  refine ⟨⟨n, rfl, by rwa [Object.length_modifySegment]⟩, ?_, ?_⟩
  · intro j g' hg'
    rw [Object.getElem?_modifySegment, Option.map_eq_some_iff] at hg'
    obtain ⟨g₀, hg₀, rfl⟩ := hg'
    rw [records_append_singleton, ListingEntry.record?]
    by_cases hj : n = j
    · subst hj
      obtain rfl : g = g₀ := Option.some_inj.mp (hg.symm.trans hg₀)
      rw [if_pos rfl, if_pos rfl, Option.toList_some]
      exact (h.recorded n g hg).append bytes
    · rw [if_neg hj, if_neg (by omega), Option.toList_none, List.append_nil]
      exact h.recorded j g₀ hg₀
  · intro i hi
    rw [Object.length_modifySegment]
    by_cases hcurrent : (n : Int) = i
    · exact ⟨n, hcurrent.symm, hn⟩
    · rw [records_append_singleton, ListingEntry.record?, if_neg hcurrent, Option.toList_none,
        List.append_nil] at hi
      exact h.outside i hi

/-- A new segment has no records, since there was none of its index. -/
theorem addSegment (h : Accounted o current entries) (start : Int) :
    Accounted (o.addSegment start) o.segments.length entries where
  inside := ⟨o.segments.length, rfl, by rw [Object.length_addSegment]; omega⟩
  recorded j g hg := by
    rw [Object.segments_addSegment] at hg
    by_cases hj : j < o.segments.length
    · rw [List.getElem?_append_left hj] at hg
      exact h.recorded j g hg
    · have hnone : records j entries = [] := Decidable.byContradiction fun hsome => by
        obtain ⟨n, hn, hlt⟩ := h.outside j hsome
        omega
      rw [List.getElem?_append_right (by omega)] at hg
      rw [hnone, List.mem_singleton.mp (List.mem_of_getElem? hg)]
      exact Segment.recorded_empty _
  outside i hi := by
    obtain ⟨n, hn, hlt⟩ := h.outside i hi
    exact ⟨n, hn, by rw [Object.length_addSegment]; omega⟩

theorem toFirst (h : Accounted o current entries) : Accounted o 0 entries :=
  ⟨⟨0, rfl, o.length_segments_pos⟩, h.recorded, h.outside⟩

end Accounted

/-! ## The second pass -/

namespace Emission

variable {c : Statement.Context} {m m' : Emission} {number : Nat}

/-- The invariant of the second pass. -/
def IsAccounted (m : Emission) : Prop := Accounted m.object m.current m.entries

theorem IsAccounted.segmentAt?_eq (h : m.IsAccounted) :
    m.object.segmentAt? m.current = some m.segment := by
  obtain ⟨n, g, hn, hg⟩ := h.exists_segment
  rw [segment, hn, Object.segmentAt?_natCast, hg]
  rfl

theorem isAccounted_mark (h : m.IsAccounted) (label : Option Text) :
    (m.mark number label).IsAccounted := by
  cases label with
  | none => exact h
  | some name => exact h.record fun _ => rfl

/-- The last byte of a segment is the one that was put behind it, at the address where the segment
ended before. -/
theorem directiveEntry_byte {b : UInt8} (h : m.IsAccounted)
    (hextend : m.object.extend m.current [b] = .ok m'.object) (hcurrent : m'.current = m.current)
    (argument body : Text) :
    m'.directiveEntry number body (.byte argument)
      = .code m.current m.segment.finish [b] number body := by
  have hsegment : m'.segment = m.segment.append [b] := by
    obtain ⟨n, hn, hlt⟩ := h.inside
    have hg := h.segmentAt?_eq
    rw [hn, Object.extend_natCast hlt, Except.ok.injEq] at hextend
    rw [hn, Object.segmentAt?_natCast] at hg
    rw [segment, hcurrent, hn, ← hextend, Object.segmentAt?_natCast,
      Object.getElem?_modifySegment, hg, Option.map_some, if_pos rfl]
    rfl
  have hsize : (m.segment.append [b]).size - 1 = m.segment.data.length := by
    rw [Segment.size_append]
    rfl
  rw [directiveEntry, hsegment, hcurrent, Segment.finish_append, hsize, Segment.data_append,
    List.drop_left, List.length_singleton, Int.natCast_one, Int.add_sub_cancel]

theorem isAccounted_body {body : Text} (hafter : BodyAfter c m number body m')
    (h : m.IsAccounted) : m'.IsAccounted := by
  unfold IsAccounted
  cases hafter with
  | nothing hbody hobject hcurrent hentries =>
    rw [hobject, hcurrent, hentries]
    exact h
  | directive d hdot hd happly hentries =>
    rw [hentries]
    rcases Directive.of_apply happly with ⟨argument, l, rfl, -, hobject, hcurrent⟩
      | ⟨rfl, hobject, hcurrent⟩ | ⟨argument, l, rfl, -, hextend, hcurrent⟩
    · rw [hobject, hcurrent]
      exact (h.addSegment _).record fun _ => rfl
    · rw [hobject, hcurrent]
      exact h.toFirst.record fun _ => rfl
    · rw [directiveEntry_byte h hextend hcurrent, hcurrent]
      exact h.extend h.segmentAt?_eq hextend number body
  | instruction e pending o hbody hdot hassemble hextend hobject hcurrent hentries =>
    rw [hobject, hcurrent, hentries]
    -- References are no part of what is accounted for.
    have hput := h.extend h.segmentAt?_eq hextend number body
    exact ⟨hput.inside, hput.recorded, hput.outside⟩

theorem isAccounted_step {raw : Text} (hstep : step c m number raw = (m', none))
    (hclean : m'.report.hasErrors = false) (h : m.IsAccounted) : m'.IsAccounted := by
  rcases same_or_body_of_step hstep hclean with ⟨hobject, hcurrent, hentries⟩
    | ⟨label, body, -, hbody⟩
  · unfold IsAccounted
    rw [hobject, hcurrent, hentries]
    exact h
  · exact isAccounted_body hbody (isAccounted_mark h label)

end Emission

namespace Assembly

variable {s : Settings} {allow : Bool} {file : String} {source : Text}

theorem accounted_of_failure_eq_none (h : (ofSource s allow file source).failure = none) :
    ∃ current, Accounted (ofSource s allow file source).object current
      (ofSource s allow file source).entries := by
  obtain ⟨d, m, -, hemit, -, hclean, -, hentries, hobject⟩ := exists_passes h
  have hm : m.IsAccounted :=
    Emission.invariant_of_run (I := fun _ m => m.IsAccounted)
      (fun _ _ _ _ hstep hok h => Emission.isAccounted_step hstep hok h) hemit hclean
      (.starting s.programStart)
  rw [hentries, hobject]
  exact ⟨m.current, hm.inside, hm.recorded, hm.outside⟩

/-- **The account has every byte.**  When a source assembles, the bytes recorded for a segment, one
record after the other, are the bytes of the segment, and each record has the address at which the
records of the segment before it end.  No bytes are recorded for anything but a segment. -/
theorem account_has_every_byte (h : (ofSource s allow file source).failure = none) :
    (∀ (j : Nat) (g : Segment), (ofSource s allow file source).object.segments[j]? = some g →
        (records j (ofSource s allow file source).entries).flatMap Prod.snd = g.data
          ∧ ∀ before address bytes after,
            records j (ofSource s allow file source).entries = before ++ (address, bytes) :: after →
            address = g.start + (before.flatMap Prod.snd).length)
      ∧ ∀ (i : Int) address bytes line text,
        .code i address bytes line text ∈ (ofSource s allow file source).entries →
        ∃ j : Nat, i = j ∧ j < (ofSource s allow file source).object.segments.length := by
  obtain ⟨current, haccounted⟩ := accounted_of_failure_eq_none h
  constructor
  · intro j g hg
    have hrecorded := haccounted.recorded j g hg
    exact ⟨hrecorded.data_eq, hrecorded.address_eq⟩
  · intro i address bytes line text hmem
    refine haccounted.outside i (List.ne_nil_of_mem (a := (address, bytes)) ?_)
    exact List.mem_filterMap.mpr ⟨_, hmem, if_pos rfl⟩

/-- Two segments that take turns, each with an instruction and a byte. -/
def turnsSource : Text :=
  " lda #1\n .org $9000\nfar: .byte 7\n .end\n .byte $ff\n .org $9100\n jmp far\n".toList

/-- The byte of the first segment stands behind its instruction, though another segment was
current in between. -/
theorem account_has_every_byte_turnsSource :
    (ofSource {} false "<input>" turnsSource).failure = none
      ∧ records 0 (ofSource {} false "<input>" turnsSource).entries
        = [(0, [0xa9, 1]), (2, [0xff])]
      ∧ ∃ g, (ofSource {} false "<input>" turnsSource).object.segments[0]? = some g
        ∧ g.data = [0xa9, 1, 0xff] := by
  have hfailure : (ofSource {} false "<input>" turnsSource).failure = none := by
    decide
  have hrecords : records 0 (ofSource {} false "<input>" turnsSource).entries
      = [(0, [0xa9, 1]), (2, [0xff])] := by
    decide
  obtain ⟨g, hg⟩ := Object.exists_getElem?_of_lt
    (ofSource {} false "<input>" turnsSource).object.length_segments_pos
  have hdata := ((account_has_every_byte hfailure).1 0 g hg).1
  rw [Int.natCast_zero, hrecords] at hdata
  exact ⟨hfailure, hrecords, g, hg, hdata.symm⟩

end Assembly

end Cross6502
