import Cross6502.Files.Save
import Cross6502.Proofs.Files.Beside
import Cross6502.Proofs.Link.ThroughFiles
import Cross6502.Proofs.Text.Utf8

/-!
# First-segment files as inputs of a link

A first-segment file holds the first segment of an object, but nothing in it says so: when
the linker loads one without being told the format, it takes it for a flat file.  The
sidecar beside it lists all segments, and of these a flat file would hold the last that is
not empty.  So the bytes of the first segment get the start of that one and the references
into it (`linkInput_of_files`).

When is that right all the same?  If the two segments are one, of course.  If they are
not, both must start at one address and neither may have references, since no reference
into one is a reference into the other: an assembly records with each reference the line
it is on, and puts out the instruction on a line into one segment
(`Object.OneSegmentPerLine`).
-/

namespace Cross6502

open Sidecar

/-! ## References by line -/

/-- References on one line lie in one segment. -/
def Object.OneSegmentPerLine (o : Object) : Prop :=
  ∀ r ∈ o.references, ∀ r' ∈ o.references, r.line = r'.line → r.segment = r'.segment

namespace Emission

variable {c : Statement.Context} {number : Nat} {m m' : Emission}

/-- The references that the body of a line adds are on that line and in the current
segment. -/
theorem exists_references_of_body {body : Text} (hafter : BodyAfter c m number body m')
    (h : m.object.Orderly number m.current) :
    ∃ added, m'.object.references = m.object.references ++ added
      ∧ ∀ r ∈ added, r.line = number ∧ r.segment = m.current := by
  have hnone : m'.object.references = m.object.references →
      ∃ added, m'.object.references = m.object.references ++ added
        ∧ ∀ r ∈ added, r.line = number ∧ r.segment = m.current :=
    fun heq => ⟨[], by rw [heq, List.append_nil], fun r hr => absurd hr List.not_mem_nil⟩
  cases hafter with
  | nothing hbody hobject hcurrent hentries => exact hnone (by rw [hobject])
  | directive d hdot hd happly hentries =>
    rcases Directive.of_apply happly with ⟨argument, l, -, -, hobject, -⟩ | ⟨-, hobject, -⟩
      | ⟨argument, l, -, -, hextend, -⟩
    · exact hnone (by rw [hobject]; rfl)
    · exact hnone (by rw [hobject])
    · exact hnone (h.extend ⟨by simp, by simp⟩ hextend).2.1
  | instruction e pending o hbody hdot hassemble hextend hobject hcurrent hentries =>
    have hsame := (h.extend (Statement.of_assemble hassemble).1 hextend).2.1
    refine ⟨m.referencesOf number e pending, by rw [hobject, hsame], fun r hr => ?_⟩
    obtain ⟨x, -, rfl⟩ := List.mem_map.mp hr
    exact ⟨rfl, rfl⟩

theorem exists_references_of_step {raw : Text} (hstep : step c m number raw = (m', none))
    (hclean : m'.report.hasErrors = false) (h : m.object.Orderly number m.current) :
    ∃ added, m'.object.references = m.object.references ++ added
      ∧ ∀ r ∈ added, r.line = number ∧ r.segment = m.current := by
  rcases same_or_body_of_step hstep hclean with ⟨hobject, -, -⟩ | ⟨label, body, -, hbody⟩
  · exact ⟨[], by rw [hobject, List.append_nil], fun r hr => absurd hr List.not_mem_nil⟩
  · cases label with
    | none => exact exists_references_of_body hbody h
    | some name => exact exists_references_of_body (m := m.mark number (some name)) hbody h

/-- A line adds references on a line of its own. -/
theorem oneSegmentPerLine_step {raw : Text} (hstep : step c m number raw = (m', none))
    (hclean : m'.report.hasErrors = false) (h : m.object.Orderly number m.current)
    (hlines : m.object.OneSegmentPerLine) : m'.object.OneSegmentPerLine := by
  obtain ⟨added, hreferences, hadded⟩ := exists_references_of_step hstep hclean h
  have hbefore : ∀ r ∈ m.object.references, r.line ≠ number := by
    intro r hr
    obtain ⟨-, i, offset, line, -, -, hline, hlt, -⟩ := h.reference r hr
    omega
  intro r hr r' hr' heq
  rw [hreferences] at hr hr'
  rcases List.mem_append.mp hr with hr | hr <;> rcases List.mem_append.mp hr' with hr' | hr'
  · exact hlines r hr r' hr' heq
  · exact absurd (heq.trans (hadded r' hr').1) (hbefore r hr)
  · exact absurd (heq.symm.trans (hadded r hr).1) (hbefore r' hr')
  · rw [(hadded r hr).2, (hadded r' hr').2]

end Emission

theorem Assembly.oneSegmentPerLine_of_assemble {s : Settings} {allow : Bool} {file : String}
    {source : Text} {o : Object} (h : (assemble s allow file source).outcome = .ok o) :
    o.OneSegmentPerLine := by
  obtain ⟨d, m, -, hemit, -, hclean, hobject⟩ := exists_passes_of_assemble h
  have hinvariant : m.object.Orderly (1 + (Text.lines source).length) m.current
      ∧ m.object.OneSegmentPerLine :=
    Emission.invariant_of_run
      (I := fun number m => m.object.Orderly number m.current ∧ m.object.OneSegmentPerLine)
      (fun m number raw m' hstep hp hI => ⟨Emission.orderly_step hstep hp hI.1,
        Emission.oneSegmentPerLine_step hstep hp hI.1 hI.2⟩)
      hemit hclean ⟨.starting s.programStart, fun r hr => absurd hr List.not_mem_nil⟩
  subst hobject
  exact hinvariant.2

/-! ## The segment a flat file would hold -/

namespace Flat

/-- There is a segment at the index of the stored one. -/
theorem exists_storedIndex {lengths : List Int} (h : lengths ≠ []) :
    ∃ k : Nat, storedIndex lengths = k ∧ k < lengths.length := by
  have hpos := List.length_pos_of_ne_nil h
  rw [storedIndex]
  cases hfind : lengths.reverse.findIdx? (· ≠ 0) with
  | none => exact ⟨lengths.length - 1, by simp only; omega, by omega⟩
  | some j =>
    have hj : j < lengths.length := by
      rw [List.findIdx?_eq_some_iff_getElem] at hfind
      obtain ⟨hj, -⟩ := hfind
      rwa [List.length_reverse] at hj
    exact ⟨lengths.length - 1 - j, by simp only; omega, by omega⟩

/-- The first segment is stored if it is the only one, or has bytes and no other has. -/
theorem storedIndex_eq_zero_iff {n : Int} {later : List Int} :
    storedIndex (n :: later) = 0 ↔ later = [] ∨ n ≠ 0 ∧ ∀ m ∈ later, m = 0 := by
  rw [storedIndex, List.reverse_cons, List.findIdx?_append]
  cases hfind : later.reverse.findIdx? (· ≠ 0) with
  | some j =>
    -- a later segment has bytes
    rw [List.findIdx?_eq_some_iff_getElem] at hfind
    obtain ⟨hj, hne, -⟩ := hfind
    have hmem : later.reverse[j] ∈ later := List.mem_reverse.mp (List.getElem_mem hj)
    rw [List.length_reverse] at hj
    simp only [Option.some_or, List.length_cons]
    constructor
    · intro hzero
      omega
    · rintro (rfl | ⟨-, hall⟩)
      · cases hmem
      · simp [hall _ hmem] at hne
  | none =>
    have hall : ∀ m ∈ later, m = 0 := by
      intro m hm
      rw [List.findIdx?_eq_none_iff] at hfind
      simpa using hfind m (List.mem_reverse.mpr hm)
    by_cases hn : n = 0
    · simp [hn]
    · simpa [hn] using .inr hall

end Flat

namespace Object

/-- A flat file would hold the first segment: there is no other, or it has bytes and no
other has. -/
def KeepsFirst (o : Object) : Prop :=
  o.later = [] ∨ o.first.data ≠ [] ∧ ∀ g ∈ o.later, g.data = []

/-- The index of the segment that a flat file would hold. -/
def storedIndex (o : Object) : Int := Flat.storedIndex (o.segments.map fun s => (s.size : Int))

variable {o : Object}

theorem storedIndex_eq_zero_iff : o.storedIndex = 0 ↔ o.KeepsFirst := by
  rw [storedIndex, segments, List.map_cons, Flat.storedIndex_eq_zero_iff, KeepsFirst]
  simp [Segment.size]

theorem exists_stored (o : Object) :
    ∃ k : Nat, o.storedIndex = k ∧ o.segments[k]? = some (Flat.stored o) := by
  have hne : (o.segments.map fun s => (s.size : Int)) ≠ [] := by simp [segments]
  obtain ⟨k, hk, hlt⟩ := Flat.exists_storedIndex hne
  rw [List.length_map] at hlt
  obtain ⟨g, hg⟩ := exists_getElem?_of_lt hlt
  refine ⟨k, hk, ?_⟩
  rw [Flat.stored, hk, itemAt?_natCast, hg, Option.getD_some]

/-- The references into a segment, numbered as if it were the first. -/
def referencesInto (o : Object) (k : Int) : List Reference :=
  (o.references.filter fun r => r.segment == k).map fun r => { r with segment := 0 }

theorem referencesInto_zero (o : Object) :
    o.referencesInto 0 = o.references.filter fun r => r.segment == 0 := by
  rw [referencesInto]
  refine (List.map_congr_left fun r hr => ?_).trans (List.map_id _)
  have hzero : r.segment = 0 := by simpa using (List.mem_filter.mp hr).2
  rw [← hzero]
  rfl

/-- The references into two segments are alike only if there are none. -/
theorem OneSegmentPerLine.referencesInto_eq_iff (h : o.OneSegmentPerLine) {k : Int} (hk : k ≠ 0) :
    o.referencesInto k = (o.references.filter fun r => r.segment == 0)
      ↔ ∀ r ∈ o.references, r.segment ≠ 0 ∧ r.segment ≠ k := by
  constructor
  · intro heq r hr
    have hboth : ∀ r' ∈ o.references, r'.segment ≠ k := by
      intro r' hr' hsegment
      -- the image of such a reference would be one into the first segment, on the same line
      have hmem : { r' with segment := 0 } ∈ o.references.filter fun r => r.segment == 0 := by
        rw [← heq, referencesInto]
        exact List.mem_map.mpr ⟨r', List.mem_filter.mpr ⟨hr', by simp [hsegment]⟩, rfl⟩
      have hsame := h _ (List.mem_filter.mp hmem).1 r' hr' rfl
      exact hk (hsegment.symm.trans hsame.symm)
    refine ⟨fun hzero => ?_, hboth r hr⟩
    have hmem : r ∈ o.references.filter fun r => r.segment == 0 :=
      List.mem_filter.mpr ⟨hr, by simp [hzero]⟩
    rw [← heq, referencesInto] at hmem
    obtain ⟨r', hr', -⟩ := List.mem_map.mp hmem
    obtain ⟨hr', hsegment⟩ := List.mem_filter.mp hr'
    exact hboth r' hr' (by simpa using hsegment)
  · intro hnone
    rw [referencesInto, List.filter_eq_nil_iff.mpr, List.filter_eq_nil_iff.mpr, List.map_nil]
    · intro r hr
      simp [(hnone r hr).1]
    · intro r hr
      simp [(hnone r hr).2]

/-- Taken for the stored segment, the first one keeps its start and its references if it
is the stored one, or if the two start together and neither has references. -/
theorem OneSegmentPerLine.restores_first_iff (h : o.OneSegmentPerLine) :
    ((Flat.stored o).start = o.first.start
        ∧ o.referencesInto o.storedIndex = o.references.filter fun r => r.segment == 0)
      ↔ o.KeepsFirst ∨ (Flat.stored o).start = o.first.start
        ∧ ∀ r ∈ o.references, r.segment ≠ 0 ∧ r.segment ≠ o.storedIndex := by
  by_cases hzero : o.storedIndex = 0
  · obtain ⟨k, hk, hstored⟩ := o.exists_stored
    have hfirst : Flat.stored o = o.first := by
      have hk : k = 0 := by omega
      rw [hk] at hstored
      exact (Option.some.inj hstored).symm
    rw [hfirst, hzero, referencesInto_zero]
    simp [storedIndex_eq_zero_iff.mp hzero]
  · rw [h.referencesInto_eq_iff hzero, or_iff_right (mt storedIndex_eq_zero_iff.mpr hzero)]

end Object

/-! ## Loading -/

namespace Load

section Files

variable {o : Object} {d : Directory} {path : Text} {beside : Path} {bytes : List UInt8}

/-- A sidecar comes back from its file. -/
theorem outcome_sidecar (h : Writable o)
    (hsidecar : d.readAt path = .ok (Utf8.encode (Sidecar.text o))) :
    (sidecar d path).outcome = (Sidecar.read (String.ofList path) (Sidecar.text o)).outcome := by
  rw [sidecar, Logged.outcome_bind, Logged.outcome_ofExcept, hsidecar]
  simp only [Except.bind, sidecarOfBytes, Utf8.decode_encode,
    Text.unifyBreaks_of_forall_ne h.ne_return]

theorem outcome_withSidecar (format : Format) (read : Object) {s : Sidecar}
    (hbeside : (Path.ofText path).sidecar = .ok beside)
    (hhas : d.has beside = .ok true) (hread : (sidecar d beside.text).outcome = .ok s) :
    (withSidecar d path format read).outcome
      = (s.attach format read).outcome.map fun o => (o, some beside) := by
  simp only [withSidecar, Logged.outcome_bind, Logged.outcome_ofExcept, hbeside, Except.bind,
    hhas, if_true, hread]
  rfl

/-- An input of a link that does not begin like a cartridge image is taken for a flat
file. -/
theorem outcome_linkInput (hmagic : Cartridge.hasMagic bytes = false)
    (hobject : d.readAt path = .ok bytes) {o' : Object}
    (hwith : (withSidecar d path .flat { first := { start := 0, data := bytes } }).outcome
      = .ok (o', some beside)) :
    (linkInput d path none).outcome = .ok o' := by
  have hdetect : formatOf none bytes = .flat := by
    rw [formatOf, Option.getD_none, Stored.detect, hmagic]
    rfl
  have hread : (Stored.readAs .flat bytes).outcome
      = .ok ({ first := { start := 0, data := bytes } }, none) := rfl
  have hcode : ∀ read : Object, code .flat read = read := fun read => rfl
  simp only [linkInput, Logged.outcome_bind, Logged.outcome_ofExcept,
    hobject, Except.bind, hdetect, hread, hcode, hwith]
  rfl

/-- With a sidecar beside it, it becomes the segment that a flat file would hold. -/
theorem linkInput_of_files (h : Writable o) (hmagic : Cartridge.hasMagic bytes = false)
    (hbeside : (Path.ofText path).sidecar = .ok beside) (hobject : d.readAt path = .ok bytes)
    (hsidecar : d.readAt beside.text = .ok (Utf8.encode (Sidecar.text o))) :
    ∃ o', (linkInput d path none).outcome = .ok o'
      ∧ o'.first = ⟨(Flat.stored o).start, bytes⟩
      ∧ o'.references = o.referencesInto o.storedIndex := by
  obtain ⟨k, hk, hg⟩ := o.exists_stored
  obtain ⟨s, hread, hsegments, hreferences, -⟩ := read_write h (String.ofList beside.text)
  have hattach := attach_flat h hsegments hreferences hk hg bytes
  have hwith := outcome_withSidecar .flat { first := { start := 0, data := bytes } } hbeside
    (Directory.has_of_readAt hsidecar) ((outcome_sidecar h hsidecar).trans hread)
  rw [hattach] at hwith
  refine ⟨_, outcome_linkInput hmagic hobject hwith, rfl, ?_⟩
  rw [hk]
  rfl

end Files

end Load

theorem Link.Compiled.writable {o : Object} (h : Compiled o) : Writable o := by
  obtain ⟨s, file, source, hlimit, hassemble⟩ := h
  obtain ⟨table, hproduced⟩ := Assembly.produced_of_assemble hassemble
  exact hproduced.writable hlimit

theorem Link.Compiled.oneSegmentPerLine {o : Object} (h : Compiled o) : o.OneSegmentPerLine := by
  obtain ⟨s, file, source, -, hassemble⟩ := h
  exact Assembly.oneSegmentPerLine_of_assemble hassemble

theorem Save.writeAt_of_object {d d' : Directory} {path : Text} {o : Object} {count : Nat}
    (h : (Save.object d path .firstSegment o).outcome = .ok (d', count)) :
    d.writeAt path o.first.data = .ok d' := by
  have hwrite : (Stored.write .firstSegment o).outcome = .ok o.first.data := rfl
  rw [Save.object] at h
  simp only [hwrite] at h
  split at h
  · cases h
  · cases h
    assumption

/-- **First-segment files in a link.**  The first segment of a compiled object is written to
a file that is not named like a sidecar, and the object's sidecar beside it.  Loaded as an
input of a link, the file has the bytes of the segment.  It has also its start and its
references exactly if a flat file would hold this segment too, or if the segment that a flat
file would hold starts at the same address and neither has references. -/
theorem linkInput_firstSegment_iff {o : Object} (hcompiled : Link.Compiled o)
    (hmagic : Cartridge.hasMagic o.first.data = false) {d d₁ d₂ : Directory} {path : Text}
    {beside : Path} {count : Nat}
    (hobject : (Save.object d path .firstSegment o).outcome = .ok (d₁, count))
    (hbeside : (Path.ofText path).sidecar = .ok beside)
    (hname : beside ≠ Path.ofText path)
    (hsidecar : Save.text d₁ beside.text (Sidecar.text o) = .ok d₂) :
    ∃ o', (Load.linkInput d₂ path none).outcome = .ok o' ∧ o'.first.data = o.first.data
      ∧ ((o'.first.start = o.first.start
            ∧ o'.references = o.references.filter fun r => r.segment == 0)
          ↔ o.KeepsFirst ∨ (Flat.stored o).start = o.first.start
            ∧ ∀ r ∈ o.references, r.segment ≠ 0 ∧ r.segment ≠ o.storedIndex) := by
  have hwrite := Save.writeAt_of_object hobject
  obtain ⟨place, hplace⟩ := Directory.exists_placeOf_of_writeAt hwrite
  have hapart : d₁.placeOf path ≠ d₁.placeOf beside.text := by
    rw [hplace]
    exact (Directory.placeOf_sidecar_ne hbeside hname hplace).symm
  have hread : d₂.readAt path = .ok o.first.data :=
    Directory.readAt_of_writeAt_of_ne hsidecar hapart (Directory.readAt_of_writeAt hwrite)
  obtain ⟨o', hload, hfirst, hreferences⟩ := Load.linkInput_of_files
    hcompiled.writable hmagic hbeside hread (Directory.readAt_of_writeAt hsidecar)
  refine ⟨o', hload, by rw [hfirst], ?_⟩
  rw [hfirst, hreferences]
  exact hcompiled.oneSegmentPerLine.restores_first_iff

/-- A call of a routine elsewhere, and a segment with other code. -/
def callAnd (code : List UInt8) : Object where
  first := ⟨0, [0x20, 0, 0]⟩
  later := [⟨0x8000, code⟩]
  references := [⟨"far".toList, 0, 1, .absolute, 1⟩]
  symbols := some ⟨"prog.s", []⟩

/-- A directory with the bytes of the call. -/
def callFile : Directory where
  entries := [(["prog.o".toList], .file [0x20, 0, 0])]

/-- The directory with a sidecar beside them. -/
def callFiles (o : Object) : Directory :=
  callFile.put ["prog.sym".toList] (.file (Utf8.encode (Sidecar.text o)))

/-- Behind the call there is a segment without bytes. -/
theorem linkInput_firstSegment_iff_call :
    ∃ o', (Load.linkInput (callFiles (callAnd [])) "prog.o".toList none).outcome = .ok o'
      ∧ o'.first.start = 0 ∧ o'.references = [⟨"far".toList, 0, 1, .absolute, 1⟩] := by
  have hcompiled : Link.Compiled (callAnd []) :=
    ⟨{}, "prog.s", " jsr far\n .org $8000".toList, Numeral.lt_decimalLimit (by decide), rfl⟩
  have hobject : (Save.object {} "prog.o".toList .firstSegment (callAnd [])).outcome
      = .ok (callFile, 3) := rfl
  have hbeside : (Path.ofText "prog.o".toList).sidecar = .ok { parts := ["prog.sym".toList] } :=
    rfl
  have hsidecar : Save.text callFile "prog.sym".toList (Sidecar.text (callAnd []))
      = .ok (callFiles (callAnd [])) := rfl
  obtain ⟨o', hload, -, hiff⟩ :=
    linkInput_firstSegment_iff hcompiled (by decide) hobject hbeside (by decide) hsidecar
  have hrestored := hiff.mpr (.inl (.inr ⟨by decide, by decide⟩))
  exact ⟨o', hload, hrestored.1, hrestored.2⟩

/-- Behind the call there is an instruction.  The call is loaded at the address of that
instruction, and its reference is lost. -/
theorem call_loaded_at_other_segment :
    Link.Compiled (callAnd [0xEA])
      ∧ (Save.object {} "prog.o".toList .firstSegment (callAnd [0xEA])).outcome = .ok (callFile, 3)
      ∧ Save.text callFile "prog.sym".toList (Sidecar.text (callAnd [0xEA]))
        = .ok (callFiles (callAnd [0xEA]))
      ∧ ∃ o', (Load.linkInput (callFiles (callAnd [0xEA])) "prog.o".toList none).outcome = .ok o'
        ∧ o'.first = ⟨0x8000, [0x20, 0, 0]⟩ ∧ o'.references = [] := by
  have hcompiled : Link.Compiled (callAnd [0xEA]) :=
    ⟨{}, "prog.s", " jsr far\n .org $8000\n nop".toList, Numeral.lt_decimalLimit (by decide), rfl⟩
  have hbeside : (Path.ofText "prog.o".toList).sidecar = .ok { parts := ["prog.sym".toList] } :=
    rfl
  have hread : (callFiles (callAnd [0xEA])).readAt "prog.o".toList = .ok [0x20, 0, 0] := rfl
  obtain ⟨o', hload, hfirst, hreferences⟩ :=
    Load.linkInput_of_files hcompiled.writable (by decide) hbeside hread rfl
  exact ⟨hcompiled, rfl, rfl, o', hload, hfirst, hreferences⟩

end Cross6502
