import Cross6502.Proofs.Assembly.Steps
import Cross6502.Proofs.Object.Segments
import Cross6502.Proofs.Symbol.Table
import Mathlib.Algebra.Ring.Int.Defs

/-!
# How far the passes drift apart

The first pass gives a label the address that the next byte would have if every
instruction took the room its text promises.  The second pass reaches the label where
the bytes really end.  Nothing forces the two to be the same place: the first pass
reads an operand before names are replaced and sums folded, the second after, and a
sum of two narrow literals can come out wide.

What does hold is an exact account.  Every stretch of bytes in the account of an
assembly has a *slack*, the room that was set aside less the bytes that were put out,
and the *drift* of a segment is the sum of its slacks.  The two passes keep the same
segments with the same starts, and at every line the layout of the first pass is
longer than the object of the second by exactly the drift (`Aligned`).  So a label's
address in the table is the address at which it is reached plus the drift of its
segment up to there, and the passes agree on a label exactly when that drift vanishes
modulo `2 ^ 16`.
-/

namespace Cross6502

/-! ## Slack and drift -/

/-- The room that the first pass sets aside for a line that puts out bytes: one byte
for a directive, the length of the effective mode for an instruction. -/
def reservedRoom (source : Text) : Nat :=
  if source.head? = some '.' then 1
  else
    match Line.effectiveMode source with
    | .ok mode => mode.length
    | .error _ => 0

/-- The room set aside less the bytes put out, for bytes in the given segment. -/
def ListingEntry.slack (segment : Int) : ListingEntry → Int
  | .code s _ bytes _ source =>
      if s = segment then (reservedRoom source : Int) - bytes.length else 0
  | _ => 0

/-- The slack of all bytes of a segment. -/
def drift (segment : Int) (entries : List ListingEntry) : Int :=
  (entries.map (ListingEntry.slack segment)).sum

@[simp] theorem drift_nil (segment : Int) : drift segment [] = 0 := rfl

theorem drift_append_singleton (segment : Int) (entries : List ListingEntry) (e : ListingEntry) :
    drift segment (entries ++ [e]) = drift segment entries + e.slack segment := by
  simp [drift]

/-! ## Layouts beside objects -/

/-- A layout beside an object, with the account of the object so far: the same segments
at the same starts, each longer in the layout by its drift. -/
structure Aligned (layout object : Object) (current : Int) (entries : List ListingEntry) :
    Prop where
  inside : ∃ n : Nat, current = n ∧ n < object.segments.length
  length_eq : layout.segments.length = object.segments.length
  apart : ∀ (i : Nat) (s t : Segment), layout.segments[i]? = some s →
    object.segments[i]? = some t → s.start = t.start ∧ (s.size : Int) = t.size + drift i entries
  /-- No account is kept of segments that do not exist yet. -/
  fresh : ∀ i : Nat, object.segments.length ≤ i → drift i entries = 0

namespace Aligned

variable {layout object : Object} {current : Int} {entries : List ListingEntry}

theorem starting (start : Int) : Aligned (.starting start) (.starting start) 0 [] where
  inside := ⟨0, rfl, Nat.zero_lt_one⟩
  length_eq := rfl
  apart i s t hs ht := by
    rw [hs, Option.some.injEq] at ht
    subst ht
    simp
  fresh _ _ := rfl

/-- Both objects have a current segment, and their ends are the drift apart. -/
theorem finish_eq (h : Aligned layout object current entries) :
    ∃ s t, layout.segmentAt? current = some s ∧ object.segmentAt? current = some t
      ∧ s.finish = t.finish + drift current entries := by
  obtain ⟨n, rfl, hn⟩ := h.inside
  obtain ⟨s, hs⟩ := Object.exists_getElem?_of_lt (h.length_eq ▸ hn)
  obtain ⟨t, ht⟩ := Object.exists_getElem?_of_lt hn
  obtain ⟨hstart, hsize⟩ := h.apart n s t hs ht
  refine ⟨s, t, by rw [Object.segmentAt?_natCast, hs], by rw [Object.segmentAt?_natCast, ht], ?_⟩
  simp only [Segment.finish, Segment.size] at hsize ⊢
  omega

/-- An entry without slack changes nothing. -/
theorem record (h : Aligned layout object current entries) {e : ListingEntry}
    (he : ∀ i, e.slack i = 0) : Aligned layout object current (entries ++ [e]) where
  inside := h.inside
  length_eq := h.length_eq
  apart i s t hs ht := by
    rw [drift_append_singleton, he, Int.add_zero]
    exact h.apart i s t hs ht
  fresh i hi := by
    rw [drift_append_singleton, he, Int.add_zero]
    exact h.fresh i hi

/-- The layout and the object grow by different amounts, and the entry records the
difference. -/
theorem extend (h : Aligned layout object current entries) {zeros bytes : List UInt8}
    {layout' object' : Object} (hlayout : layout.extend current zeros = .ok layout')
    (hobject : object.extend current bytes = .ok object') {e : ListingEntry}
    (he : ∀ i, e.slack i = if current = i then (zeros.length : Int) - bytes.length else 0) :
    Aligned layout' object' current (entries ++ [e]) := by
  obtain ⟨n, rfl, hn⟩ := h.inside
  rw [Object.extend_natCast (h.length_eq ▸ hn)] at hlayout
  rw [Object.extend_natCast hn] at hobject
  cases hlayout
  cases hobject
  refine ⟨⟨n, rfl, by rwa [Object.length_modifySegment]⟩, ?_, ?_, ?_⟩
  · rw [Object.length_modifySegment, Object.length_modifySegment, h.length_eq]
  · intro i s t hs ht
    rw [Object.getElem?_modifySegment, Option.map_eq_some_iff] at hs ht
    obtain ⟨s₀, hs₀, rfl⟩ := hs
    obtain ⟨t₀, ht₀, rfl⟩ := ht
    obtain ⟨hstart, hsize⟩ := h.apart i s₀ t₀ hs₀ ht₀
    rw [drift_append_singleton, he]
    by_cases hi : n = i
    · subst hi
      simp only [if_true, Segment.start_append, Segment.size, Segment.data_append,
        List.length_append] at hsize ⊢
      refine ⟨hstart, ?_⟩
      omega
    · rw [if_neg hi, if_neg hi, if_neg (by omega)]
      exact ⟨hstart, by omega⟩
  · intro i hi
    rw [Object.length_modifySegment] at hi
    rw [drift_append_singleton, he, if_neg (by omega), h.fresh i hi]
    rfl

/-- Both start the same segment. -/
theorem addSegment (h : Aligned layout object current entries) (start : Int) :
    Aligned (layout.addSegment start) (object.addSegment start) object.segments.length entries where
  inside := ⟨object.segments.length, rfl, by rw [Object.length_addSegment]; omega⟩
  length_eq := by rw [Object.length_addSegment, Object.length_addSegment, h.length_eq]
  apart i s t hs ht := by
    rw [Object.segments_addSegment] at hs ht
    by_cases hi : i < object.segments.length
    · rw [List.getElem?_append_left (h.length_eq ▸ hi)] at hs
      rw [List.getElem?_append_left hi] at ht
      exact h.apart i s t hs ht
    · have hi' : object.segments.length ≤ i := by omega
      rw [List.getElem?_append_right (h.length_eq ▸ hi'), h.length_eq] at hs
      rw [List.getElem?_append_right hi', hs, Option.some.injEq] at ht
      subst ht
      rw [h.fresh i hi']
      exact ⟨rfl, by omega⟩
  fresh i hi := by
    rw [Object.length_addSegment] at hi
    exact h.fresh i (by omega)

theorem toFirst (h : Aligned layout object current entries) : Aligned layout object 0 entries :=
  ⟨⟨0, rfl, object.length_segments_pos⟩, h.length_eq, h.apart, h.fresh⟩

end Aligned

/-! ## Labels in the account -/

/-- Every label of the account is in the table, at the address where it was reached plus
the drift of its segment up to there. -/
def LabelsAccounted (table : SymbolTable) (entries : List ListingEntry) : Prop :=
  ∀ (before : List ListingEntry) (segment address : Int) (line : Nat) (name : Text)
    (after : List ListingEntry), entries = before ++ .label segment address line name :: after →
      ∃ sym, table.find? name = some sym ∧ sym.address = (address + drift segment before) % 65536

namespace LabelsAccounted

variable {table table' : SymbolTable} {entries : List ListingEntry}

theorem nil (table : SymbolTable) : LabelsAccounted table [] := by
  intro before segment address line name after h
  exact absurd h.symm (by simp)

/-- A table that takes another symbol still has the old ones. -/
theorem of_insert (h : LabelsAccounted table entries) {s : Symbol}
    (hadd : table.insert s = .ok table') :
    LabelsAccounted table' entries := by
  intro before segment address line name after heq
  obtain ⟨sym, hfind, haddress⟩ := h before segment address line name after heq
  refine ⟨sym, ?_, haddress⟩
  have hname : s.name ≠ name := by
    rintro rfl
    rw [SymbolTable.find?_eq_none_of_insert hadd] at hfind
    cases hfind
  rw [SymbolTable.find?_of_insert hadd, if_neg hname, hfind]

/-- One more entry, which must be in order if it is a label. -/
theorem concat (h : LabelsAccounted table entries) {e : ListingEntry}
    (he : ∀ segment address line name, e = .label segment address line name →
      ∃ sym, table.find? name = some sym
        ∧ sym.address = (address + drift segment entries) % 65536) :
    LabelsAccounted table (entries ++ [e]) := by
  intro before segment address line name after heq
  rcases List.eq_nil_or_concat after with rfl | ⟨after', last, rfl⟩
  · obtain ⟨rfl, hlast⟩ := List.append_inj' heq rfl
    exact he segment address line name (List.singleton_inj.mp hlast)
  · rw [List.concat_eq_append, ← List.cons_append, ← List.append_assoc] at heq
    exact h before segment address line name after' (List.append_inj' heq rfl).1

end LabelsAccounted

/-! ## The passes in step -/

/-- The states of the two passes at one line. -/
structure InStep (d : Definitions) (m : Emission) : Prop where
  current_eq : d.current = m.current
  aligned : Aligned d.layout m.object m.current m.entries
  accounted : LabelsAccounted d.symbols m.entries

namespace InStep

variable {d d' : Definitions} {m m' : Emission} {number : Nat}

/-- The address that the first pass gives a label, and the address where the second one
reaches it. -/
theorem here_eq (h : InStep d m) : d.here = m.segment.finish + drift m.current m.entries := by
  obtain ⟨s, t, hs, ht, hfinish⟩ := h.aligned.finish_eq
  rw [Definitions.here, h.current_eq, hs, Emission.segment, ht]
  exact hfinish

/-- A label is entered into the table and into the account. -/
theorem mark (h : InStep d m) {name : Text} {table : SymbolTable}
    (hadd : d.symbols.insert (.ofLabel name d.here number) = .ok table) :
    LabelsAccounted table (m.mark number (some name)).entries := by
  refine (h.accounted.of_insert hadd).concat ?_
  intro segment address line name' heq
  obtain ⟨rfl, rfl, rfl, rfl⟩ := ListingEntry.label.inj heq
  refine ⟨_, (SymbolTable.find?_of_insert hadd name).trans (if_pos rfl), ?_⟩
  change d.here % 65536 = _
  rw [h.here_eq]

end InStep

/-- The slack of an instruction. -/
theorem slack_instruction {body : Text} (hdot : body.head? ≠ some '.') {mode : Mode}
    (hmode : Line.effectiveMode body = .ok mode) (segment address : Int) (bytes : List UInt8)
    (number : Nat) (i : Int) :
    (ListingEntry.code segment address bytes number body).slack i
      = if segment = i then ((List.replicate mode.length (0 : UInt8)).length : Int) - bytes.length
        else 0 := by
  rw [ListingEntry.slack, reservedRoom, if_neg hdot, hmode, List.length_replicate]

/-- The slack of a byte that a directive puts out. -/
theorem slack_byte {body : Text} (hdot : body.head? = some '.') (segment address : Int)
    {bytes : List UInt8} (hbytes : bytes.length = 1) (number : Nat) (i : Int) :
    (ListingEntry.code segment address bytes number body).slack i = 0 := by
  rw [ListingEntry.slack, reservedRoom, if_pos hdot, hbytes]
  split <;> rfl

/-- After a byte was put out, the current segment ends in it. -/
theorem length_last_byte {o o' : Object} {n : Nat} (hn : n < o.segments.length) {b : UInt8}
    (h : o.extend (n : Int) [b] = .ok o') {m : Emission} (hobject : m.object = o')
    (hcurrent : m.current = (n : Int)) :
    (m.segment.data.drop (m.segment.size - 1)).length = 1 := by
  obtain ⟨s, hs⟩ := Object.exists_getElem?_of_lt hn
  rw [Object.extend_natCast hn] at h
  cases h
  have hsegment : m.segment = s.append [b] := by
    rw [Emission.segment, hobject, hcurrent, Object.segmentAt?_natCast,
      Object.getElem?_modifySegment, hs]
    simp
  rw [hsegment, List.length_drop, Segment.size, Segment.data_append, List.length_append,
    List.length_singleton]
  omega

/-- A directive acts alike on the layout and on the object. -/
theorem Aligned.directive {layout layout' object : Object} {current current' : Int}
    {entries : List ListingEntry} (h : Aligned layout object current entries) {d : Directive}
    {body : Text} (hdot : body.head? = some '.') {m : Emission} (number : Nat)
    (hlayout : d.apply layout current = .ok (layout', current'))
    (hobject : d.apply object current = .ok (m.object, m.current)) :
    current' = m.current
      ∧ Aligned layout' m.object m.current (entries ++ [m.directiveEntry number body d]) := by
  cases d with
  | org argument =>
    obtain ⟨l, hl, hlayout⟩ := Outcome.bind_eq_ok_iff.mp hlayout
    obtain ⟨l', hl', hobject⟩ := Outcome.bind_eq_ok_iff.mp hobject
    obtain rfl : l = l' := Except.ok.inj (hl.symm.trans hl')
    obtain ⟨ho, hc⟩ := Prod.mk.inj (Except.ok.inj hobject)
    cases hlayout
    rw [← ho, ← hc, h.length_eq]
    exact ⟨rfl, (h.addSegment l.value).record fun _ => rfl⟩
  | finish =>
    obtain ⟨ho, hc⟩ := Prod.mk.inj (Except.ok.inj hobject)
    cases hlayout
    rw [← ho, ← hc]
    exact ⟨rfl, h.toFirst.record fun _ => rfl⟩
  | byte argument =>
    obtain ⟨l, hl, hlayout⟩ := Outcome.bind_eq_ok_iff.mp hlayout
    obtain ⟨l', hl', hobject⟩ := Outcome.bind_eq_ok_iff.mp hobject
    obtain rfl : l = l' := Except.ok.inj (hl.symm.trans hl')
    obtain ⟨o₁, hextend₁, hlayout⟩ := Outcome.bind_eq_ok_iff.mp hlayout
    obtain ⟨o₂, hextend₂, hobject⟩ := Outcome.bind_eq_ok_iff.mp hobject
    obtain ⟨ho, hc⟩ := Prod.mk.inj (Except.ok.inj hobject)
    cases hlayout
    obtain ⟨n, hn, hlt⟩ := h.inside
    have hone : (m.segment.data.drop (m.segment.size - 1)).length = 1 :=
      length_last_byte hlt (hn ▸ hextend₂) ho.symm (hc.symm.trans hn)
    refine ⟨hc, ?_⟩
    rw [← ho, ← hc]
    refine h.extend hextend₁ hextend₂ fun i => ?_
    rw [Emission.directiveEntry, slack_byte hdot _ _ hone]
    simp

namespace InStep

/-- The body of a statement keeps layout and object aligned. -/
theorem body {c : Statement.Context} {d : Definitions} {m m' : Emission} {number : Nat}
    {body : Text} {layout : Object} {current : Int} {table : SymbolTable}
    (hcurrent : d.current = m.current)
    (haligned : Aligned d.layout m.object m.current m.entries)
    (haccounted : LabelsAccounted table m.entries)
    (hlayout : d.layOut body = .ok (layout, current))
    (hbody : Emission.BodyAfter c m number body m') :
    current = m'.current ∧ Aligned layout m'.object m'.current m'.entries
      ∧ LabelsAccounted table m'.entries := by
  cases hbody with
  | nothing hempty hobject hcurrent' hentries =>
    rw [Definitions.layOut, hempty] at hlayout
    cases hlayout
    rw [hobject, hcurrent', hentries]
    exact ⟨hcurrent, haligned, haccounted⟩
  | directive directive hdot hdirective happly hentries =>
    have hempty : body.isEmpty = false := by
      cases body with
      | nil => cases hdot
      | cons c t => rfl
    rw [Definitions.layOut, hempty, if_neg (by decide), if_pos hdot, hdirective,
      hcurrent] at hlayout
    have hother : ∀ segment address line name,
        m'.directiveEntry number body directive ≠ .label segment address line name := by
      intro segment address line name h
      cases directive <;> cases h
    rw [hentries]
    obtain ⟨hcurrent', haligned'⟩ := haligned.directive hdot number hlayout happly
    exact ⟨hcurrent', haligned', haccounted.concat fun _ _ _ _ h => absurd h (hother _ _ _ _)⟩
  | instruction e pending o hempty hdot hassemble hextend hobject hcurrent' hentries =>
    have hempty' : body.isEmpty = false := by
      rw [← Bool.not_eq_true, List.isEmpty_iff]
      exact hempty
    rw [Definitions.layOut, hempty', if_neg (by decide), if_neg hdot, hcurrent] at hlayout
    obtain ⟨mode, hmode, hlayout⟩ := Outcome.bind_eq_ok_iff.mp hlayout
    obtain ⟨o₁, hzeros, hlayout⟩ := Outcome.bind_eq_ok_iff.mp hlayout
    cases hlayout
    rw [hobject, hcurrent', hentries]
    refine ⟨rfl, ?_, haccounted.concat fun _ _ _ _ h => by cases h⟩
    have hgrown := haligned.extend hzeros hextend
      (slack_instruction hdot hmode m.current m.segment.finish e.bytes number)
    exact ⟨hgrown.inside, hgrown.length_eq, hgrown.apart, hgrown.fresh⟩

/-- A line that both passes take without an error keeps them in step. -/
theorem step {s : Settings} {c : Statement.Context} {d d' : Definitions} {m m' : Emission}
    {number : Nat} {raw : Text} (hd : Definitions.step s d number raw = (d', none))
    (hdclean : d'.report.hasErrors = false) (hm : Emission.step c m number raw = (m', none))
    (hmclean : m'.report.hasErrors = false) (h : InStep d m) : InStep d' m' := by
  have hdafter := (Definitions.of_step hd hdclean).2
  have hmafter := (Emission.of_step hm hmclean).2
  cases hline : Line.ofClean (Line.clean raw) with
  | blank =>
    rw [hline] at hdafter hmafter
    obtain ⟨hlayout, hcurrent, -, hsymbols⟩ := hdafter
    obtain ⟨hobject, hcurrent', hentries⟩ := hmafter
    refine ⟨?_, ?_, ?_⟩
    · rw [hcurrent, hcurrent', h.current_eq]
    · rw [hlayout, hobject, hcurrent', hentries]
      exact h.aligned
    · rw [hsymbols, hentries]
      exact h.accounted
  | declaration name value =>
    rw [hline] at hdafter hmafter
    obtain ⟨hlayout, hcurrent, -, hadd⟩ := hdafter
    obtain ⟨hobject, hcurrent', hentries⟩ := hmafter
    refine ⟨?_, ?_, ?_⟩
    · rw [hcurrent, hcurrent', h.current_eq]
    · rw [hlayout, hobject, hcurrent', hentries]
      exact h.aligned
    · rw [hentries]
      exact h.accounted.of_insert hadd
  | statement label text =>
    rw [hline] at hdafter hmafter
    cases label with
    | none =>
      obtain ⟨hlayout, -, hsymbols⟩ := hdafter
      obtain ⟨hcurrent, haligned, haccounted⟩ :=
        body h.current_eq h.aligned (hsymbols ▸ h.accounted) hlayout hmafter
      exact ⟨hcurrent, haligned, haccounted⟩
    | some name =>
      obtain ⟨hlayout, -, hadd⟩ := hdafter
      have hmarked : Aligned d.layout m.object m.current (m.mark number (some name)).entries :=
        h.aligned.record fun _ => rfl
      obtain ⟨hcurrent, haligned, haccounted⟩ :=
        body (m := m.mark number (some name)) h.current_eq hmarked (h.mark hadd) hlayout hmafter
      exact ⟨hcurrent, haligned, haccounted⟩

theorem start (s : Settings) (file : String) (report : Report) :
    InStep (Definitions.start s file) (Emission.start s report) :=
  ⟨rfl, Aligned.starting s.programStart, LabelsAccounted.nil _⟩

end InStep

namespace Assembly

/-- The account of an assembly that succeeds explains every label of the table. -/
theorem labelsAccounted {s : Settings} {allow : Bool} {file : String} {source : Text}
    (h : (ofSource s allow file source).failure = none) :
    LabelsAccounted (ofSource s allow file source).symbols
      (ofSource s allow file source).entries := by
  obtain ⟨d, m, hd, hm, hdclean, hmclean, hsymbols, hentries, -⟩ := exists_passes h
  have hstep : InStep d m :=
    walkLines_together (p := fun d => d.report.hasErrors = false)
      (q := fun m => m.report.hasErrors = false)
      (fun _ _ _ _ hstep hclean => (Definitions.of_step hstep hclean).1)
      (fun _ _ _ _ hstep hclean => (Emission.of_step hstep hclean).1)
      (fun _ _ _ _ _ _ hd hdclean hm hmclean h => h.step hd hdclean hm hmclean)
      hd hdclean hm hmclean (InStep.start s file d.report)
  rw [hsymbols, hentries]
  exact hstep.accounted

/-- The passes agree on a label exactly when the segment has not drifted before it: the
room that was set aside there and the bytes that were put out are equally many, modulo
`2 ^ 16`. -/
theorem label_agrees_iff_no_drift {s : Settings} {allow : Bool} {file : String} {source : Text}
    (h : (ofSource s allow file source).failure = none)
    {before after : List ListingEntry} {segment address : Int} {line : Nat} {name : Text}
    (hentry : (ofSource s allow file source).entries
      = before ++ .label segment address line name :: after) :
    (∃ sym, (ofSource s allow file source).symbols.find? name = some sym
        ∧ sym.address = address % 65536)
      ↔ drift segment before % 65536 = 0 := by
  obtain ⟨sym, hfind, haddress⟩ := labelsAccounted h before segment address line name after hentry
  constructor
  · rintro ⟨sym', hfind', haddress'⟩
    rw [hfind, Option.some.injEq] at hfind'
    subst hfind'
    omega
  · intro hdrift
    exact ⟨sym, hfind, by omega⟩

/-- A label behind a load whose room is as long as its bytes. -/
theorem label_agrees_iff_no_drift_loop :
    ∃ sym, (ofSource {} false "<input>" " lda $8080\nloop: jmp loop\n".toList).symbols.find?
        "loop".toList = some sym ∧ sym.address = 3 := by
  have hfailure :
      (ofSource {} false "<input>" " lda $8080\nloop: jmp loop\n".toList).failure = none := by
    decide
  have hentries : (ofSource {} false "<input>" " lda $8080\nloop: jmp loop\n".toList).entries
      = [.code 0 0 [0xAD, 0x80, 0x80] 1 "lda $8080".toList]
        ++ .label 0 3 2 "loop".toList :: [.code 0 3 [0x4C, 3, 0] 2 "jmp loop".toList] := by
    decide
  exact (label_agrees_iff_no_drift hfailure hentries).mpr (by decide)

/-- A sum of two narrow literals is folded into a wide one.  The label behind it is
reached at the third byte, and the table has it at the second. -/
theorem label_behind_folded_sum_disagrees :
    (ofSource {} false "<input>" " lda $80+$80\nloop: jmp loop\n".toList).failure = none
      ∧ .label 0 3 2 "loop".toList
        ∈ (ofSource {} false "<input>" " lda $80+$80\nloop: jmp loop\n".toList).entries
      ∧ ((ofSource {} false "<input>" " lda $80+$80\nloop: jmp loop\n".toList).symbols.find?
          "loop".toList).map Symbol.address = some 2 := by
  refine ⟨?_, ?_, ?_⟩ <;> decide

end Assembly

end Cross6502
