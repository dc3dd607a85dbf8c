import Cross6502.Proofs.Assembly.LightLine

/-!
# Assemblies fail with errors of their own

An assembly that fails does so with a report on the source, or because a line has outgrown
its buffer.  Nothing else goes wrong underneath, whatever the source: the current segment
is always there, every number in the source is read, and every number in a report is
written (`Assembly.assemble_ends_in_own_error`).

Numbers of more than `digitLimit` decimal digits are neither read nor written.  In a source
whose lines have no more characters than that, no number is too long to be read.  The
numbers in a report are the longest line and the number of errors that the settings allow,
and the distance of a branch, which depends on where the program starts.  So the settings
must not make them too long.  Where they do, the failure to write one is what comes out
(`Assembly.assemble_fails_to_write`).

Both passes keep what this rests on (`Definitions.InBounds`, `Emission.InBounds`) on every
line, also on lines with errors.
-/

namespace Cross6502

/-! ## Why a pass stops -/

/-- The limit on errors was reached, or a line has outgrown its buffer. -/
def Failure.IsOwn (f : Failure) : Prop :=
  ∃ e, f = .source e ∧ ((∃ message, e.cause = .tooManyErrors message) ∨ e.isOverflow = true)

theorem Failure.naming_eq {numbers : List Int} (h : ∀ n ∈ numbers, Text.isWritable n = true)
    (f : Failure) : naming numbers f = f := if_pos (List.all_eq_true.mpr h)

namespace Report

theorem maxErrors_error (r : Report) (e : SourceError) (line : Option Text) :
    (r.error e line).1.maxErrors = r.maxErrors := rfl

/-- The limit on errors is given as the reason to stop, if it can be written. -/
theorem isOwn_of_error {r : Report} (hlimit : Text.isWritable r.maxErrors = true)
    {e limit : SourceError} {line : Option Text} (h : (r.error e line).2 = some limit) :
    (Failure.naming [r.maxErrors] (.source limit)).IsOwn := by
  rw [Failure.naming_eq (List.forall_mem_singleton.mpr hlimit)]
  rw [error] at h
  simp only at h
  split at h
  · cases h
    exact ⟨_, rfl, .inl ⟨_, rfl⟩⟩
  · cases h

end Report

/-! ## Objects -/

namespace Object

/-- An object as it stands before the line with the number: its current segment exists,
and its segments lie at the start or in the address space, with at most three bytes for
each line. -/
structure InBounds (start : Int) (number : Nat) (current : Int) (o : Object) : Prop where
  inside : ∃ n : Nat, current = n ∧ n < o.segments.length
  segment : ∀ g ∈ o.segments,
    (g.start = start ∨ 0 ≤ g.start ∧ g.start < 65536) ∧ g.size ≤ 3 * number

namespace InBounds

variable {start current : Int} {number : Nat} {o : Object}

theorem starting (start : Int) : InBounds start 1 0 (.starting start) where
  inside := ⟨0, rfl, Nat.zero_lt_one⟩
  segment g hg := by
    rw [segments_starting, List.mem_singleton] at hg
    rw [hg]
    exact ⟨.inl rfl, Nat.zero_le _⟩

theorem succ (h : InBounds start number current o) : InBounds start (number + 1) current o where
  inside := h.inside
  segment g hg := ⟨(h.segment g hg).1, Nat.le_trans (h.segment g hg).2 (by omega)⟩

theorem addSegment (h : InBounds start number current o) (n : Int) :
    InBounds start (number + 1) o.segments.length (o.addSegment n) where
  inside := ⟨o.segments.length, rfl, by rw [length_addSegment]; omega⟩
  segment g hg := by
    rw [segments_addSegment, List.mem_append, List.mem_singleton] at hg
    rcases hg with hg | rfl
    · exact h.succ.segment g hg
    · exact ⟨.inr ⟨by simp only; omega, by simp only; omega⟩, Nat.zero_le _⟩

/-- Bytes can be put behind the current segment. -/
theorem exists_extend (h : InBounds start number current o) (bytes : List UInt8)
    (hbytes : bytes.length ≤ 3) :
    ∃ o', o.extend current bytes = .ok o' ∧ InBounds start (number + 1) current o' := by
  obtain ⟨n, rfl, hn⟩ := h.inside
  refine ⟨_, extend_natCast hn bytes, ⟨n, rfl, by rwa [length_modifySegment]⟩, fun g hg => ?_⟩
  obtain ⟨i, hi⟩ := List.mem_iff_getElem?.mp hg
  rw [getElem?_modifySegment, Option.map_eq_some_iff] at hi
  obtain ⟨g₀, hg₀, rfl⟩ := hi
  obtain ⟨hstart, hsize⟩ := h.segment g₀ (List.mem_of_getElem? hg₀)
  split
  · rw [Segment.start_append, Segment.size_append]
    exact ⟨hstart, by omega⟩
  · exact ⟨hstart, by omega⟩

/-- A directive on a line that is short enough takes effect. -/
theorem exists_apply (h : InBounds start number current o) {body : Text} {d : Directive}
    (hbody : body.countP (· != Text.combiningDot) ≤ digitLimit)
    (hd : Directive.ofLine? body = some d) :
    ∃ o' current', d.apply o current = .ok (o', current')
      ∧ InBounds start (number + 1) current' o' := by
  cases d with
  | org argument =>
    obtain ⟨l, hl⟩ := Directive.exists_read hbody hd (.inl rfl)
    exact ⟨_, _, by rw [Directive.apply, hl]; rfl, h.addSegment l.value⟩
  | finish => exact ⟨o, 0, rfl, ⟨0, rfl, o.length_segments_pos⟩, h.succ.segment⟩
  | byte argument =>
    obtain ⟨l, hl⟩ := Directive.exists_read hbody hd (.inr rfl)
    obtain ⟨o', hextend, ho'⟩ := h.exists_extend [l.low] (by simp)
    exact ⟨o', current, by rw [Directive.apply, hl]; simp only [bind, Except.bind, hextend], ho'⟩

end InBounds

end Object

/-! ## The first pass -/

/-- A symbol with a name that counts and an address of sixteen bits. -/
structure Symbol.InBounds (u : Symbol) : Prop where
  name : 0 < Text.bulk 0 u.name
  nonneg : 0 ≤ u.address
  lt : u.address < 65536

theorem Symbol.inBounds_of_wrapAddress {u : Symbol} {a : Int} (hname : 0 < Text.bulk 0 u.name)
    (ha : u.address = wrapAddress a) : u.InBounds := by
  rw [wrapAddress] at ha
  exact ⟨hname, by omega, by omega⟩

namespace Definitions

/-- The first pass before the line with the number. -/
structure InBounds (start : Int) (number : Nat) (d : Definitions) : Prop where
  layout : d.layout.InBounds start number d.current
  limit : Text.isWritable d.report.maxErrors = true
  symbol : ∀ u ∈ d.symbols.symbols, u.InBounds

section Step

variable {start : Int} {number : Nat} {d : Definitions}

theorem goesWell_complain (h : d.InBounds start number) (e : SourceError) (raw : Text) :
    GoesWell (InBounds start number) Failure.IsOwn (d.complain e raw) := by
  have hmax := d.report.maxErrors_error e (some (Text.trimRight raw))
  rcases hrecord : d.report.error e (some (Text.trimRight raw)) with ⟨report, stop⟩
  rw [hrecord] at hmax
  rw [complain, hrecord]
  cases stop with
  | none => exact .goes ⟨h.layout, hmax ▸ h.limit, h.symbol⟩
  | some limit => exact .stops (Report.isOwn_of_error h.limit (congrArg Prod.snd hrecord))

theorem InBounds.noteFirst (h : d.InBounds start number) (name : Text) (e : SourceError) :
    (d.noteFirst name e).InBounds start number := by
  rw [Definitions.noteFirst]
  split
  · exact ⟨h.layout, h.limit, h.symbol⟩
  · exact h

theorem goesWell_define (h : d.InBounds start number) {u : Symbol} (hu : u.InBounds)
    (raw : Text) :
    GoesWell (InBounds start number) Failure.IsOwn
      ((d.define u raw).1, (d.define u raw).2.2) := by
  rw [define]
  split
  · rename_i table hadd
    refine .goes ⟨h.layout, h.limit, fun v hv => ?_⟩
    rcases (SymbolTable.mem_symbols_of_insert hadd).mp hv with rfl | hv
    · exact hu
    · exact h.symbol v hv
  · rename_i e he
    have hcomplain := goesWell_complain h e raw
    generalize d.complain e raw = r at hcomplain
    cases hcomplain with
    | goes hgo => exact .goes (hgo.noteFirst u.name e)
    | stops hstop => exact .stops hstop

theorem goesWell_declare {s : Settings} (h : d.InBounds start number) {name : Text}
    (hname : 0 < Text.bulk 0 name) (raw : Text) (value : Option Text) :
    GoesWell (InBounds start number) Failure.IsOwn (d.declare s number raw name value) := by
  rw [declare]
  split
  · exact goesWell_complain h _ raw
  · have hsymbol : (declared name value d.nextCell number).InBounds := by
      cases value <;> exact Symbol.inBounds_of_wrapAddress hname rfl
    have hdefine := goesWell_define h hsymbol raw
    split
    · rename_i d' stop hd'
      rw [hd'] at hdefine
      cases hdefine with
      | goes hgo => exact .goes ⟨hgo.layout, hgo.limit, hgo.symbol⟩
      | stops hstop => exact .stops hstop
    · rename_i d' stop hd'
      rw [hd'] at hdefine
      exact hdefine

theorem goesWell_mark (h : d.InBounds start number) {label : Option Text}
    (hlabel : ∀ name ∈ label, 0 < Text.bulk 0 name) (raw : Text) :
    GoesWell (InBounds start number) Failure.IsOwn (d.mark number raw label) := by
  cases label with
  | none => exact .goes h
  | some name =>
    rw [mark]
    exact goesWell_define h (Symbol.inBounds_of_wrapAddress (hlabel name rfl) rfl) raw

theorem exists_layOut (h : d.InBounds start number) {body : Text}
    (hbody : body.countP (· != Text.combiningDot) ≤ digitLimit) :
    ∃ o current, d.layOut body = .ok (o, current) ∧ o.InBounds start (number + 1) current := by
  rw [layOut]
  split
  · exact ⟨_, _, rfl, h.layout.succ⟩
  · split
    · split
      · rename_i directive hd
        exact h.layout.exists_apply hbody hd
      · exact ⟨_, _, rfl, h.layout.succ⟩
    · obtain ⟨mode, hmode⟩ := Line.exists_effectiveMode hbody
      obtain ⟨o, hextend, ho⟩ := h.layout.exists_extend (List.replicate mode.length 0)
        (by rw [List.length_replicate]; exact mode.length_le)
      exact ⟨o, d.current, by rw [hmode]; simp only [bind, Except.bind, hextend], ho⟩

theorem goesWell_reserve (h : d.InBounds start number) {body : Text}
    (hbody : body.countP (· != Text.combiningDot) ≤ digitLimit) :
    GoesWell (InBounds start (number + 1)) Failure.IsOwn (d.reserve body) := by
  obtain ⟨o, current, hlayout, ho⟩ := exists_layOut h hbody
  rw [reserve, hlayout]
  exact .goes ⟨ho, h.limit, h.symbol⟩

/-- A line that is short enough leaves the first pass in bounds, or stops it at the limit
on errors. -/
theorem goesWell_step {s : Settings} {raw : Text} (hraw : raw.length ≤ digitLimit)
    (h : d.InBounds start number) :
    GoesWell (InBounds start (number + 1)) Failure.IsOwn (step s d number raw) := by
  have hsucc : ∀ d : Definitions, d.InBounds start number → d.InBounds start (number + 1) :=
    fun d hd => ⟨hd.layout.succ, hd.limit, hd.symbol⟩
  have hplaced : InBounds start number { d with report := d.report.atLine number } :=
    ⟨h.layout, h.limit, h.symbol⟩
  rw [step]
  cases hline : Line.ofClean (Line.clean raw) with
  | blank => exact .goes (hsucc _ hplaced)
  | declaration name value =>
    obtain ⟨rest, hsplit⟩ := Line.splitLabel_of_declaration hline
    exact (goesWell_declare hplaced (Line.bulk_pos_of_splitLabel hsplit) raw value).mono hsucc
  | statement label body =>
    have hsplit := Line.splitLabel_of_statement hline
    have hbody := Nat.le_trans (Line.countP_body_le hsplit).1 hraw
    have hlabel : ∀ name ∈ label, 0 < Text.bulk 0 name := by
      rintro name rfl
      exact Line.bulk_pos_of_splitLabel hsplit
    have hmark := goesWell_mark hplaced hlabel raw
    simp only
    generalize Definitions.mark _ number raw label = r at hmark
    cases hmark with
    | goes hgo => exact goesWell_reserve hgo hbody
    | stops hstop => exact .stops hstop

end Step

/-- The first pass over lines that are short enough ends with all symbols in bounds, or
stops at the limit on errors. -/
theorem goesWell_run {s : Settings} (hlimit : Text.isWritable s.maxErrors = true)
    {lines : List Text} (hlines : ∀ raw ∈ lines, raw.length ≤ digitLimit) (file : String) :
    GoesWell (InBounds s.programStart (1 + lines.length)) Failure.IsOwn (run s file lines) :=
  goesWell_walkLines (fun _ _ raw hraw _ h => goesWell_step (hlines raw hraw) h)
    ⟨.starting s.programStart, hlimit, fun _ hu => absurd hu List.not_mem_nil⟩

end Definitions

/-! ## The second pass -/

namespace Emission

/-- The second pass before the line with the number. -/
structure InBounds (start : Int) (number : Nat) (m : Emission) : Prop where
  object : m.object.InBounds start number m.current
  limit : Text.isWritable m.report.maxErrors = true

section Step

variable {start : Int} {number : Nat} {m : Emission} {c : Statement.Context}

theorem InBounds.succ (h : m.InBounds start number) : m.InBounds start (number + 1) :=
  ⟨h.object.succ, h.limit⟩

theorem goesWell_complain (h : m.InBounds start number) {e : SourceError}
    (he : ∀ n ∈ e.cause.numbers, Text.isWritable n = true) (raw : Text) :
    GoesWell (InBounds start number) Failure.IsOwn (m.complain e raw) := by
  have hmax := m.report.maxErrors_error e (some (Text.trimRight raw))
  rcases hrecord : m.report.error e (some (Text.trimRight raw)) with ⟨report, stop⟩
  rw [hrecord] at hmax
  rw [complain, if_pos (List.all_eq_true.mpr he), hrecord]
  cases stop with
  | none => exact .goes ⟨h.object, hmax ▸ h.limit⟩
  | some limit => exact .stops (Report.isOwn_of_error h.limit (congrArg Prod.snd hrecord))

theorem segment_mem (m : Emission) : m.segment ∈ m.object.segments := by
  rw [segment, Object.segmentAt?, itemAt?]
  cases position? m.object.segments.length m.current with
  | none => exact List.mem_cons_self
  | some n =>
    rw [Option.bind_some]
    cases hget : m.object.segments[n]? with
    | none => exact List.mem_cons_self
    | some g => exact List.mem_of_getElem? hget

/-- Every symbol can be reached from the current place with a distance that is written. -/
theorem replaceable_of_inBounds (h : m.InBounds start number)
    (hroom : start.natAbs + 3 * number + 131072 < Numeral.decimalLimit) {u : Symbol}
    (hu : u.InBounds) : Names.Replaceable m.segment.finish u := by
  obtain ⟨hstart, hsize⟩ := h.object.segment m.segment m.segment_mem
  have hnonneg := hu.nonneg
  have hlt := hu.lt
  refine ⟨hu.name, ?_⟩
  rw [Segment.size] at hsize
  rw [Numeral.isWritable_iff, Replacement.displacement, Segment.finish]
  omega

/-- A directive is entered into the account. -/
theorem exists_account (h : m.InBounds start number) (line : Nat) {body : Text} {d : Directive}
    (hbody : body.countP (· != Text.combiningDot) ≤ digitLimit)
    (hd : Directive.ofLine? body = some d) :
    ∃ m', m.account line body d = .ok m' ∧ m'.InBounds start number := by
  cases d with
  | org argument => exact ⟨_, rfl, h.object, h.limit⟩
  | finish => exact ⟨_, rfl, h.object, h.limit⟩
  | byte argument =>
    obtain ⟨l, hl⟩ := Directive.exists_read hbody hd (.inr rfl)
    have hcheck : ∃ m', m.checkByte line argument = .ok m' ∧ m'.InBounds start number := by
      rw [checkByte, hl]
      simp only [bind, Except.bind]
      split
      · exact ⟨m, rfl, h⟩
      · exact ⟨_, rfl, h.object, h.limit⟩
    obtain ⟨m', hm', hbounds⟩ := hcheck
    rw [account, hm']
    exact ⟨_, rfl, hbounds.object, hbounds.limit⟩

theorem goesWell_directiveLine {body : Text}
    (hbody : body.countP (· != Text.combiningDot) ≤ digitLimit) (h : m.InBounds start number)
    (raw : Text) :
    GoesWell (InBounds start (number + 1)) Failure.IsOwn (m.directiveLine number raw body) := by
  rw [directiveLine]
  split
  · exact (goesWell_complain h (fun _ hn => absurd hn List.not_mem_nil) raw).mono
      fun _ hm => hm.succ
  · rename_i d hd
    obtain ⟨o, current, happly, ho⟩ := h.object.exists_apply hbody hd
    have hplaced : InBounds start (number + 1) { m with object := o, current := current } :=
      ⟨ho, h.limit⟩
    obtain ⟨m', haccount, hm'⟩ := exists_account hplaced number hbody hd
    have hdirect : m.direct number body d = .ok m' := by
      rw [direct, happly]
      exact haccount
    rw [hdirect]
    exact .goes hm'

theorem exists_emit (h : m.InBounds start number) (line : Nat) (body : Text) {e : Encoded}
    (pending : List Text) (hbytes : e.bytes.length ≤ 3) :
    ∃ m', m.emit line body e pending = .ok m' ∧ m'.InBounds start (number + 1) := by
  obtain ⟨o, hextend, ho⟩ := h.object.exists_extend e.bytes hbytes
  rw [emit, hextend]
  exact ⟨_, rfl, ⟨ho.inside, ho.segment⟩, h.limit⟩

theorem goesWell_instructionLine {body : Text} (hbody : Text.Light body)
    (hcapacity : Text.isWritable (c.capacity - 1) = true)
    (hsymbols : ∀ u ∈ c.symbols.symbols, u.InBounds)
    (hroom : start.natAbs + 3 * number + 131072 < Numeral.decimalLimit)
    (h : m.InBounds start number) (raw : Text) :
    GoesWell (InBounds start (number + 1)) Failure.IsOwn
      (m.instructionLine c number raw body) := by
  have hassemble : EndsWell (fun _ => True)
      (Statement.assemble c body m.segment.finish number).outcome :=
    Statement.endsWell_assemble hbody hcapacity (Numeral.isWritable_iff.mpr (by omega))
      fun u hu => replaceable_of_inBounds h hroom (hsymbols u hu)
  have hlogged : InBounds start number
      { m with log := m.log ++ (Statement.assemble c body m.segment.finish number).log } :=
    ⟨h.object, h.limit⟩
  rw [instructionLine, settle]
  split
  · rename_i e pending hok
    obtain ⟨⟨-, hbytes⟩, -⟩ := Statement.of_assemble hok
    obtain ⟨m', hemit, hm'⟩ := exists_emit hlogged number body pending hbytes
    rw [hemit]
    exact .goes hm'
  · rename_i e herror
    rw [herror] at hassemble
    obtain ⟨e', he', hnumbers⟩ := hassemble
    cases he'
    split
    · rename_i hoverflow
      exact .stops ⟨e, rfl, .inr hoverflow⟩
    · exact (goesWell_complain hlogged hnumbers raw).mono fun _ hm => hm.succ
  · rename_i e hsource herror
    rw [herror] at hassemble
    obtain ⟨e', he', -⟩ := hassemble
    exact absurd he' (hsource e')

/-- A line that is short enough leaves the second pass in bounds, or stops it at the limit
on errors or because it has outgrown its buffer. -/
theorem goesWell_step {raw : Text} (hraw : raw.length ≤ digitLimit)
    (hcapacity : Text.isWritable (c.capacity - 1) = true)
    (hsymbols : ∀ u ∈ c.symbols.symbols, u.InBounds)
    (hroom : start.natAbs + 3 * number + 131072 < Numeral.decimalLimit)
    (h : m.InBounds start number) :
    GoesWell (InBounds start (number + 1)) Failure.IsOwn (step c m number raw) := by
  have hplaced : InBounds start number { m with report := m.report.atLine number } :=
    ⟨h.object, h.limit⟩
  have hlong : ∀ n ∈ (SourceError.ofReading (.lineTooLong (c.capacity - 1))).cause.numbers,
      Text.isWritable n = true := List.forall_mem_singleton.mpr hcapacity
  have hcomplain := (goesWell_complain hplaced hlong raw).mono fun _ hm => hm.succ
  rw [step]
  cases hline : Line.ofClean (Line.clean raw) with
  | blank => exact .goes hplaced.succ
  | declaration name value =>
    simp only
    split
    · exact hcomplain
    · exact .goes hplaced.succ
  | statement label body =>
    have hsplit := Line.splitLabel_of_statement hline
    have hbody := Nat.le_trans (Line.countP_body_le hsplit).1 hraw
    simp only
    split
    · exact hcomplain
    · have hmarked : InBounds start number
          ({ m with report := m.report.atLine number }.mark number label) := by
        cases label <;> exact ⟨h.object, h.limit⟩
      rw [bodyLine]
      split
      · exact .goes hmarked.succ
      · split
        · exact goesWell_directiveLine hbody hmarked raw
        · exact goesWell_instructionLine (Line.light_of_splitLabel hraw hsplit) hcapacity hsymbols
            hroom hmarked raw

end Step

theorem goesWell_run {s : Settings} {c : Statement.Context} {report : Report} {lines : List Text}
    (hlines : ∀ raw ∈ lines, raw.length ≤ digitLimit)
    (hlimit : Text.isWritable report.maxErrors = true)
    (hcapacity : Text.isWritable (c.capacity - 1) = true)
    (hsymbols : ∀ u ∈ c.symbols.symbols, u.InBounds)
    (hroom : s.programStart.natAbs + 3 * lines.length + 131072 < Numeral.decimalLimit) :
    GoesWell (InBounds s.programStart (1 + lines.length)) Failure.IsOwn
      (run s c report lines) :=
  goesWell_walkLines
    (fun _ _ raw hraw hlt h => goesWell_step (hlines raw hraw) hcapacity hsymbols (by omega) h)
    ⟨.starting s.programStart, hlimit⟩

end Emission

/-! ## Whole assemblies -/

namespace Assembly

/-- An error of the assembler: the report on a source, or a line that has outgrown its
buffer. -/
def IsOwnError (f : Failure) : Prop :=
  (∃ message, f = .ofCause (.general message none)) ∨ ∃ e, f = .source e ∧ e.isOverflow = true

theorem isOwnError_stopFailure {stop : Failure} (h : stop.IsOwn) (report : Report) :
    IsOwnError (stopFailure report stop) := by
  obtain ⟨e, rfl, hmany | hoverflow⟩ := h
  · obtain ⟨message, hcause⟩ := hmany
    rw [stopFailure, hcause]
    exact .inl ⟨_, rfl⟩
  · rw [stopFailure]
    split
    · exact .inl ⟨_, rfl⟩
    · exact .inr ⟨e, rfl, hoverflow⟩

section Main

variable {s : Settings} {allow : Bool} {file : String} {lines : List Text}

theorem isOwnError_of_failure (hlines : ∀ raw ∈ lines, raw.length ≤ digitLimit)
    (hcapacity : Text.isWritable (s.maxLineLength - 1) = true)
    (hlimit : Text.isWritable s.maxErrors = true)
    (hroom : s.programStart.natAbs + 3 * lines.length + 131072 < Numeral.decimalLimit) {f : Failure}
    (h : (ofLines s allow file lines).failure = some f) : IsOwnError f := by
  have hdefine := Definitions.goesWell_run hlimit hlines file
  rw [ofLines] at h
  generalize Definitions.run s file lines = r at hdefine h
  cases hdefine with
  | stops hstop =>
    cases h
    exact isOwnError_stopFailure hstop _
  | @goes d hd =>
    have hemit := Emission.goesWell_run (c := ⟨d.symbols, s.maxLineLength, allow, file⟩) hlines
      hd.limit hcapacity hd.symbol hroom
    simp only at h
    generalize Emission.run s _ d.report lines = r at hemit h
    cases hemit with
    | stops hstop =>
      cases h
      exact isOwnError_stopFailure hstop _
    | @goes m hm =>
      cases hclean : m.report.hasErrors with
      | false =>
        simp only [finished, hclean] at h
        cases h
      | true =>
        simp only [finished, hclean] at h
        cases h
        exact .inl ⟨_, rfl⟩

end Main

/-- Whatever the source, an assembly gives an object or an error of the assembler, if no
line and no number is too long. -/
theorem assemble_ends_in_own_error (s : Settings) (allow : Bool) (file : String) (source : Text)
    (hlines : ∀ raw ∈ Text.lines source, raw.length ≤ digitLimit)
    (hcapacity : Text.isWritable (s.maxLineLength - 1) = true)
    (hlimit : Text.isWritable s.maxErrors = true)
    (hroom : s.programStart.natAbs + 3 * (Text.lines source).length + 131072
      < 10 ^ digitLimit) :
    (∃ o, (assemble s allow file source).outcome = .ok o)
      ∨ ∃ f, (assemble s allow file source).outcome = .error f ∧ IsOwnError f := by
  change (∃ o, (ofSource s allow file source).result = .ok o)
      ∨ ∃ f, (ofSource s allow file source).result = .error f ∧ IsOwnError f
  rw [result]
  split
  · exact .inl ⟨_, rfl⟩
  · rename_i f hf
    exact .inr ⟨f, rfl, isOwnError_of_failure hlines hcapacity hlimit hroom hf⟩

/-- A line that outgrows its buffer of ten characters. -/
theorem assemble_ends_in_own_error_overflow :
    (∀ raw ∈ Text.lines "zp:\n lda zp,x\n".toList, raw.length ≤ digitLimit)
      ∧ ((∃ o, (assemble { maxLineLength := 11 } false "<input>"
          "zp:\n lda zp,x\n".toList).outcome = .ok o)
        ∨ ∃ f, (assemble { maxLineLength := 11 } false "<input>"
          "zp:\n lda zp,x\n".toList).outcome = .error f ∧ IsOwnError f) :=
  have hlines : ∀ raw ∈ Text.lines "zp:\n lda zp,x\n".toList, raw.length ≤ digitLimit := by decide
  ⟨hlines, assemble_ends_in_own_error { maxLineLength := 11 } false "<input>"
    "zp:\n lda zp,x\n".toList hlines (by decide) (by decide) (Text.lt_limit_of_lt (by decide))⟩

/-- A number too long to be written is not reported, whether it is the length of a line,
the number of errors or the distance of a branch. -/
theorem assemble_fails_to_write :
    (ofSource { maxLineLength := 1 - (10 ^ digitLimit : Nat) } false "<input>"
        "nop\n".toList).failure = some (.value .tooLongToWrite)
      ∧ (ofSource { maxErrors := -(10 ^ digitLimit : Nat) } false "<input>"
        " foo\n".toList).failure = some (.value .tooLongToWrite)
      ∧ (ofSource { programStart := (10 ^ digitLimit : Nat) - 1 } false "<input>"
        " nop\nl: beq l\n".toList).failure = some (.value .tooLongToWrite) := by
  decide +kernel

end Assembly

end Cross6502
