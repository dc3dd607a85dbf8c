import Cross6502.Proofs.Assembly.Produced
import Cross6502.Proofs.Substitution.Bounded

/-!
# The buffers of an assembly

The second pass works on one instruction at a time, in a buffer of its own.  To speak of what is
in that buffer, the pass is made to keep a list: every operation gives the buffers it goes
through beside its result (`Traced`), those in the middle of an edit and those of lines that end
in an error among them.  Keeping the list changes nothing else (`Statement.operation_trace`,
`Emission.fst_traceStep`, `Assembly.fst_traceLines`).

The buffers of a line lead by replacements from its text to the last of them, and if the line is
encoded, then it is the text of that one (`Statement.leads_trace`).  So whatever instruction is
put out is that of a buffer in the list (`Emission.accrues_traceStep`).

A buffer does not look at the length of the text that it is made with.  The pass does so before,
with the length of the whole line, of which the instruction is a part; hence every buffer fits.
-/

namespace Cross6502

/-! ## Operations with their buffers -/

/-- An operation with the buffers that it goes through. -/
structure Traced (α : Type) where
  buffers : List LineBuffer
  operation : Logged α

namespace Traced

open LineBuffer (Edit Passes)

variable {α β : Type} {b : LineBuffer} {x : Traced α} {f : α → Traced β}
  {post : α → LineBuffer → Prop} {post' : β → LineBuffer → Prop}

/-- An operation that does nothing to a buffer. -/
def ofLogged (x : Logged α) : Traced α := ⟨[], x⟩

/-- An operation that begins with a buffer. -/
def enter (b : LineBuffer) : Traced LineBuffer := ⟨[b], Logged.ok b⟩

/-- An operation that makes an edit. -/
def ofEdit (b : LineBuffer) (e : Edit) (x : Except Failure α) : Traced α :=
  ⟨b.passed e, Logged.ofExcept x⟩

/-- One operation after another; a failure ends both. -/
def andThen (x : Traced α) (f : α → Traced β) : Traced β where
  buffers := x.buffers ++
    match x.operation.outcome with
    | .ok a => (f a).buffers
    | .error _ => []
  operation := x.operation >>= fun a => (f a).operation

instance : Monad Traced where
  pure a := ofLogged (Logged.ok a)
  bind := andThen

theorem operation_bind (x : Traced α) (f : α → Traced β) :
    (x >>= f).operation = x.operation >>= fun a => (f a).operation := rfl

/-- The buffers lead on from one, and the last of them suits the result. -/
def Leads (b : LineBuffer) (x : Traced α) (post : α → LineBuffer → Prop) : Prop :=
  ∃ last, Passes b x.buffers last ∧ ∀ a, x.operation.outcome = .ok a → post a last

theorem leads_ofLogged {x : Logged α} (h : ∀ a, x.outcome = .ok a → post a b) :
    Leads b (ofLogged x) post :=
  ⟨b, .done b, h⟩

theorem leads_ok {a : α} (h : post a b) : Leads b (ofLogged (Logged.ok a)) post := by
  refine leads_ofLogged fun a' ha' => ?_
  cases ha'
  exact h

theorem leads_enter (b : LineBuffer) : Leads b (enter b) fun a last => a = last := by
  refine ⟨b, .single (.inl rfl), fun a ha => ?_⟩
  cases ha
  rfl

theorem leads_ofEdit {e : Edit} {x : Except Failure α} {buffer : α → LineBuffer}
    (hrange : e.InRange b) (h : ∀ a, x = .ok a → b.edit e = (buffer a, none)) :
    Leads b (ofEdit b e x) fun a last => buffer a = last := by
  refine ⟨_, LineBuffer.passes_edit hrange, fun a ha => ?_⟩
  rw [h a ha]

theorem Leads.bind (h : Leads b x post)
    (hf : ∀ a last, post a last → Leads last (f a) post') : Leads b (x >>= f) post' := by
  obtain ⟨last, hpasses, hpost⟩ := h
  obtain ⟨bs, log, outcome⟩ := x
  cases outcome with
  | error e =>
    refine ⟨last, ?_, fun c hc => ?_⟩
    · show Passes b (bs ++ []) last
      rwa [List.append_nil]
    · cases hc
  | ok a =>
    obtain ⟨last', hpasses', hpost'⟩ := hf a last (hpost a rfl)
    exact ⟨last', hpasses.append hpasses', hpost'⟩

theorem leads_ofLogged_bind {x : Logged α} (hf : ∀ a, x.outcome = .ok a → Leads b (f a) post') :
    Leads b (ofLogged x >>= f) post' := by
  have hx : Leads b (ofLogged x) fun a last => x.outcome = .ok a ∧ last = b :=
    leads_ofLogged fun a ha => ⟨ha, rfl⟩
  refine hx.bind ?_
  rintro a last ⟨ha, rfl⟩
  exact hf a ha

end Traced

/-! ## The buffers of an instruction -/

namespace Statement

open LineBuffer (Edit)

variable {c : Context} {text : Text} {address : Int} {number : Nat}

/-- Put zeros in place of names, and list the buffers on the way. -/
def traceHolding (number : Nat) : List Text → LineBuffer → Traced (LineBuffer × List Text)
  | [], b => .ofLogged (Logged.ok (b, []))
  | name :: rest, b => do
      let (b, position) ← Traced.ofEdit b (.holdPlace name) (Names.holdPlace b name)
      match position with
      | none => traceHolding number rest b
      | some _ => do
          Traced.ofLogged (Logged.say (.deferred number name))
          let (b, pending) ← traceHolding number rest b
          return (b, name :: pending)

/-- Leave the unknown names of a line to the linker, and list the buffers on the way. -/
def traceDeferring (c : Context) (number : Nat) (b : LineBuffer) :
    Traced (LineBuffer × List Text) :=
  if Literal.isPlain (Line.operand b.text) then .ofLogged (Logged.ok (b, []))
  else
    let names := unknownNames c b.text
    if !(c.allowUnresolved && !names.isEmpty) then
      .ofLogged (Logged.fail (.reading (.badOperand (Line.operand b.text))))
    else do
      let (b, pending) ← traceHolding number names b
      let (b, _) ← Traced.ofEdit b .fold (Arithmetic.fold b)
      return (b, pending)

/-- Assemble a line, and list the buffers on the way. -/
def trace (c : Context) (text : Text) (address : Int) (number : Nat) :
    Traced (Encoded × List Text) := do
  let b ← Traced.enter (bufferFor c text number)
  let b ← Traced.ofEdit b (.resolve c.symbols address) (resolve c b address)
  let (b, _) ← Traced.ofEdit b .fold (Arithmetic.fold b)
  let (b, pending) ← traceDeferring c number b
  Traced.ofLogged (Logged.say (.resolved number text b.text))
  let e ← Traced.ofLogged (Logged.ofExcept (Encoded.ofLine b.text))
  return (e, pending)

theorem operation_traceHolding (number : Nat) (names : List Text) (b : LineBuffer) :
    (traceHolding number names b).operation = holdPlaces number names b := by
  induction names generalizing b with
  | nil => rfl
  | cons name names ih =>
    rw [traceHolding, holdPlaces, Traced.operation_bind]
    show Logged.ofExcept (Names.holdPlace b name) >>= _ = _
    cases Names.holdPlace b name with
    | error e => rfl
    | ok r =>
      obtain ⟨b', position⟩ := r
      cases position with
      | none => exact ih b'
      | some i =>
        simp only [← ih b']
        rfl

theorem operation_traceDeferring (c : Context) (number : Nat) (b : LineBuffer) :
    (traceDeferring c number b).operation = deferNames c number b := by
  rw [traceDeferring, deferNames]
  split
  · rfl
  · simp only
    split
    · rfl
    · rw [← operation_traceHolding]
      rfl

/-- Listing the buffers changes nothing about the instruction. -/
theorem operation_trace (c : Context) (text : Text) (address : Int) (number : Nat) :
    (trace c text address number).operation = assemble c text address number := by
  rw [assemble]
  simp only [← operation_traceDeferring]
  rfl

theorem leads_holdPlace (b : LineBuffer) (name : Text) :
    Traced.Leads b (.ofEdit b (.holdPlace name) (Names.holdPlace b name))
      fun r last => r.1 = last := by
  refine Traced.leads_ofEdit trivial fun r hr => ?_
  rw [LineBuffer.edit, hr]

theorem leads_fold (b : LineBuffer) :
    Traced.Leads b (.ofEdit b .fold (Arithmetic.fold b)) fun r last => r.1 = last := by
  refine Traced.leads_ofEdit trivial fun r hr => ?_
  rw [LineBuffer.edit, hr]

theorem leads_resolve (c : Context) (b : LineBuffer) (address : Int) :
    Traced.Leads b (.ofEdit b (.resolve c.symbols address) (resolve c b address))
      fun b' last => b' = last := by
  refine Traced.leads_ofEdit trivial fun b' hb' => ?_
  rw [resolve] at hb'
  split at hb'
  · cases hb'
  · rename_i hnone
    cases hb'
    show (_, (Names.resolve b c.symbols address).failure) = _
    rw [hnone]

theorem leads_traceHolding (number : Nat) (names : List Text) (b : LineBuffer) :
    Traced.Leads b (traceHolding number names b) fun r last => r.1 = last := by
  induction names generalizing b with
  | nil => exact Traced.leads_ok rfl
  | cons name names ih =>
    rw [traceHolding]
    refine (leads_holdPlace b name).bind ?_
    rintro ⟨b₁, position⟩ last rfl
    cases position with
    | none => exact ih b₁
    | some i =>
      refine Traced.leads_ofLogged_bind fun _ _ => (ih b₁).bind ?_
      rintro ⟨b₂, pending⟩ last rfl
      exact Traced.leads_ok rfl

theorem leads_traceDeferring (c : Context) (number : Nat) (b : LineBuffer) :
    Traced.Leads b (traceDeferring c number b) fun r last => r.1 = last := by
  rw [traceDeferring]
  split
  · exact Traced.leads_ok rfl
  · simp only
    split
    · refine Traced.leads_ofLogged fun r hr => ?_
      cases hr
    · refine (leads_traceHolding number _ b).bind ?_
      rintro ⟨b₁, pending⟩ last rfl
      refine (leads_fold b₁).bind ?_
      rintro ⟨b₂, folded⟩ last rfl
      exact Traced.leads_ok rfl

/-- The buffers of a line lead by replacements from its text on, whether it is encoded or not.
If it is, then it is the text of the last of them that is encoded. -/
theorem leads_trace (c : Context) (text : Text) (address : Int) (number : Nat) :
    Traced.Leads (bufferFor c text number) (trace c text address number)
      fun r last => Encoded.ofLine last.text = .ok r.1 := by
  refine (Traced.leads_enter _).bind ?_
  rintro b last rfl
  refine (leads_resolve c b address).bind ?_
  rintro b₁ last rfl
  refine (leads_fold b₁).bind ?_
  rintro ⟨b₂, folded⟩ last rfl
  refine (leads_traceDeferring c number b₂).bind ?_
  rintro ⟨b₃, pending⟩ last rfl
  exact Traced.leads_ofLogged_bind fun _ _ => Traced.leads_ofLogged_bind fun e he =>
    Traced.leads_ok he

theorem fits_trace (h : (text.length : Int) ≤ c.capacity - 1) :
    ∀ b ∈ (trace c text address number).buffers, b.Fits c.capacity := by
  obtain ⟨last, hpasses, -⟩ := leads_trace c text address number
  exact (hpasses.fits ⟨rfl, h⟩).1

/-- An instruction is encoded from one of the buffers. -/
theorem exists_buffer_of_assemble {e : Encoded} {pending : List Text}
    (h : (assemble c text address number).outcome = .ok (e, pending)) :
    ∃ b ∈ (trace c text address number).buffers, Encoded.ofLine b.text = .ok e := by
  obtain ⟨last, hpasses, hencoded⟩ := leads_trace c text address number
  rw [operation_trace] at hencoded
  have hfirst : bufferFor c text number ∈ (trace c text address number).buffers :=
    List.mem_append_left _ List.mem_cons_self
  rcases List.mem_cons.mp hpasses.last_mem with rfl | hlast
  · exact ⟨_, hfirst, hencoded _ h⟩
  · exact ⟨last, hlast, hencoded _ h⟩

end Statement

/-! ## The buffers of the second pass -/

namespace Emission

variable {c : Statement.Context}

/-- A line that holds an instruction, with its buffers. -/
def traceInstruction (c : Statement.Context) (m : Emission) (number : Nat) (raw body : Text) :
    (Emission × Option Failure) × List LineBuffer :=
  let t := Statement.trace c body m.segment.finish number
  (m.settle number raw body t.operation, t.buffers)

/-- The body of a statement, with its buffers. -/
def traceBody (c : Statement.Context) (m : Emission) (number : Nat) (raw body : Text) :
    (Emission × Option Failure) × List LineBuffer :=
  if body.isEmpty then ((m, none), [])
  else if body.head? = some '.' then (m.directiveLine number raw body, [])
  else m.traceInstruction c number raw body

/-- One line of the second pass, with its buffers. -/
def traceStep (c : Statement.Context) (m : Emission) (number : Nat) (raw : Text) :
    (Emission × Option Failure) × List LineBuffer :=
  let m := { m with report := m.report.atLine number }
  let cleaned := Line.clean raw
  match Line.ofClean cleaned with
  | .blank => ((m, none), [])
  | line =>
      if c.capacity - 1 < cleaned.length then
        (m.complain (.ofReading (.lineTooLong (c.capacity - 1))) raw, [])
      else
        match line with
        | .statement label body => (m.mark number label).traceBody c number raw body
        | _ => ((m, none), [])

theorem fst_traceBody (m : Emission) (number : Nat) (raw body : Text) :
    (m.traceBody c number raw body).1 = m.bodyLine c number raw body := by
  rw [traceBody, bodyLine]
  split
  · rfl
  · split
    · rfl
    · rw [traceInstruction, Statement.operation_trace, instructionLine]

/-- Listing the buffers changes nothing about what a line does. -/
theorem fst_traceStep (m : Emission) (number : Nat) (raw : Text) :
    (traceStep c m number raw).1 = step c m number raw := by
  rw [traceStep, step]
  cases Line.ofClean (Line.clean raw) with
  | blank => rfl
  | declaration name value =>
    simp only
    split <;> rfl
  | statement label body =>
    simp only
    split
    · rfl
    · exact fst_traceBody _ number raw body

/-- One line of the second pass, behind a list of buffers that its own are added to. -/
def tracePass (c : Statement.Context) (t : Emission × List LineBuffer) (number : Nat)
    (raw : Text) : (Emission × List LineBuffer) × Option Failure :=
  let r := traceStep c t.1 number raw
  ((r.1.1, t.2 ++ r.2), r.1.2)

/-- The second pass over the lines of a source, with its buffers. -/
def traceRun (s : Settings) (c : Statement.Context) (report : Report) (lines : List Text) :
    (Emission × List LineBuffer) × Option Failure :=
  walkLines (tracePass c) 1 lines (start s report, [])

/-- Listing the buffers changes nothing about the pass. -/
theorem run_eq_traceRun (s : Settings) (c : Statement.Context) (report : Report)
    (lines : List Text) :
    run s c report lines = ((traceRun s c report lines).1.1, (traceRun s c report lines).2) := by
  refine walkLines_map (f := Prod.fst) (fun t number raw => ?_) 1 lines (start s report, [])
  rw [tracePass, fst_traceStep]

/-- An instruction is no longer than its line. -/
theorem fits_traceStep (m : Emission) (number : Nat) (raw : Text) :
    ∀ b ∈ (traceStep c m number raw).2, b.Fits c.capacity := by
  rw [traceStep]
  cases hline : Line.ofClean (Line.clean raw) with
  | blank => exact List.forall_mem_nil _
  | declaration name value =>
    simp only
    split <;> exact List.forall_mem_nil _
  | statement label body =>
    have hpart := (Line.sublist_of_splitLabel (Line.splitLabel_of_statement hline)).length_le
    simp only
    split
    · exact List.forall_mem_nil _
    · rw [traceBody]
      split
      · exact List.forall_mem_nil _
      · split
        · exact List.forall_mem_nil _
        · exact Statement.fits_trace (by omega)

/-! ## What is put out -/

/-- An entry that is not for an instruction, or has the bytes of a buffer in the list. -/
def EncodedFrom (bs : List LineBuffer) : ListingEntry → Prop
  | .code _ _ bytes _ source => source.head? = some '.' ∨
      ∃ b ∈ bs, ∃ e, Encoded.ofLine b.text = .ok e ∧ e.bytes = bytes
  | _ => True

theorem EncodedFrom.mono {bs bs' : List LineBuffer} (hsub : bs ⊆ bs') {entry : ListingEntry}
    (h : EncodedFrom bs entry) : EncodedFrom bs' entry := by
  cases entry with
  | label => trivial
  | directive => trivial
  | code segment address bytes line source =>
    exact h.imp_right fun ⟨b, hb, hencoded⟩ => ⟨b, hsub hb, hencoded⟩

/-- An account grows by entries from the buffers in a list. -/
def Accrues (bs : List LineBuffer) (entries entries' : List ListingEntry) : Prop :=
  ∃ added, entries' = entries ++ added ∧ ∀ entry ∈ added, EncodedFrom bs entry

section Accrues

variable {bs bs' : List LineBuffer} {entries entries' entries₁ : List ListingEntry}
  {m : Emission} {number : Nat} {raw body : Text}

theorem accrues_refl (bs : List LineBuffer) (entries : List ListingEntry) :
    Accrues bs entries entries :=
  ⟨[], (List.append_nil entries).symm, List.forall_mem_nil _⟩

theorem accrues_singleton {entry : ListingEntry} (h : EncodedFrom bs entry) :
    Accrues bs entries (entries ++ [entry]) :=
  ⟨[entry], rfl, List.forall_mem_singleton.mpr h⟩

theorem Accrues.trans (h : Accrues bs entries entries₁) (h' : Accrues bs' entries₁ entries') :
    Accrues (bs ++ bs') entries entries' := by
  obtain ⟨added, rfl, hfrom⟩ := h
  obtain ⟨more, rfl, hfrom'⟩ := h'
  refine ⟨added ++ more, List.append_assoc .., ?_⟩
  rw [List.forall_mem_append]
  exact ⟨fun entry hentry => (hfrom entry hentry).mono (List.subset_append_left bs bs'),
    fun entry hentry => (hfrom' entry hentry).mono (List.subset_append_right bs bs')⟩

theorem entries_complain (m : Emission) (e : SourceError) (raw : Text) :
    (m.complain e raw).1.entries = m.entries := by
  rw [complain]
  split <;> rfl

theorem accrues_mark (label : Option Text) :
    Accrues [] m.entries (m.mark number label).entries := by
  cases label with
  | none => exact accrues_refl _ _
  | some name => exact accrues_singleton trivial

theorem accrues_directiveLine (hdot : body.head? = some '.') :
    Accrues [] m.entries (m.directiveLine number raw body).1.entries := by
  rw [directiveLine]
  split
  · rw [entries_complain]
    exact accrues_refl _ _
  · rename_i d hd
    split
    · rename_i m₁ hdirect
      obtain ⟨⟨o, current⟩, -, haccount⟩ := Outcome.bind_eq_ok_iff.mp hdirect
      obtain ⟨-, -, -, hentries⟩ := of_account haccount
      rw [hentries]
      refine accrues_singleton ?_
      cases d with
      | org => trivial
      | finish => trivial
      | byte => exact .inl hdot
    · exact accrues_refl _ _

theorem accrues_settle {assembled : Logged (Encoded × List Text)}
    (h : ∀ e pending, assembled.outcome = .ok (e, pending) →
      ∃ b ∈ bs, Encoded.ofLine b.text = .ok e) :
    Accrues bs m.entries (m.settle number raw body assembled).1.entries := by
  rw [settle]
  split
  · rename_i e pending hassemble
    obtain ⟨b, hb, hencoded⟩ := h e pending hassemble
    split
    · rename_i m₁ hemit
      obtain ⟨o, -, hemit⟩ := Outcome.bind_eq_ok_iff.mp hemit
      cases hemit
      exact accrues_singleton (.inr ⟨b, hb, e, hencoded, rfl⟩)
    · exact accrues_refl _ _
  · split
    · exact accrues_refl _ _
    · rw [entries_complain]
      exact accrues_refl _ _
  · exact accrues_refl _ _

theorem accrues_traceBody (m : Emission) (number : Nat) (raw body : Text) :
    Accrues (m.traceBody c number raw body).2 m.entries
      (m.traceBody c number raw body).1.1.entries := by
  rw [traceBody]
  split
  · exact accrues_refl _ _
  · split
    · rename_i hdot
      exact accrues_directiveLine hdot
    · refine accrues_settle fun e pending hassemble => ?_
      rw [Statement.operation_trace] at hassemble
      exact Statement.exists_buffer_of_assemble hassemble

/-- What a line puts out is from its buffers. -/
theorem accrues_traceStep (m : Emission) (number : Nat) (raw : Text) :
    Accrues (traceStep c m number raw).2 m.entries (traceStep c m number raw).1.1.entries := by
  rw [traceStep]
  cases Line.ofClean (Line.clean raw) with
  | blank => exact accrues_refl _ _
  | declaration name value =>
    simp only
    split
    · rw [entries_complain]
      exact accrues_refl _ _
    · exact accrues_refl _ _
  | statement label body =>
    simp only
    split
    · rw [entries_complain]
      exact accrues_refl _ _
    · have hmark : Accrues [] m.entries
          (mark { m with report := m.report.atLine number } number label).entries :=
        accrues_mark label
      exact hmark.trans (accrues_traceBody _ number raw body)

/-- The buffers listed by a run fit, and what it puts out is from them. -/
theorem of_traceRun (s : Settings) (c : Statement.Context) (report : Report)
    (lines : List Text) :
    (∀ b ∈ (traceRun s c report lines).1.2, b.Fits c.capacity)
      ∧ Accrues (traceRun s c report lines).1.2 [] (traceRun s c report lines).1.1.entries := by
  refine walkLines_keeps (I := fun t : Emission × List LineBuffer =>
    (∀ b ∈ t.2, b.Fits c.capacity) ∧ Accrues t.2 [] t.1.entries)
    (fun t number raw ⟨hfits, haccrues⟩ => ⟨?_, ?_⟩) ⟨?_, ?_⟩
  · exact List.forall_mem_append.mpr ⟨hfits, fits_traceStep t.1 number raw⟩
  · exact haccrues.trans (accrues_traceStep t.1 number raw)
  · exact List.forall_mem_nil _
  · exact accrues_refl _ _

end Accrues

end Emission

namespace Assembly

open LineBuffer (Edit)

/-- Run both passes over lines, and list the buffers that the second goes through. -/
def traceLines (s : Settings) (allowUnresolved : Bool) (file : String) (lines : List Text) :
    Assembly × List LineBuffer :=
  match Definitions.run s file lines with
  | (d, some stop) => (stoppedEarly s d stop, [])
  | (d, none) =>
      let context : Statement.Context :=
        { symbols := d.symbols, capacity := s.maxLineLength
          allowUnresolved := allowUnresolved, file := file }
      let ((m, bs), stop) := Emission.traceRun s context d.report lines
      (finished d m stop, bs)

/-- Listing the buffers changes nothing about the assembly. -/
theorem fst_traceLines (s : Settings) (allowUnresolved : Bool) (file : String)
    (lines : List Text) :
    (traceLines s allowUnresolved file lines).1 = ofLines s allowUnresolved file lines := by
  rw [traceLines, ofLines]
  cases Definitions.run s file lines with
  | mk d stop =>
    cases stop with
    | some e => rfl
    | none => simp only [Emission.run_eq_traceRun]

/-- The buffers that an assembly goes through, listed by a run that is the assembly otherwise
(`fst_traceLines`). -/
def buffers (s : Settings) (allowUnresolved : Bool) (file : String) (source : Text) :
    List LineBuffer :=
  (traceLines s allowUnresolved file (Text.lines source)).2

/-- The buffers of an assembly fit, and what it puts out is from them. -/
theorem of_buffers (s : Settings) (allowUnresolved : Bool) (file : String) (source : Text) :
    (∀ b ∈ buffers s allowUnresolved file source, b.Fits s.maxLineLength)
      ∧ ∀ entry ∈ (ofSource s allowUnresolved file source).entries,
        Emission.EncodedFrom (buffers s allowUnresolved file source) entry := by
  show _ ∧ ∀ entry ∈ (ofLines s allowUnresolved file (Text.lines source)).entries, _
  rw [← fst_traceLines, buffers, traceLines]
  split
  · exact ⟨List.forall_mem_nil _, List.forall_mem_nil _⟩
  · rename_i d hrun
    obtain ⟨hfits, added, hadded, hfrom⟩ := Emission.of_traceRun s
      ⟨d.symbols, s.maxLineLength, allowUnresolved, file⟩ d.report (Text.lines source)
    refine ⟨hfits, fun entry hentry => hfrom entry ?_⟩
    rw [List.nil_append] at hadded
    rw [← hadded]
    exact hentry

-- The longest text of the first line fills its buffer, and is none that is encoded.
example :
    (buffers { maxLineLength := 12 } true "a.asm" " lda x+1\nx: bne y\n".toList).map
        (fun b => String.ofList b.text)
      = ["lda x+1", "lda $0003+1", "lda $0004", "bne y", "bne y", "bne $00", "bne $00"] := by
  decide

end Assembly

end Cross6502
