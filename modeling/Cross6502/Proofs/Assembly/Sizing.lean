import Cross6502.Proofs.Assembly.Drift

/-!
# Sizing is all that drifts

The passes are in step at the end of an assembly that succeeds (`InStep`).  Here they
are stopped in front of every line, and what they have in common there is read off:
the same segments with the same starts, and the same one of them current.

Two kinds of entries hold bytes, and only one of them can have slack.  A byte that a
directive puts out takes the room it was given.  An instruction has a mode by its text
alone, since the first pass found one, and takes what its final text needs.  So the
drift of a segment is that of its instructions (`drift_filter_isInstruction`), and the
address of a label in the table is the one where it is reached, but for the sizes of
the instructions in front of it.
-/

namespace Cross6502

/-! ## Entries with slack -/

namespace ListingEntry

/-- Bytes that do not come from a directive. -/
def isInstruction : ListingEntry → Bool
  | code _ _ _ _ source => source.head? != some '.'
  | _ => false

/-- A directive puts out one byte, and the text of an instruction has a mode. -/
def Sized : ListingEntry → Prop
  | code _ _ bytes _ source =>
      if source.head? = some '.' then bytes.length = 1
      else ∃ mode, Line.effectiveMode source = .ok mode
  | _ => True

theorem slack_of_not_isInstruction {e : ListingEntry} (h : e.Sized) (he : e.isInstruction = false)
    (segment : Int) : e.slack segment = 0 := by
  cases e with
  | label _ _ _ _ => rfl
  | directive _ _ => rfl
  | code s address bytes line source =>
    have hdot : source.head? = some '.' := by simpa [isInstruction] using he
    have hbytes : bytes.length = 1 := by
      rw [Sized, if_pos hdot] at h
      exact h
    exact slack_byte hdot s address hbytes line segment

end ListingEntry

theorem drift_cons (segment : Int) (e : ListingEntry) (entries : List ListingEntry) :
    drift segment (e :: entries) = e.slack segment + drift segment entries := by
  simp [drift]

/-- The drift of a segment is that of its instructions. -/
theorem drift_filter_isInstruction {entries : List ListingEntry} (h : ∀ e ∈ entries, e.Sized)
    (segment : Int) :
    drift segment (entries.filter ListingEntry.isInstruction) = drift segment entries := by
  induction entries with
  | nil => rfl
  | cons e entries ih =>
    have hrest := ih fun e' he' => h e' (List.mem_cons_of_mem e he')
    rw [List.filter_cons, drift_cons]
    cases he : e.isInstruction with
    | true => rw [if_pos rfl, drift_cons, hrest]
    | false =>
      rw [if_neg Bool.false_ne_true, hrest,
        ListingEntry.slack_of_not_isInstruction (h e List.mem_cons_self) he, Int.zero_add]

theorem Aligned.starts_eq {layout object : Object} {current : Int} {entries : List ListingEntry}
    (h : Aligned layout object current entries) :
    layout.segments.map Segment.start = object.segments.map Segment.start := by
  refine List.ext_getElem? fun i => ?_
  rw [List.getElem?_map, List.getElem?_map]
  by_cases hi : i < object.segments.length
  · obtain ⟨s, hs⟩ := Object.exists_getElem?_of_lt (h.length_eq ▸ hi)
    obtain ⟨t, ht⟩ := Object.exists_getElem?_of_lt hi
    rw [hs, ht, Option.map_some, Option.map_some, (h.apart i s t hs ht).1]
  · have hobject : object.segments.length ≤ i := Nat.le_of_not_lt hi
    rw [List.getElem?_eq_none hobject, List.getElem?_eq_none (h.length_eq ▸ hobject)]

/-! ## Lines -/

namespace InStep

variable {d d' : Definitions} {m m' : Emission} {number : Nat}

/-- The entry of a directive that took effect in the current segment. -/
theorem sized_directiveEntry {object : Object} {current : Int}
    (hinside : ∃ n : Nat, current = n ∧ n < object.segments.length) {directive : Directive}
    {body : Text} (hdot : body.head? = some '.')
    (happly : directive.apply object current = .ok (m'.object, m'.current)) :
    (m'.directiveEntry number body directive).Sized := by
  rcases Directive.of_apply happly with
    ⟨argument, l, rfl, -⟩ | ⟨rfl, -⟩ | ⟨argument, l, rfl, -, hextend, hcurrent⟩
  · trivial
  · trivial
  · obtain ⟨n, hn, hlt⟩ := hinside
    have hone := length_last_byte hlt (hn ▸ hextend) rfl (hcurrent.trans hn)
    simp only [Emission.directiveEntry, ListingEntry.Sized, if_pos hdot]
    exact hone

theorem sized_body {c : Statement.Context} {body : Text} {layout : Object} {current : Int}
    (hinside : ∃ n : Nat, m.current = n ∧ n < m.object.segments.length)
    (hlayout : d.layOut body = .ok (layout, current))
    (hbody : Emission.BodyAfter c m number body m') (h : ∀ e ∈ m.entries, e.Sized) :
    ∀ e ∈ m'.entries, e.Sized := by
  cases hbody with
  | nothing hempty hobject hcurrent hentries =>
    rw [hentries]
    exact h
  | directive directive hdot hdirective happly hentries =>
    rw [hentries, List.forall_mem_append, List.forall_mem_singleton]
    exact ⟨h, sized_directiveEntry hinside hdot happly⟩
  | instruction e pending o hempty hdot hassemble hextend hobject hcurrent hentries =>
    have hempty' : body.isEmpty = false := by
      rw [← Bool.not_eq_true, List.isEmpty_iff]
      exact hempty
    rw [Definitions.layOut, hempty', if_neg (by decide), if_neg hdot] at hlayout
    obtain ⟨mode, hmode, -⟩ := Outcome.bind_eq_ok_iff.mp hlayout
    rw [hentries, List.forall_mem_append, List.forall_mem_singleton]
    refine ⟨h, ?_⟩
    rw [ListingEntry.Sized, if_neg hdot]
    exact ⟨mode, hmode⟩

theorem sized_step {s : Settings} {c : Statement.Context} {raw : Text} (h : InStep d m)
    (hd : Definitions.step s d number raw = (d', none)) (hdclean : d'.report.hasErrors = false)
    (hm : Emission.step c m number raw = (m', none)) (hmclean : m'.report.hasErrors = false)
    (hsized : ∀ e ∈ m.entries, e.Sized) : ∀ e ∈ m'.entries, e.Sized := by
  have hdafter := (Definitions.of_step hd hdclean).2
  have hmafter := (Emission.of_step hm hmclean).2
  cases hline : Line.ofClean (Line.clean raw) with
  | blank =>
    rw [hline] at hmafter
    rw [hmafter.2.2]
    exact hsized
  | declaration name value =>
    rw [hline] at hmafter
    rw [hmafter.2.2]
    exact hsized
  | statement label text =>
    rw [hline] at hdafter hmafter
    cases label with
    | none => exact sized_body h.aligned.inside hdafter.1 hmafter hsized
    | some name =>
      refine sized_body (m := m.mark number (some name)) h.aligned.inside hdafter.1 hmafter ?_
      rw [Emission.mark, Emission.record, List.forall_mem_append, List.forall_mem_singleton]
      exact ⟨hsized, trivial⟩

/-- The passes over the same lines, where neither reports an error. -/
theorem of_walks {s : Settings} {c : Statement.Context} {file : String} {report : Report}
    {lines : List Text}
    (hd : walkLines (Definitions.step s) 1 lines (.start s file) = (d, none))
    (hdclean : d.report.hasErrors = false)
    (hm : walkLines (Emission.step c) 1 lines (.start s report) = (m, none))
    (hmclean : m.report.hasErrors = false) : InStep d m ∧ ∀ e ∈ m.entries, e.Sized := by
  have hstart : InStep (.start s file) (.start s report)
      ∧ ∀ e ∈ (Emission.start s report).entries, e.Sized :=
    ⟨start s file report, fun e he => by cases he⟩
  refine walkLines_together (p := fun d => d.report.hasErrors = false)
    (q := fun m => m.report.hasErrors = false)
    (R := fun d m => InStep d m ∧ ∀ e ∈ m.entries, e.Sized) ?_ ?_ ?_ hd hdclean hm hmclean hstart
  · intro d number raw d' hstep hclean
    exact (Definitions.of_step hstep hclean).1
  · intro m number raw m' hstep hclean
    exact (Emission.of_step hstep hclean).1
  · rintro d m number raw d' m' hd hdclean hm hmclean ⟨hinStep, hsized⟩
    exact ⟨hinStep.step hd hdclean hm hmclean, hinStep.sized_step hd hdclean hm hmclean hsized⟩

end InStep

namespace Definitions

theorem clean_of_walk {s : Settings} {d d' : Definitions} {number : Nat} {lines : List Text}
    (h : walkLines (step s) number lines d = (d', none)) (hclean : d'.report.hasErrors = false) :
    d.report.hasErrors = false :=
  walkLines_back (p := fun d => d.report.hasErrors = false)
    (fun _ _ _ _ hstep hok => (of_step hstep hok).1) h hclean

end Definitions

namespace Emission

variable {c : Statement.Context} {m m' : Emission} {number : Nat}

theorem entries_prefix_of_body {body : Text} (h : BodyAfter c m number body m') :
    m.entries <+: m'.entries := by
  cases h with
  | nothing _ _ _ hentries => exact hentries ▸ List.prefix_rfl
  | directive _ _ _ _ hentries => exact ⟨_, hentries.symm⟩
  | instruction _ _ _ _ _ _ _ _ _ hentries => exact ⟨_, hentries.symm⟩

theorem entries_prefix_of_step {raw : Text} (h : step c m number raw = (m', none))
    (hclean : m'.report.hasErrors = false) : m.entries <+: m'.entries := by
  rcases same_or_body_of_step h hclean with ⟨-, -, hentries⟩ | ⟨label, body, -, hbody⟩
  · exact hentries ▸ List.prefix_rfl
  · have hmark : m.entries <+: (m.mark number label).entries := by
      cases label with
      | none => exact List.prefix_rfl
      | some name => exact List.prefix_append _ _
    exact hmark.trans (entries_prefix_of_body hbody)

theorem clean_of_walk {lines : List Text} (h : walkLines (step c) number lines m = (m', none))
    (hclean : m'.report.hasErrors = false) : m.report.hasErrors = false :=
  walkLines_back (p := fun m => m.report.hasErrors = false)
    (fun _ _ _ _ hstep hok => (of_step hstep hok).1) h hclean

/-- Nothing is ever taken out of the account. -/
theorem entries_prefix_of_walk {lines : List Text}
    (h : walkLines (step c) number lines m = (m', none))
    (hclean : m'.report.hasErrors = false) : m.entries <+: m'.entries :=
  walkLines_invariant (p := fun m => m.report.hasErrors = false)
    (I := fun _ n => m.entries <+: n.entries) (fun _ _ _ _ hstep hok => (of_step hstep hok).1)
    (fun _ _ _ _ hstep hok hI => hI.trans (entries_prefix_of_step hstep hok)) h hclean
    List.prefix_rfl

end Emission

/-! ## The passes in front of every line -/

namespace Assembly

/-- The first pass in front of a line. -/
def definitionsAt (s : Settings) (file : String) (source : Text) (k : Nat) : Definitions :=
  (Definitions.run s file ((Text.lines source).take k)).1

/-- The second pass in front of a line, with the names of all lines known. -/
def emissionAt (s : Settings) (allow : Bool) (file : String) (source : Text) (k : Nat) : Emission :=
  let d := (Definitions.run s file (Text.lines source)).1
  (Emission.run s ⟨d.symbols, s.maxLineLength, allow, file⟩ d.report
    ((Text.lines source).take k)).1

section Succeeds

variable {s : Settings} {allow : Bool} {file : String} {source : Text}

/-- The passes are in step in front of every line, and the second one goes on from there. -/
theorem inStep_at (h : (ofSource s allow file source).failure = none) (k : Nat) :
    InStep (definitionsAt s file source k) (emissionAt s allow file source k)
      ∧ (∀ e ∈ (emissionAt s allow file source k).entries, e.Sized)
      ∧ ∃ c m, walkLines (Emission.step c) (1 + ((Text.lines source).take k).length)
            ((Text.lines source).drop k) (emissionAt s allow file source k) = (m, none)
          ∧ m.report.hasErrors = false ∧ (ofSource s allow file source).entries = m.entries := by
  obtain ⟨d, m, hd, hm, hdclean, hmclean, -, hentries, -⟩ := exists_passes h
  have hsplit : Text.lines source = (Text.lines source).take k ++ (Text.lines source).drop k :=
    (List.take_append_drop k _).symm
  obtain ⟨dk, hdk, hdrest⟩ := walkLines_split (hsplit ▸ hd)
  obtain ⟨mk, hmk, hmrest⟩ := walkLines_split (hsplit ▸ hm)
  have hdkclean := Definitions.clean_of_walk hdrest hdclean
  have hmkclean := Emission.clean_of_walk hmrest hmclean
  have hdefinitions : definitionsAt s file source k = dk := congrArg Prod.fst hdk
  have hemission : emissionAt s allow file source k = mk := by
    rw [emissionAt, hd]
    exact congrArg Prod.fst hmk
  rw [hdefinitions, hemission]
  obtain ⟨hinStep, hsized⟩ := InStep.of_walks hdk hdkclean hmk hmkclean
  exact ⟨hinStep, hsized, _, m, hmrest, hmclean, hentries⟩

theorem emissionAt_length (h : (ofSource s allow file source).failure = none) :
    (emissionAt s allow file source (Text.lines source).length).entries
        = (ofSource s allow file source).entries
      ∧ (emissionAt s allow file source (Text.lines source).length).object.segments
        = (ofSource s allow file source).object.segments := by
  obtain ⟨d, m, hd, hm, -, -, -, hentries, hobject⟩ := exists_passes h
  rw [emissionAt, List.take_length, hd, hm, hentries, hobject]
  exact ⟨rfl, rfl⟩

/-- A labelled line leaves its label in the account, behind all that was there. -/
theorem exists_label_entry (h : (ofSource s allow file source).failure = none) {k : Nat}
    {raw name body : Text} (hraw : (Text.lines source)[k]? = some raw)
    (hline : Line.ofClean (Line.clean raw) = .statement (some name) body) :
    ∃ after, (ofSource s allow file source).entries
      = (emissionAt s allow file source k).entries
        ++ .label (emissionAt s allow file source k).current
            (emissionAt s allow file source k).segment.finish (k + 1) name :: after := by
  obtain ⟨-, -, c, m, hrest, hclean, hentries⟩ := inStep_at h k
  obtain ⟨hk, hget⟩ := List.getElem?_eq_some_iff.mp hraw
  rw [List.drop_eq_getElem_cons hk, hget, List.length_take_of_le (Nat.le_of_lt hk)] at hrest
  obtain ⟨m₁, hstep, hrest⟩ := walkLines_cons hrest
  have hafter := (Emission.of_step hstep (Emission.clean_of_walk hrest hclean)).2
  rw [hline] at hafter
  obtain ⟨after, hafter⟩ :=
    (Emission.entries_prefix_of_body hafter).trans (Emission.entries_prefix_of_walk hrest hclean)
  refine ⟨after, ?_⟩
  rw [hentries, ← hafter, Nat.add_comm k 1, Emission.mark, Emission.record, List.append_assoc]
  rfl

/-- In an assembly that succeeds, sizing instructions is the only way the passes drift
apart.  They have the same segments at the same starts, and the same one of them is
current in front of every line.  A label is in the table at the address where the second
pass reaches it, plus what the instructions in front of it in its segment asked for by
their texts less what they were assembled to, modulo `2 ^ 16`. -/
theorem drifts_by_sizing_only (h : (ofSource s allow file source).failure = none) :
    (definitionsAt s file source (Text.lines source).length).layout.segments.map Segment.start
        = (ofSource s allow file source).object.segments.map Segment.start
      ∧ (∀ k, (definitionsAt s file source k).current
          = (emissionAt s allow file source k).current)
      ∧ (∀ segment address bytes line text,
          .code segment address bytes line text ∈ (ofSource s allow file source).entries →
          text.head? ≠ some '.' →
          ∃ mode, Line.effectiveMode text = .ok mode ∧ reservedRoom text = mode.length)
      ∧ ∀ k raw name body, (Text.lines source)[k]? = some raw →
          Line.ofClean (Line.clean raw) = .statement (some name) body →
          ∃ after sym,
            (ofSource s allow file source).entries
              = (emissionAt s allow file source k).entries
                ++ .label (emissionAt s allow file source k).current
                    (emissionAt s allow file source k).segment.finish (k + 1) name :: after
            ∧ (ofSource s allow file source).symbols.find? name = some sym
            ∧ sym.address
              = ((emissionAt s allow file source k).segment.finish
                + drift (emissionAt s allow file source k).current
                    ((emissionAt s allow file source k).entries.filter
                      ListingEntry.isInstruction)) % 65536 := by
  obtain ⟨hentries, hsegments⟩ := emissionAt_length h
  obtain ⟨hinStep, hsized, -⟩ := inStep_at h (Text.lines source).length
  refine ⟨?_, fun k => (inStep_at h k).1.current_eq, ?_, ?_⟩
  · rw [← hsegments]
    exact hinStep.aligned.starts_eq
  · intro segment address bytes line text hmem hdot
    have hentry := hsized _ (hentries ▸ hmem)
    rw [ListingEntry.Sized, if_neg hdot] at hentry
    obtain ⟨mode, hmode⟩ := hentry
    exact ⟨mode, hmode, by rw [reservedRoom, if_neg hdot, hmode]⟩
  · intro k raw name body hraw hline
    obtain ⟨after, hafter⟩ := exists_label_entry h hraw hline
    obtain ⟨sym, hfind, haddress⟩ := labelsAccounted h _ _ _ _ _ _ hafter
    refine ⟨after, sym, hafter, hfind, ?_⟩
    rw [drift_filter_isInstruction (inStep_at h k).2.1]
    exact haddress

/-- A sum that comes out wide, a byte in another segment, and a label behind the sum. -/
def interleavedSource : Text :=
  " lda $80+$80\n.org $600\n nop\n.end\nloop: jmp loop\n".toList

/-- The label is reached at the third byte, and the sum was one byte longer than the room
that was set aside for it. -/
theorem drifts_by_sizing_only_interleavedSource :
    (ofSource {} false "<input>" interleavedSource).failure = none
      ∧ .label 0 3 5 "loop".toList ∈ (ofSource {} false "<input>" interleavedSource).entries
      ∧ ∃ sym, (ofSource {} false "<input>" interleavedSource).symbols.find? "loop".toList
          = some sym ∧ sym.address = (3 + -1) % 65536 := by
  have hfailure : (ofSource {} false "<input>" interleavedSource).failure = none := by
    decide
  obtain ⟨-, sym, -, hfind, haddress⟩ :=
    (drifts_by_sizing_only hfailure).2.2.2 4 "loop: jmp loop".toList "loop".toList
      "jmp loop".toList (by decide) (by decide)
  have hreached : (emissionAt {} false "<input>" interleavedSource 4).segment.finish = 3 := by
    decide
  have hdrift : drift (emissionAt {} false "<input>" interleavedSource 4).current
      ((emissionAt {} false "<input>" interleavedSource 4).entries.filter
        ListingEntry.isInstruction) = -1 := by
    decide
  rw [hreached, hdrift] at haddress
  exact ⟨hfailure, by decide, sym, hfind, haddress⟩

end Succeeds

end Assembly

end Cross6502
