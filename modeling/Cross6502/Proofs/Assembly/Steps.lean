import Cross6502.Assembly.Run
import Cross6502.Proofs.Outcome

/-!
# What a line does

An assembly that succeeds has reported no error on any line, since a report never
loses a record.  On such lines each pass does one of a few things, and they are said
here once: `Definitions.After` lists what a line does to the first pass,
`Emission.After` what it does to the second.  Facts about whole assemblies follow by
checking the cases of these lists and walking over the lines
(`walkLines_invariant`, `walkLines_together`).  What is true of assemblies that fail as
well is carried along by `walkLines_keeps` and `goesWell_walkLines`.

For an instruction on a line it is said likewise what it goes through on the way to its
bytes (`Statement.outcome_assemble_eq_ok_iff`).
-/

namespace Cross6502

/-! ## Walks -/

section Walk

variable {σ τ : Type} {step : σ → Nat → Text → σ × Option Failure}
  {step' : τ → Nat → Text → τ × Option Failure}

theorem walkLines_cons {number : Nat} {raw : Text} {rest : List Text} {s s' : σ}
    (h : walkLines step number (raw :: rest) s = (s', none)) :
    ∃ s₁, step s number raw = (s₁, none) ∧ walkLines step (number + 1) rest s₁ = (s', none) := by
  rw [walkLines] at h
  split at h
  · rename_i s₁ hstep
    exact ⟨s₁, hstep, h⟩
  · cases h

/-- A walk goes on from where the walk over the first lines ends. -/
theorem walkLines_split {number : Nat} {before after : List Text} {s s' : σ}
    (h : walkLines step number (before ++ after) s = (s', none)) :
    ∃ s₁, walkLines step number before s = (s₁, none)
      ∧ walkLines step (number + before.length) after s₁ = (s', none) := by
  induction before generalizing number s with
  | nil => exact ⟨s, rfl, h⟩
  | cons raw rest ih =>
    obtain ⟨s₁, hstep, hrest⟩ := walkLines_cons h
    obtain ⟨s₂, hbefore, hafter⟩ := ih hrest
    refine ⟨s₂, ?_, ?_⟩
    · rw [walkLines, hstep]
      exact hbefore
    · rw [List.length_cons, Nat.add_comm rest.length, ← Nat.add_assoc]
      exact hafter

/-- Lines in a row are walked over one part after another. -/
theorem walkLines_append {number : Nat} {front : List Text} {s s' : σ}
    (h : walkLines step number front s = (s', none)) (back : List Text) :
    walkLines step number (front ++ back) s = walkLines step (number + front.length) back s' := by
  induction front generalizing number s with
  | nil =>
    cases h
    rfl
  | cons raw front ih =>
    obtain ⟨s₁, hstep, hrest⟩ := walkLines_cons h
    rw [List.cons_append, walkLines, hstep, List.length_cons, ← Nat.add_assoc,
      Nat.add_right_comm]
    exact ih hrest

theorem walkLines_concat {number : Nat} {before : List Text} {raw : Text} {s s' : σ} :
    walkLines step number (before ++ [raw]) s = (s', none) ↔
      ∃ s₁, walkLines step number before s = (s₁, none)
        ∧ step s₁ (number + before.length) raw = (s', none) := by
  constructor
  · intro h
    obtain ⟨s₁, hbefore, hlast⟩ := walkLines_split h
    obtain ⟨s₂, hstep, hend⟩ := walkLines_cons hlast
    cases hend
    exact ⟨s₁, hbefore, hstep⟩
  · rintro ⟨s₁, hbefore, hstep⟩
    rw [walkLines_append hbefore, walkLines, hstep]
    rfl

/-- What holds at the end of a walk and is never regained held from the start. -/
theorem walkLines_back {p : σ → Prop}
    (hback : ∀ s number raw s', step s number raw = (s', none) → p s' → p s)
    {number : Nat} {lines : List Text} {s s' : σ}
    (h : walkLines step number lines s = (s', none)) (hp : p s') : p s := by
  induction lines generalizing number s with
  | nil =>
    cases h
    exact hp
  | cons raw rest ih =>
    obtain ⟨s₁, hstep, hrest⟩ := walkLines_cons h
    exact hback s number raw s₁ hstep (ih hrest)

/-- An invariant that may depend on the number of the line to come, kept by the steps
that end in a good state, holds at the end of a walk that ends in one. -/
theorem walkLines_invariant {p : σ → Prop} {I : Nat → σ → Prop}
    (hback : ∀ s number raw s', step s number raw = (s', none) → p s' → p s)
    (hstep : ∀ s number raw s', step s number raw = (s', none) → p s' → I number s →
      I (number + 1) s')
    {number : Nat} {lines : List Text} {s s' : σ}
    (h : walkLines step number lines s = (s', none)) (hp : p s') (hI : I number s) :
    I (number + lines.length) s' := by
  induction lines generalizing number s with
  | nil =>
    cases h
    exact hI
  | cons raw rest ih =>
    obtain ⟨s₁, hfirst, hrest⟩ := walkLines_cons h
    rw [List.length_cons, Nat.add_comm rest.length, ← Nat.add_assoc]
    exact ih hrest (hstep s number raw s₁ hfirst (walkLines_back hback hrest hp) hI)

/-- Two walks over the same lines, taken together. -/
theorem walkLines_together {p : σ → Prop} {q : τ → Prop} {R : σ → τ → Prop}
    (hback : ∀ s number raw s', step s number raw = (s', none) → p s' → p s)
    (hback' : ∀ t number raw t', step' t number raw = (t', none) → q t' → q t)
    (hstep : ∀ s t number raw s' t', step s number raw = (s', none) → p s' →
      step' t number raw = (t', none) → q t' → R s t → R s' t')
    {number : Nat} {lines : List Text} {s s' : σ} {t t' : τ}
    (h : walkLines step number lines s = (s', none)) (hp : p s')
    (h' : walkLines step' number lines t = (t', none)) (hq : q t') (hR : R s t) :
    R s' t' := by
  induction lines generalizing number s t with
  | nil =>
    cases h
    cases h'
    exact hR
  | cons raw rest ih =>
    obtain ⟨s₁, hfirst, hrest⟩ := walkLines_cons h
    obtain ⟨t₁, hfirst', hrest'⟩ := walkLines_cons h'
    exact ih hrest hrest' (hstep s t number raw s₁ t₁ hfirst (walkLines_back hback hrest hp)
      hfirst' (walkLines_back hback' hrest' hq) hR)

/-- What every step keeps, a walk keeps, whether it stops or not. -/
theorem walkLines_keeps {I : σ → Prop} (hstep : ∀ s number raw, I s → I (step s number raw).1)
    {number : Nat} {lines : List Text} {s : σ} (hI : I s) :
    I (walkLines step number lines s).1 := by
  induction lines generalizing number s with
  | nil => exact hI
  | cons raw rest ih =>
    have hfirst := hstep s number raw hI
    rw [walkLines]
    generalize step s number raw = r at hfirst
    obtain ⟨s₁, stop⟩ := r
    cases stop with
    | none => exact ih hfirst
    | some e => exact hfirst

/-- A walk over states that show others is, as they show it, a walk over the others. -/
theorem walkLines_map {f : σ → τ}
    (hstep : ∀ s number raw,
      step' (f s) number raw = (f (step s number raw).1, (step s number raw).2))
    (number : Nat) (lines : List Text) (s : σ) :
    walkLines step' number lines (f s)
      = (f (walkLines step number lines s).1, (walkLines step number lines s).2) := by
  induction lines generalizing number s with
  | nil => rfl
  | cons raw rest ih =>
    rw [walkLines, walkLines, hstep]
    obtain ⟨s₁, stop⟩ := step s number raw
    cases stop with
    | none => exact ih (number + 1) s₁
    | some e => rfl

/-- A step goes on in a state of one kind, or stops with a failure of another. -/
inductive GoesWell (p : σ → Prop) (q : Failure → Prop) : σ × Option Failure → Prop
  | goes {s : σ} (h : p s) : GoesWell p q (s, none)
  | stops {s : σ} {e : Failure} (h : q e) : GoesWell p q (s, some e)

theorem GoesWell.mono {p p' : σ → Prop} {q : Failure → Prop} {r : σ × Option Failure}
    (h : GoesWell p q r) (hp : ∀ s, p s → p' s) : GoesWell p' q r := by
  cases h with
  | goes h => exact .goes (hp _ h)
  | stops h => exact .stops h

/-- If every step from a state that satisfies an invariant goes on in one or stops well,
then so does the walk. -/
theorem goesWell_walkLines {I : Nat → σ → Prop} {q : Failure → Prop} {lines : List Text}
    {first : Nat} {s : σ}
    (hstep : ∀ s number raw, raw ∈ lines → number < first + lines.length → I number s →
      GoesWell (I (number + 1)) q (step s number raw))
    (hI : I first s) : GoesWell (I (first + lines.length)) q (walkLines step first lines s) := by
  induction lines generalizing first s with
  | nil => exact .goes hI
  | cons raw rest ih =>
    rw [List.length_cons] at hstep ⊢
    have hfirst := hstep s first raw List.mem_cons_self (by omega) hI
    rw [walkLines]
    generalize step s first raw = r at hfirst
    cases hfirst with
    | goes h =>
      rw [Nat.add_comm rest.length, ← Nat.add_assoc]
      exact ih (fun s number raw hraw hlt => hstep s number raw (List.mem_cons_of_mem _ hraw)
        (by omega)) h
    | stops h => exact .stops h

end Walk

/-! ## Instructions -/

namespace Statement

variable {c : Context} {text : Text} {address : Int} {number : Nat} {b b' : LineBuffer}
  {e : Encoded} {pending : List Text}

/-- The first name is not found and passed over, or a zero is put in its place. -/
theorem outcome_holdPlaces_cons_eq_ok_iff {name : Text} {names : List Text} :
    (holdPlaces number (name :: names) b).outcome = .ok (b', pending) ↔
      (∃ b₁, Names.holdPlace b name = .ok (b₁, none)
        ∧ (holdPlaces number names b₁).outcome = .ok (b', pending))
      ∨ ∃ b₁ i more, Names.holdPlace b name = .ok (b₁, some i)
        ∧ (holdPlaces number names b₁).outcome = .ok (b', more) ∧ pending = name :: more := by
  rw [holdPlaces]
  constructor
  · intro h
    split at h
    · cases h
    · rename_i b₁ hhold
      exact .inl ⟨b₁, hhold, h⟩
    · rename_i b₁ i hhold
      simp only [Logged.outcome_bind, Logged.outcome_say] at h
      obtain ⟨_, -, h⟩ := Outcome.bind_eq_ok_iff.mp h
      obtain ⟨⟨b₂, more⟩, hrest, h⟩ := Outcome.bind_eq_ok_iff.mp h
      cases h
      exact .inr ⟨b₁, i, more, hhold, hrest, rfl⟩
  · rintro (⟨b₁, hhold, hrest⟩ | ⟨b₁, i, more, hhold, hrest, rfl⟩)
    · rw [hhold]
      exact hrest
    · rw [hhold]
      simp only [Logged.outcome_bind, Logged.outcome_say]
      exact Outcome.bind_eq_ok_iff.mpr ⟨_, rfl, Outcome.bind_eq_ok_iff.mpr ⟨_, hrest, rfl⟩⟩

/-- A line is left alone where its operand is plain.  Otherwise it has unknown names, and they
may be left to the linker. -/
theorem outcome_deferNames_eq_ok_iff : (deferNames c number b).outcome = .ok (b', pending) ↔
    Literal.isPlain (Line.operand b.text) = true ∧ b' = b ∧ pending = []
      ∨ Literal.isPlain (Line.operand b.text) = false
        ∧ c.allowUnresolved = true ∧ unknownNames c b.text ≠ []
        ∧ ∃ held folded, (holdPlaces number (unknownNames c b.text) b).outcome = .ok (held, pending)
          ∧ Arithmetic.fold held = .ok (b', folded) := by
  have hallowed : (!(c.allowUnresolved && !(unknownNames c b.text).isEmpty)) = false
      ↔ c.allowUnresolved = true ∧ unknownNames c b.text ≠ [] := by
    simp
  rw [deferNames]
  constructor
  · intro h
    split at h
    · rename_i hplain
      cases h
      exact .inl ⟨hplain, rfl, rfl⟩
    · rename_i hplain
      simp only at h
      split at h
      · cases h
      · rename_i hnot
        obtain ⟨hallow, hnames⟩ := hallowed.mp (Bool.eq_false_iff.mpr hnot)
        simp only [Logged.outcome_bind, Logged.outcome_ofExcept] at h
        obtain ⟨⟨held, names⟩, hhold, h⟩ := Outcome.bind_eq_ok_iff.mp h
        obtain ⟨⟨b₂, folded⟩, hfold, h⟩ := Outcome.bind_eq_ok_iff.mp h
        cases h
        exact .inr ⟨Bool.eq_false_iff.mpr hplain, hallow, hnames, held, folded, hhold, hfold⟩
  · rintro (⟨hplain, rfl, rfl⟩ | ⟨hplain, hallow, hnames, held, folded, hhold, hfold⟩)
    · rw [if_pos hplain]
      rfl
    · rw [if_neg (Bool.eq_false_iff.mp hplain)]
      simp only [hallowed.mpr ⟨hallow, hnames⟩, Bool.false_eq_true, if_false, Logged.outcome_bind,
        Logged.outcome_ofExcept]
      exact Outcome.bind_eq_ok_iff.mpr ⟨_, hhold, Outcome.bind_eq_ok_iff.mpr ⟨_, hfold, rfl⟩⟩

/-- The four steps from a line to its bytes. -/
theorem outcome_assemble_eq_ok_iff :
    (assemble c text address number).outcome = .ok (e, pending) ↔
      ∃ b₁ b₂ folded b₃, resolve c (bufferFor c text number) address = .ok b₁
        ∧ Arithmetic.fold b₁ = .ok (b₂, folded)
        ∧ (deferNames c number b₂).outcome = .ok (b₃, pending)
        ∧ Encoded.ofLine b₃.text = .ok e := by
  rw [assemble]
  simp only [Logged.outcome_bind, Logged.outcome_ofExcept, Logged.outcome_say]
  constructor
  · intro h
    obtain ⟨b₁, hresolve, h⟩ := Outcome.bind_eq_ok_iff.mp h
    obtain ⟨⟨b₂, folded⟩, hfold, h⟩ := Outcome.bind_eq_ok_iff.mp h
    obtain ⟨⟨b₃, names⟩, hdefer, h⟩ := Outcome.bind_eq_ok_iff.mp h
    obtain ⟨_, -, h⟩ := Outcome.bind_eq_ok_iff.mp h
    obtain ⟨e', hline, h⟩ := Outcome.bind_eq_ok_iff.mp h
    cases h
    exact ⟨b₁, b₂, folded, b₃, hresolve, hfold, hdefer, hline⟩
  · rintro ⟨b₁, b₂, folded, b₃, hresolve, hfold, hdefer, hline⟩
    exact Outcome.bind_eq_ok_iff.mpr ⟨_, hresolve, Outcome.bind_eq_ok_iff.mpr ⟨_, hfold,
      Outcome.bind_eq_ok_iff.mpr ⟨_, hdefer, Outcome.bind_eq_ok_iff.mpr ⟨_, rfl,
        Outcome.bind_eq_ok_iff.mpr ⟨_, hline, rfl⟩⟩⟩⟩⟩

end Statement

/-! ## Reports -/

namespace Report

@[simp] theorem hasErrors_atLine (r : Report) (line : Int) :
    (r.atLine line).hasErrors = r.hasErrors := rfl

theorem hasErrors_push (r : Report) (record : Record) :
    (r.push record).hasErrors = (r.hasErrors || record.isError) := by
  simp [hasErrors, push]

@[simp] theorem hasErrors_error (r : Report) (e : SourceError) (line : Option Text) :
    (r.error e line).1.hasErrors = true := by
  simp [error, hasErrors_push, Record.isError]

@[simp] theorem hasErrors_warn (r : Report) (message : String) (line : Option Int) :
    (r.warn message line).hasErrors = r.hasErrors := by
  simp [warn, hasErrors_push, Record.isError]

@[simp] theorem hasErrors_note (r : Report) (message : String) (line : Int) :
    (r.note message line).hasErrors = r.hasErrors := by
  simp [note, hasErrors_push, Record.isError]

end Report

/-! ## The first pass -/

namespace Definitions

theorem hasErrors_of_complain {d d' : Definitions} {e : SourceError} {raw : Text}
    {stop : Option Failure} (h : d.complain e raw = (d', stop)) : d'.report.hasErrors = true := by
  cases h
  exact Report.hasErrors_error ..

theorem hasErrors_noteFirst (d : Definitions) (name : Text) (e : SourceError) :
    (d.noteFirst name e).report.hasErrors = d.report.hasErrors := by
  rw [noteFirst]
  split <;> simp

/-- A definition without an error enters the symbol and does nothing else. -/
theorem of_define {d d' : Definitions} {s : Symbol} {raw : Text} {added : Bool}
    {stop : Option Failure} (h : d.define s raw = (d', added, stop))
    (hclean : d'.report.hasErrors = false) :
    added = true ∧ stop = none ∧ ∃ table, d.symbols.insert s = .ok table ∧
      d' = { d with symbols := table, log := d.log ++ [.added s] } := by
  rw [define] at h
  split at h
  · rename_i table hadd
    cases h
    exact ⟨rfl, rfl, table, hadd, rfl⟩
  · rename_i e hadd
    split at h
    · rename_i d₁ stop₁ hcomplain
      cases h
      exact absurd (hasErrors_of_complain hcomplain) (by simp [hclean])
    · rename_i d₁ hcomplain
      cases h
      rw [hasErrors_noteFirst] at hclean
      exact absurd (hasErrors_of_complain hcomplain) (by simp [hclean])

/-- What a line without an error does to the first pass. -/
def After (d : Definitions) (number : Nat) (line : Line) (d' : Definitions) : Prop :=
  match line with
  | .blank =>
      d'.layout = d.layout ∧ d'.current = d.current ∧ d'.nextCell = d.nextCell
        ∧ d'.symbols = d.symbols
  | .declaration name value =>
      d'.layout = d.layout ∧ d'.current = d.current ∧ d'.nextCell = d.nextCell + 1
        ∧ d.symbols.insert (declared name value d.nextCell number) = .ok d'.symbols
  | .statement none body =>
      d.layOut body = .ok (d'.layout, d'.current) ∧ d'.nextCell = d.nextCell
        ∧ d'.symbols = d.symbols
  | .statement (some name) body =>
      d.layOut body = .ok (d'.layout, d'.current) ∧ d'.nextCell = d.nextCell
        ∧ d.symbols.insert (.ofLabel name d.here number) = .ok d'.symbols

theorem of_declare {s : Settings} {d d' : Definitions} {number : Nat} {raw name : Text}
    {value : Option Text} (h : d.declare s number raw name value = (d', none))
    (hclean : d'.report.hasErrors = false) :
    d.report.hasErrors = false ∧ d.After number (.declaration name value) d' := by
  rw [declare] at h
  split at h
  · exact absurd (hasErrors_of_complain h) (by simp [hclean])
  · split at h
    · rename_i d₁ stop hdefine
      cases h
      obtain ⟨-, -, table, hadd, rfl⟩ := of_define hdefine hclean
      exact ⟨hclean, rfl, rfl, rfl, hadd⟩
    · rename_i d₁ stop hdefine
      cases h
      exact absurd (of_define hdefine hclean).1 (by decide)

theorem of_reserve {d d' : Definitions} {body : Text} (h : d.reserve body = (d', none)) :
    ∃ o current, d.layOut body = .ok (o, current)
      ∧ d' = { d with layout := o, current := current } := by
  rw [reserve] at h
  split at h
  · rename_i o current hlayout
    cases h
    exact ⟨o, current, hlayout, rfl⟩
  · cases h

theorem of_mark {d d' : Definitions} {number : Nat} {raw name : Text} {stop : Option Failure}
    (h : d.mark number raw (some name) = (d', stop)) (hclean : d'.report.hasErrors = false) :
    ∃ table, d.symbols.insert (.ofLabel name d.here number) = .ok table
      ∧ d' = { d with
          symbols := table
          log := d.log ++ [.added (.ofLabel name d.here number)] } := by
  rw [mark] at h
  cases hdefine : d.define (.ofLabel name d.here number) raw with
  | mk d₁ flags =>
    rw [hdefine] at h
    cases h
    obtain ⟨-, -, table, hadd, hd⟩ := of_define hdefine hclean
    exact ⟨table, hadd, hd⟩

/-- A line of the first pass that leaves the report without errors. -/
theorem of_step {s : Settings} {d d' : Definitions} {number : Nat} {raw : Text}
    (h : step s d number raw = (d', none)) (hclean : d'.report.hasErrors = false) :
    d.report.hasErrors = false ∧ d.After number (Line.ofClean (Line.clean raw)) d' := by
  rw [step] at h
  cases hline : Line.ofClean (Line.clean raw) with
  | blank =>
    rw [hline] at h
    cases h
    exact ⟨hclean, rfl, rfl, rfl, rfl⟩
  | declaration name value =>
    rw [hline] at h
    have hafter := of_declare h hclean
    exact hafter
  | statement label body =>
    rw [hline] at h
    cases label with
    | none =>
      obtain ⟨o, current, hlayout, rfl⟩ := of_reserve h
      exact ⟨hclean, hlayout, rfl, rfl⟩
    | some name =>
      simp only at h
      split at h
      · cases h
      · rename_i d₁ hmark
        obtain ⟨o, current, hlayout, rfl⟩ := of_reserve h
        obtain ⟨table, hadd, rfl⟩ := of_mark hmark hclean
        exact ⟨hclean, hlayout, rfl, hadd⟩

end Definitions

/-! ## The second pass -/

namespace Emission

theorem hasErrors_of_complain {m m' : Emission} {e : SourceError} {raw : Text}
    (h : m.complain e raw = (m', none)) : m'.report.hasErrors = true := by
  rw [complain] at h
  split at h
  · cases (Prod.mk.inj h).1
    exact Report.hasErrors_error ..
  · cases h

/-- The entry of a directive that has taken effect. -/
def directiveEntry (m : Emission) (number : Nat) (body : Text) : Directive → ListingEntry
  | .byte _ =>
      .code m.current (m.segment.finish - 1) (m.segment.data.drop (m.segment.size - 1)) number body
  | _ => .directive number body

/-- What the body of a statement without an error does to the second pass. -/
inductive BodyAfter (c : Statement.Context) (m : Emission) (number : Nat) (body : Text)
    (m' : Emission) : Prop
  /-- There is no body. -/
  | nothing (hbody : body = []) (hobject : m'.object = m.object) (hcurrent : m'.current = m.current)
      (hentries : m'.entries = m.entries)
  /-- The body is a directive. -/
  | directive (d : Directive) (hdot : body.head? = some '.') (hd : Directive.ofLine? body = some d)
      (happly : d.apply m.object m.current = .ok (m'.object, m'.current))
      (hentries : m'.entries = m.entries ++ [m'.directiveEntry number body d])
  /-- The body is an instruction. -/
  | instruction (e : Encoded) (pending : List Text) (o : Object) (hbody : body ≠ [])
      (hdot : body.head? ≠ some '.')
      (hassemble :
        (Statement.assemble c body m.segment.finish number).outcome = .ok (e, pending))
      (hextend : m.object.extend m.current e.bytes = .ok o)
      (hobject : m'.object
        = { o with references := o.references ++ m.referencesOf number e pending })
      (hcurrent : m'.current = m.current)
      (hentries : m'.entries
        = m.entries ++ [.code m.current m.segment.finish e.bytes number body])

/-- The report of the state before plays no part. -/
theorem BodyAfter.of_report {c : Statement.Context} {m m' : Emission} {r : Report} {number : Nat}
    {body : Text} (h : BodyAfter c { m with report := r } number body m') :
    BodyAfter c m number body m' := by
  cases h with
  | nothing hbody hobject hcurrent hentries => exact .nothing hbody hobject hcurrent hentries
  | directive d hdot hd happly hentries => exact .directive d hdot hd happly hentries
  | instruction e pending o hbody hdot hassemble hextend hobject hcurrent hentries =>
    exact .instruction e pending o hbody hdot hassemble hextend hobject hcurrent hentries

/-- What a line without an error does to the second pass. -/
def After (c : Statement.Context) (m : Emission) (number : Nat) (line : Line) (m' : Emission) :
    Prop :=
  match line with
  | .statement label body => BodyAfter c (m.mark number label) number body m'
  | _ => m'.object = m.object ∧ m'.current = m.current ∧ m'.entries = m.entries

theorem of_account {m m' : Emission} {number : Nat} {body : Text} {d : Directive}
    (h : m.account number body d = .ok m') :
    m'.report.hasErrors = m.report.hasErrors ∧ m'.object = m.object ∧ m'.current = m.current
      ∧ m'.entries = m.entries ++ [m'.directiveEntry number body d] := by
  cases d with
  | org argument =>
    cases h
    exact ⟨rfl, rfl, rfl, rfl⟩
  | finish =>
    cases h
    exact ⟨rfl, rfl, rfl, rfl⟩
  | byte argument =>
    obtain ⟨m₁, hcheck, h⟩ := Outcome.bind_eq_ok_iff.mp h
    cases h
    obtain ⟨l, -, hcheck⟩ := Outcome.bind_eq_ok_iff.mp hcheck
    split at hcheck
    · cases hcheck
      exact ⟨rfl, rfl, rfl, rfl⟩
    · cases hcheck
      exact ⟨by simp [record], rfl, rfl, rfl⟩

theorem of_directiveLine {c : Statement.Context} {m m' : Emission} {number : Nat} {raw body : Text}
    (hdot : body.head? = some '.') (h : m.directiveLine number raw body = (m', none))
    (hclean : m'.report.hasErrors = false) :
    m.report.hasErrors = false ∧ BodyAfter c m number body m' := by
  rw [directiveLine] at h
  cases hd : Directive.ofLine? body with
  | none =>
    rw [hd] at h
    exact absurd (hasErrors_of_complain h) (by simp [hclean])
  | some d =>
    rw [hd] at h
    simp only at h
    split at h
    · rename_i m₁ hdirect
      cases h
      obtain ⟨⟨o, current⟩, happly, haccount⟩ := Outcome.bind_eq_ok_iff.mp hdirect
      obtain ⟨hreport, hobject, hcurrent, hentries⟩ := of_account haccount
      refine ⟨hreport ▸ hclean, .directive d hdot hd ?_ hentries⟩
      rw [hobject, hcurrent]
      exact happly
    · cases h

theorem of_instructionLine {c : Statement.Context} {m m' : Emission} {number : Nat}
    {raw body : Text} (hbody : body ≠ []) (hdot : body.head? ≠ some '.')
    (h : m.instructionLine c number raw body = (m', none))
    (hclean : m'.report.hasErrors = false) :
    m.report.hasErrors = false ∧ BodyAfter c m number body m' := by
  rw [instructionLine, settle] at h
  split at h
  · rename_i e pending hassemble
    split at h
    · rename_i m₁ hemit
      cases h
      obtain ⟨o, hextend, hemit⟩ := Outcome.bind_eq_ok_iff.mp hemit
      cases hemit
      exact ⟨hclean, .instruction e pending o hbody hdot hassemble hextend rfl rfl rfl⟩
    · cases h
  · rename_i e hassemble
    split at h
    · cases h
    · exact absurd (hasErrors_of_complain h) (by simp [hclean])
  · cases h

theorem of_bodyLine {c : Statement.Context} {m m' : Emission} {number : Nat} {raw body : Text}
    (h : m.bodyLine c number raw body = (m', none)) (hclean : m'.report.hasErrors = false) :
    m.report.hasErrors = false ∧ BodyAfter c m number body m' := by
  rw [bodyLine] at h
  split at h
  · rename_i hempty
    cases h
    exact ⟨hclean, .nothing (List.isEmpty_iff.mp hempty) rfl rfl rfl⟩
  · rename_i hempty
    have hbody : body ≠ [] := fun hnil => hempty (List.isEmpty_iff.mpr hnil)
    split at h
    · rename_i hdot
      exact of_directiveLine hdot h hclean
    · rename_i hdot
      exact of_instructionLine hbody hdot h hclean

/-- A line of the second pass that leaves the report without errors. -/
theorem of_step {c : Statement.Context} {m m' : Emission} {number : Nat} {raw : Text}
    (h : step c m number raw = (m', none)) (hclean : m'.report.hasErrors = false) :
    m.report.hasErrors = false ∧ m.After c number (Line.ofClean (Line.clean raw)) m' := by
  rw [step] at h
  cases hline : Line.ofClean (Line.clean raw) with
  | blank =>
    rw [hline] at h
    cases h
    exact ⟨hclean, rfl, rfl, rfl⟩
  | declaration name value =>
    rw [hline] at h
    simp only at h
    split at h
    · exact absurd (hasErrors_of_complain h) (by simp [hclean])
    · cases h
      exact ⟨hclean, rfl, rfl, rfl⟩
  | statement label body =>
    rw [hline] at h
    simp only at h
    split at h
    · exact absurd (hasErrors_of_complain h) (by simp [hclean])
    · obtain ⟨hreport, hbody⟩ := of_bodyLine h hclean
      cases label with
      | none => exact ⟨hreport, hbody.of_report⟩
      | some name =>
        exact ⟨hreport, hbody.of_report (m := m.mark number (some name))⟩

/-- A line without an error leaves the object and the account as they are, or holds a
statement. -/
theorem same_or_body_of_step {c : Statement.Context} {m m' : Emission} {number : Nat} {raw : Text}
    (h : step c m number raw = (m', none)) (hclean : m'.report.hasErrors = false) :
    (m'.object = m.object ∧ m'.current = m.current ∧ m'.entries = m.entries)
      ∨ ∃ label body, Line.ofClean (Line.clean raw) = .statement label body
        ∧ BodyAfter c (m.mark number label) number body m' := by
  obtain ⟨-, hafter⟩ := of_step h hclean
  cases hline : Line.ofClean (Line.clean raw) with
  | blank =>
    rw [hline] at hafter
    exact .inl hafter
  | declaration name value =>
    rw [hline] at hafter
    exact .inl hafter
  | statement label body =>
    rw [hline] at hafter
    exact .inr ⟨label, body, rfl, hafter⟩

/-- What lines without an error preserve holds behind the last line. -/
theorem invariant_of_run {I : Nat → Emission → Prop} {s : Settings} {c : Statement.Context}
    {report : Report} {lines : List Text} {m : Emission}
    (hstep : ∀ m number raw m', step c m number raw = (m', none) →
      m'.report.hasErrors = false → I number m → I (number + 1) m')
    (h : run s c report lines = (m, none)) (hclean : m.report.hasErrors = false)
    (hstart : I 1 (start s report)) : I (1 + lines.length) m :=
  walkLines_invariant (p := fun m => m.report.hasErrors = false)
    (fun _ _ _ _ hstep hok => (of_step hstep hok).1) hstep h hclean hstart

end Emission

/-! ## Assemblies that succeed -/

namespace Assembly

/-- Both passes of an assembly that succeeds end without an error. -/
theorem exists_passes {s : Settings} {allow : Bool} {file : String} {source : Text}
    (h : (ofSource s allow file source).failure = none) :
    ∃ d m, Definitions.run s file (Text.lines source) = (d, none)
      ∧ Emission.run s ⟨d.symbols, s.maxLineLength, allow, file⟩ d.report (Text.lines source)
        = (m, none)
      ∧ d.report.hasErrors = false ∧ m.report.hasErrors = false
      ∧ (ofSource s allow file source).symbols = d.symbols
      ∧ (ofSource s allow file source).entries = m.entries
      ∧ (ofSource s allow file source).object = { m.object with symbols := some d.symbols } := by
  simp only [ofSource, ofLines] at h ⊢
  cases hd : Definitions.run s file (Text.lines source) with
  | mk d stop =>
    cases stop with
    | some e =>
      rw [hd] at h
      cases h
    | none =>
      simp only [hd] at h
      cases hm : Emission.run s ⟨d.symbols, s.maxLineLength, allow, file⟩ d.report
          (Text.lines source) with
      | mk m stop =>
        simp only [hm, finished] at h ⊢
        cases stop with
        | some e => cases h
        | none =>
          cases hclean : m.report.hasErrors with
          | true =>
            rw [hclean] at h
            cases h
          | false =>
            have hstart : (Emission.start s d.report).report.hasErrors = false :=
              walkLines_back (p := fun m => m.report.hasErrors = false)
                (fun _ _ _ _ hstep hok => (Emission.of_step hstep hok).1) hm hclean
            exact ⟨d, m, rfl, hm, hstart, hclean, rfl, rfl, rfl⟩

/-- The two passes behind an object. -/
theorem exists_passes_of_assemble {s : Settings} {allow : Bool} {file : String} {source : Text}
    {o : Object} (h : (assemble s allow file source).outcome = .ok o) :
    ∃ d m, Definitions.run s file (Text.lines source) = (d, none)
      ∧ Emission.run s ⟨d.symbols, s.maxLineLength, allow, file⟩ d.report (Text.lines source)
        = (m, none)
      ∧ d.report.hasErrors = false ∧ m.report.hasErrors = false
      ∧ o = { m.object with symbols := some d.symbols } := by
  have hfailure : (ofSource s allow file source).failure = none
      ∧ (ofSource s allow file source).object = o := by
    change (ofSource s allow file source).result = .ok o at h
    rw [result] at h
    split at h
    · rename_i hnone
      cases h
      exact ⟨hnone, rfl⟩
    · cases h
  obtain ⟨d, m, hdefine, hemit, hclean, hclean', -, -, hobject⟩ := exists_passes hfailure.1
  rw [hfailure.2] at hobject
  exact ⟨d, m, hdefine, hemit, hclean, hclean', hobject⟩

/-- An assembly whose passes both go through without an error has the object of the
second pass. -/
theorem assemble_of_passes {s : Settings} {allow : Bool} {file : String} {source : Text}
    {d : Definitions} {m : Emission}
    (hdefine : Definitions.run s file (Text.lines source) = (d, none))
    (hemit : Emission.run s ⟨d.symbols, s.maxLineLength, allow, file⟩ d.report
      (Text.lines source) = (m, none))
    (hclean : m.report.hasErrors = false) :
    (assemble s allow file source).outcome = .ok { m.object with symbols := some d.symbols } := by
  have hlines : ofLines s allow file (Text.lines source) = finished d m none := by
    rw [ofLines, hdefine]
    simp only [hemit]
  have hfailure : (finished d m none).failure = none := by
    simp only [finished, hclean, Bool.false_eq_true, if_false]
  change (ofSource s allow file source).result = _
  simp only [result, ofSource, hlines, hfailure]
  rfl

end Assembly

end Cross6502
