import Cross6502.Proofs.Assembly.Steps
import Cross6502.Proofs.Assembly.Unplaced
import Cross6502.Proofs.Line.Rewording

/-!
# Sources in other words

Both passes look at a line after it was cleaned, and use its number only for reports and to
note where a name was defined or used.  So two sources whose cleaned lines are the same, but
for lines that ask for nothing, go through states that are the same without line numbers
(`Definitions.Alike`, `Emission.Alike`), and if one of them is assembled without an error
then so is the other.

The relation between the sources is symmetric.  It is enough to follow one of them through
an assembly that succeeds.
-/

namespace Cross6502

/-- Two walks over lines with the same meaning.  If the first ends in a good state then the
second ends in a state related to it. -/
theorem walkLines_sameMeaning {σ τ : Type} {step : σ → Nat → Text → σ × Option Failure}
    {step' : τ → Nat → Text → τ × Option Failure} {p : σ → Prop} {R : σ → τ → Prop}
    (hback : ∀ s number raw s', step s number raw = (s', none) → p s' → p s)
    (hline : ∀ s t number number' raw raw' s', Line.clean raw = Line.clean raw' →
      step s number raw = (s', none) → p s' → R s t →
      ∃ t', step' t number' raw' = (t', none) ∧ R s' t')
    (hleft : ∀ s t number raw s', Line.ofClean (Line.clean raw) = .blank →
      step s number raw = (s', none) → R s t → R s' t)
    (hright : ∀ s t number raw, Line.ofClean (Line.clean raw) = .blank → R s t →
      ∃ t', step' t number raw = (t', none) ∧ R s t')
    {lines lines' : List Text} (h : Line.SameMeaning lines lines') {number number' : Nat}
    {s s' : σ} {t : τ} (hwalk : walkLines step number lines s = (s', none)) (hp : p s')
    (hR : R s t) : ∃ t', walkLines step' number' lines' t = (t', none) ∧ R s' t' := by
  induction h generalizing number number' s t with
  | done =>
    cases hwalk
    exact ⟨t, rfl, hR⟩
  | line hclean _ ih =>
    obtain ⟨s₁, hstep, hrest⟩ := walkLines_cons hwalk
    obtain ⟨t₁, hstep', hR₁⟩ :=
      hline s t number number' _ _ s₁ hclean hstep (walkLines_back hback hrest hp) hR
    obtain ⟨t', hrest', hR'⟩ := ih hrest hR₁
    exact ⟨t', by rw [walkLines, hstep']; exact hrest', hR'⟩
  | left hblank _ ih =>
    obtain ⟨s₁, hstep, hrest⟩ := walkLines_cons hwalk
    exact ih hrest (hleft s t number _ s₁ hblank hstep hR)
  | right hblank _ ih =>
    obtain ⟨t₁, hstep', hR₁⟩ := hright s t number' _ hblank hR
    obtain ⟨t', hrest', hR'⟩ := ih hwalk hR₁
    exact ⟨t', by rw [walkLines, hstep']; exact hrest', hR'⟩

/-! ## The first pass -/

namespace Definitions

/-- States that differ in lines, reports and events only, the second without an error. -/
structure Alike (d e : Definitions) : Prop where
  layout : e.layout = d.layout
  current : e.current = d.current
  nextCell : e.nextCell = d.nextCell
  symbols : e.symbols.unplaced = d.symbols.unplaced
  clean : e.report.hasErrors = false

namespace Alike

variable {d d' e : Definitions} {number : Nat} {raw raw' : Text}

theorem atLine (h : Alike d e) (report : Report) (line : Int) :
    Alike { d with report := report } { e with report := e.report.atLine line } :=
  ⟨h.layout, h.current, h.nextCell, h.symbols, h.clean⟩

theorem define {sym sym' : Symbol} (h : Alike d e) (hsymbol : sym'.unplaced = sym.unplaced)
    {added : Bool} {stop : Option Failure} (hdefine : d.define sym raw = (d', added, stop))
    (hclean : d'.report.hasErrors = false) (raw' : Text) :
    ∃ e', e.define sym' raw' = (e', true, none) ∧ Alike d' e' := by
  obtain ⟨-, -, table, hadd, rfl⟩ := of_define hdefine hclean
  obtain ⟨table', hadd', htable⟩ := SymbolTable.exists_of_insert h.symbols hsymbol hadd
  refine ⟨_, by rw [Definitions.define, hadd'], ?_⟩
  exact ⟨h.layout, h.current, h.nextCell, htable, h.clean⟩

theorem declare {s : Settings} {name : Text} {value : Option Text} (h : Alike d e)
    (hdeclare : d.declare s number raw name value = (d', none))
    (hclean : d'.report.hasErrors = false) (number' : Nat) (raw' : Text) :
    ∃ e', e.declare s number' raw' name value = (e', none) ∧ Alike d' e' := by
  have hsymbol : (declared name value d.nextCell number').unplaced
      = (declared name value d.nextCell number).unplaced := by
    cases value <;> rfl
  rw [Definitions.declare] at hdeclare ⊢
  rw [h.nextCell]
  split at hdeclare
  · exact absurd (hasErrors_of_complain hdeclare) (by simp [hclean])
  · rename_i hroom
    rw [if_neg hroom]
    split at hdeclare
    · rename_i d₁ stop hdefine
      cases hdeclare
      obtain ⟨e₁, hdefine', h₁⟩ := h.define hsymbol hdefine hclean raw'
      rw [hdefine']
      exact ⟨_, rfl, h₁.layout, h₁.current, congrArg (· + 1) h₁.nextCell, h₁.symbols, h₁.clean⟩
    · rename_i d₁ stop hdefine
      cases hdeclare
      exact absurd (of_define hdefine hclean).1 (by decide)

theorem here_eq (h : Alike d e) : e.here = d.here := by
  rw [here, here, h.layout, h.current]

theorem mark {label : Option Text} (h : Alike d e)
    (hmark : d.mark number raw label = (d', none)) (hclean : d'.report.hasErrors = false)
    (number' : Nat) (raw' : Text) :
    ∃ e', e.mark number' raw' label = (e', none) ∧ Alike d' e' := by
  cases label with
  | none =>
    cases hmark
    exact ⟨e, rfl, h⟩
  | some name =>
    have hsymbol : (Symbol.ofLabel name d.here number').unplaced
        = (Symbol.ofLabel name d.here number).unplaced := rfl
    rw [Definitions.mark] at hmark ⊢
    rw [h.here_eq]
    cases hdefine : d.define (.ofLabel name d.here number) raw with
    | mk d₁ flags =>
      obtain ⟨added, stop⟩ := flags
      rw [hdefine] at hmark
      cases hmark
      obtain ⟨e₁, hdefine', h₁⟩ := h.define hsymbol hdefine hclean raw'
      rw [hdefine']
      exact ⟨e₁, rfl, h₁⟩

theorem reserve {body : Text} (h : Alike d e) (hreserve : d.reserve body = (d', none)) :
    ∃ e', e.reserve body = (e', none) ∧ Alike d' e' := by
  obtain ⟨o, current, hlayOut, rfl⟩ := of_reserve hreserve
  have hlayOut' : e.layOut body = .ok (o, current) := by
    rw [layOut, h.layout, h.current, ← layOut, hlayOut]
  refine ⟨_, by rw [Definitions.reserve, hlayOut'], ?_⟩
  exact ⟨rfl, rfl, h.nextCell, h.symbols, h.clean⟩

/-- A line with the same meaning does the same. -/
theorem step {s : Settings} (h : Alike d e) (hraw : Line.clean raw = Line.clean raw')
    (hstep : step s d number raw = (d', none)) (hclean : d'.report.hasErrors = false)
    (number' : Nat) :
    ∃ e', Definitions.step s e number' raw' = (e', none) ∧ Alike d' e' := by
  have h₀ := h.atLine (d.report.atLine number) number'
  rw [Definitions.step] at hstep ⊢
  rw [← hraw]
  cases hline : Line.ofClean (Line.clean raw) with
  | blank =>
    rw [hline] at hstep
    cases hstep
    exact ⟨_, rfl, h₀⟩
  | declaration name value =>
    rw [hline] at hstep
    exact h₀.declare hstep hclean number' raw'
  | statement label body =>
    rw [hline] at hstep
    simp only at hstep ⊢
    split at hstep
    · cases hstep
    · rename_i d₁ hmark
      obtain ⟨o, current, -, rfl⟩ := of_reserve hstep
      obtain ⟨e₁, hmark', h₁⟩ := h₀.mark hmark hclean number' raw'
      rw [hmark']
      exact h₁.reserve hstep

end Alike

theorem exists_run {s : Settings} {file : String} {lines lines' : List Text}
    (hlines : Line.SameMeaning lines lines') {d : Definitions} (h : run s file lines = (d, none))
    (hclean : d.report.hasErrors = false) :
    ∃ e, run s file lines' = (e, none) ∧ Alike d e := by
  refine walkLines_sameMeaning (p := fun d => d.report.hasErrors = false) (R := Alike)
    (fun _ _ _ _ hstep hok => (of_step hstep hok).1)
    (fun d e number number' raw raw' d' hraw hstep hok h => h.step hraw hstep hok number')
    (fun d e number raw d' hblank hstep h => ?_) (fun d e number raw hblank h => ?_) hlines h hclean
    ⟨rfl, rfl, rfl, rfl, rfl⟩
  · rw [step, hblank] at hstep
    cases hstep
    exact ⟨h.layout, h.current, h.nextCell, h.symbols, h.clean⟩
  · refine ⟨{ e with report := e.report.atLine number }, by rw [step, hblank], ?_⟩
    exact ⟨h.layout, h.current, h.nextCell, h.symbols, h.clean⟩

end Definitions

/-! ## The second pass -/

namespace Emission

/-- States that differ in lines, reports, events and the account only, the second without an
error. -/
structure Alike (m n : Emission) : Prop where
  object : n.object.unplaced = m.object.unplaced
  current : n.current = m.current
  clean : n.report.hasErrors = false

/-- What a directive enters into the account, it enters whatever the lines are. -/
theorem exists_account_of_account {m m' : Emission} {number : Nat} {body : Text}
    {directive : Directive} (h : m.account number body directive = .ok m') (n : Emission)
    (number' : Nat) :
    ∃ n', n.account number' body directive = .ok n' := by
  cases directive with
  | org argument => exact ⟨_, rfl⟩
  | finish => exact ⟨_, rfl⟩
  | byte argument =>
    obtain ⟨m₁, hcheck, -⟩ := Outcome.bind_eq_ok_iff.mp h
    obtain ⟨literal, hliteral, -⟩ := Outcome.bind_eq_ok_iff.mp hcheck
    have hcheck' : ∃ n₁, n.checkByte number' argument = .ok n₁ := by
      rw [checkByte, hliteral]
      change ∃ n₁, (if literal.value ≤ 255 then _ else _) = _
      split
      · exact ⟨_, rfl⟩
      · exact ⟨_, rfl⟩
    obtain ⟨n₁, hcheck'⟩ := hcheck'
    exact ⟨_, Outcome.bind_eq_ok_iff.mpr ⟨n₁, hcheck', rfl⟩⟩

namespace Alike

variable {m m' n : Emission} {number : Nat} {raw raw' body : Text} {c c' : Statement.Context}

theorem segment_eq (h : Alike m n) : n.segment = m.segment := by
  have hsegments := Object.segments_of_unplaced h.object
  have hfirst : n.object.first = m.object.first := List.head_eq_of_cons_eq hsegments
  rw [segment, segment, Object.segmentAt?, Object.segmentAt?, hsegments, hfirst, h.current]

theorem mark (h : Alike m n) (label : Option Text) (number number' : Nat) :
    Alike (m.mark number label) (n.mark number' label) := by
  cases label with
  | none => exact h
  | some name => exact ⟨h.object, h.current, h.clean⟩

theorem directiveLine (h : Alike m n)
    (hline : m.directiveLine number raw body = (m', none)) (hclean : m'.report.hasErrors = false)
    (number' : Nat) (raw' : Text) :
    ∃ n', n.directiveLine number' raw' body = (n', none) ∧ Alike m' n' := by
  rw [Emission.directiveLine] at hline ⊢
  cases hdirective : Directive.ofLine? body with
  | none =>
    rw [hdirective] at hline
    exact absurd (hasErrors_of_complain hline) (by simp [hclean])
  | some directive =>
    rw [hdirective] at hline
    simp only at hline ⊢
    split at hline
    · rename_i m₁ hdirect
      cases hline
      obtain ⟨⟨o, current⟩, happly, haccount⟩ := Outcome.bind_eq_ok_iff.mp hdirect
      have hunplaced := Directive.apply_unplaced directive n.object n.current
      rw [h.object, h.current, Directive.apply_unplaced, happly] at hunplaced
      obtain ⟨⟨o', current'⟩, happly', hsame⟩ := Outcome.map_eq_ok_iff.mp hunplaced.symm
      obtain ⟨hobject', rfl⟩ := Prod.mk.inj hsame
      obtain ⟨n', haccount'⟩ :=
        exists_account_of_account haccount { n with object := o', current := current' } number'
      have hdirect' : n.direct number' body directive = .ok n' :=
        Outcome.bind_eq_ok_iff.mpr ⟨(o', current'), h.current ▸ happly', haccount'⟩
      obtain ⟨-, hobject, hcurrent, -⟩ := of_account haccount
      obtain ⟨hreport', hobject₁, hcurrent₁, -⟩ := of_account haccount'
      refine ⟨n', by rw [hdirect'], ?_, hcurrent₁.trans hcurrent.symm, hreport'.trans h.clean⟩
      rw [hobject₁, hobject]
      exact hobject'
    · cases hline

theorem emit (h : Alike m n) {e : Encoded} {pending : List Text}
    (hemit : m.emit number body e pending = .ok m') (number' : Nat) :
    ∃ n', n.emit number' body e pending = .ok n' ∧ Alike m' n' := by
  obtain ⟨o, hextend, hemit⟩ := Outcome.bind_eq_ok_iff.mp hemit
  cases hemit
  have hunplaced := Object.extend_unplaced n.object n.current e.bytes
  rw [h.object, h.current, Object.extend_unplaced, hextend] at hunplaced
  obtain ⟨o', hextend', hsame⟩ := Outcome.map_eq_ok_iff.mp hunplaced.symm
  have hreferences : (n.referencesOf number' e pending).map Reference.unplaced
      = (m.referencesOf number e pending).map Reference.unplaced := by
    rw [referencesOf, referencesOf, h.segment_eq, h.current, List.map_map, List.map_map]
    rfl
  refine ⟨_, Outcome.bind_eq_ok_iff.mpr ⟨o', h.current ▸ hextend', rfl⟩, ?_, h.current, h.clean⟩
  change Object.unplaced { o' with references := o'.references ++ n.referencesOf number' e pending }
    = Object.unplaced { o with references := o.references ++ m.referencesOf number e pending }
  rw [Object.unplaced_append_references, Object.unplaced_append_references, hsame, hreferences]

theorem instructionLine (h : Alike m n) (hc : c.Alike c')
    (hline : m.instructionLine c number raw body = (m', none))
    (hclean : m'.report.hasErrors = false) (number' : Nat) (raw' : Text) :
    ∃ n', n.instructionLine c' number' raw' body = (n', none) ∧ Alike m' n' := by
  rw [Emission.instructionLine, Emission.settle] at hline ⊢
  rw [h.segment_eq]
  split at hline
  · rename_i e pending hassemble
    split at hline
    · rename_i m₁ hemit
      cases hline
      have hassemble' := Statement.outcome_assemble hc hassemble number'
      have h₁ : Alike
          { m with log := m.log ++ (Statement.assemble c body m.segment.finish number).log }
          { n with log := n.log ++ (Statement.assemble c' body m.segment.finish number').log } :=
        ⟨h.object, h.current, h.clean⟩
      obtain ⟨n', hemit', hafter⟩ := h₁.emit hemit number'
      simp only [hassemble', hemit']
      exact ⟨n', rfl, hafter⟩
    · cases hline
  · split at hline
    · cases hline
    · exact absurd (hasErrors_of_complain hline) (by simp [hclean])
  · cases hline

theorem bodyLine (h : Alike m n) (hc : c.Alike c')
    (hline : m.bodyLine c number raw body = (m', none)) (hclean : m'.report.hasErrors = false)
    (number' : Nat) (raw' : Text) :
    ∃ n', n.bodyLine c' number' raw' body = (n', none) ∧ Alike m' n' := by
  rw [Emission.bodyLine] at hline ⊢
  split at hline
  · rename_i hempty
    cases hline
    exact ⟨n, if_pos hempty, h⟩
  · rename_i hempty
    rw [if_neg hempty]
    split at hline
    · rename_i hdot
      rw [if_pos hdot]
      exact h.directiveLine hline hclean number' raw'
    · rename_i hdot
      rw [if_neg hdot]
      exact h.instructionLine hc hline hclean number' raw'

/-- A line with the same meaning does the same. -/
theorem step (h : Alike m n) (hc : c.Alike c') (hraw : Line.clean raw = Line.clean raw')
    (hstep : step c m number raw = (m', none)) (hclean : m'.report.hasErrors = false)
    (number' : Nat) : ∃ n', Emission.step c' n number' raw' = (n', none) ∧ Alike m' n' := by
  have h₀ : Alike { m with report := m.report.atLine number }
      { n with report := n.report.atLine number' } := ⟨h.object, h.current, h.clean⟩
  rw [Emission.step] at hstep ⊢
  rw [← hraw, hc.capacity]
  cases hline : Line.ofClean (Line.clean raw) with
  | blank =>
    rw [hline] at hstep
    cases hstep
    exact ⟨_, rfl, h₀⟩
  | declaration name value =>
    rw [hline] at hstep
    simp only at hstep ⊢
    split at hstep
    · exact absurd (hasErrors_of_complain hstep) (by simp [hclean])
    · rename_i hfits
      cases hstep
      exact ⟨_, if_neg hfits, h₀⟩
  | statement label body =>
    rw [hline] at hstep
    simp only at hstep ⊢
    split at hstep
    · exact absurd (hasErrors_of_complain hstep) (by simp [hclean])
    · rename_i hfits
      rw [if_neg hfits]
      exact (h₀.mark label number number').bodyLine hc hstep hclean number' raw'

end Alike

theorem exists_run {s : Settings} {c c' : Statement.Context} (hc : c.Alike c')
    {lines lines' : List Text} (hlines : Line.SameMeaning lines lines') {report report' : Report}
    (hreport : report'.hasErrors = false) {m : Emission} (h : run s c report lines = (m, none))
    (hclean : m.report.hasErrors = false) :
    ∃ n, run s c' report' lines' = (n, none) ∧ Alike m n := by
  refine walkLines_sameMeaning (p := fun m => m.report.hasErrors = false) (R := Alike)
    (fun _ _ _ _ hstep hok => (of_step hstep hok).1)
    (fun m n number number' raw raw' m' hraw hstep hok h => h.step hc hraw hstep hok number')
    (fun m n number raw m' hblank hstep h => ?_) (fun m n number raw hblank h => ?_) hlines h hclean
    ⟨rfl, rfl, hreport⟩
  · rw [step, hblank] at hstep
    cases hstep
    exact ⟨h.object, h.current, h.clean⟩
  · refine ⟨{ n with report := n.report.atLine number }, by rw [step, hblank], ?_⟩
    exact ⟨h.object, h.current, h.clean⟩

end Emission

/-! ## Assemblies -/

namespace Assembly

variable {s : Settings} {allow : Bool} {file : String} {source source' : Text}

/-- If a source is assembled then so is every source with the same meaning. -/
theorem exists_of_sameMeaning (hlines : Line.SameMeaning (Text.lines source) (Text.lines source'))
    {o : Object} (h : (assemble s allow file source).outcome = .ok o) :
    ∃ o', (assemble s allow file source').outcome = .ok o' ∧ o'.unplaced = o.unplaced := by
  obtain ⟨d, m, hd, hm, hdclean, hmclean, rfl⟩ := exists_passes_of_assemble h
  obtain ⟨e, he, hde⟩ := Definitions.exists_run hlines hd hdclean
  have hcontext : Statement.Context.Alike ⟨d.symbols, s.maxLineLength, allow, file⟩
      ⟨e.symbols, s.maxLineLength, allow, file⟩ := ⟨hde.symbols, rfl, rfl⟩
  obtain ⟨n, hn, hmn⟩ := Emission.exists_run hcontext hlines hde.clean hm hmclean
  refine ⟨_, assemble_of_passes he hn hmn.clean, ?_⟩
  rw [Object.unplaced_with_symbols, Object.unplaced_with_symbols, hmn.object, hde.symbols]

/-- **Only the meaning of a line matters.**  A source in other words, with its letters in
another case, blanks and comments behind its lines and lines put in that hold nothing else,
is assembled exactly if the source is.  Then the two objects have the same segments, and but
for line numbers the same symbols in the same order and the same references. -/
theorem assemble_reworded (s : Settings) (allow : Bool) (file : String) {source source' : Text}
    (h : Line.Reworded (Text.lines source) (Text.lines source')) :
    ((∃ o, (assemble s allow file source).outcome = .ok o)
      ↔ ∃ o, (assemble s allow file source').outcome = .ok o)
    ∧ ∀ o o', (assemble s allow file source).outcome = .ok o →
      (assemble s allow file source').outcome = .ok o' →
      o'.segments = o.segments
        ∧ o'.symbols.map SymbolTable.unplaced = o.symbols.map SymbolTable.unplaced
        ∧ o'.references.map Reference.unplaced = o.references.map Reference.unplaced := by
  refine ⟨⟨?_, ?_⟩, ?_⟩
  · rintro ⟨o, hok⟩
    obtain ⟨o', hok', -⟩ := exists_of_sameMeaning h.sameMeaning hok
    exact ⟨o', hok'⟩
  · rintro ⟨o', hok'⟩
    obtain ⟨o, hok, -⟩ := exists_of_sameMeaning h.sameMeaning.symm hok'
    exact ⟨o, hok⟩
  · intro o o' hok hok'
    obtain ⟨o₁, hok₁, hsame⟩ := exists_of_sameMeaning h.sameMeaning hok
    rw [hok'] at hok₁
    cases hok₁
    exact ⟨Object.segments_of_unplaced hsame, congrArg Object.symbols hsame,
      congrArg Object.references hsame⟩

/-- A variable, a label, and a name that is left to the linker. -/
def plainSource : Text := "count = 5\nloop: lda #1\n jmp far\n".toList

/-- The same in capitals, with remarks. -/
def loudSource : Text :=
  "; Start\nCOUNT = 5 ; five\n\t\nLoop: LDA #1\t \n JMP Far; later\n;".toList

theorem reworded_loudSource : Line.Reworded (Text.lines plainSource) (Text.lines loudSource) := by
  have hplain : Text.lines plainSource
      = ["count = 5".toList, "loop: lda #1".toList, " jmp far".toList] := by decide
  have hloud : Text.lines loudSource
      = ["; Start".toList, "COUNT = 5".toList ++ " ; five".toList, "\t".toList,
        "Loop: LDA #1".toList ++ "\t ".toList, " JMP Far".toList ++ "; later".toList,
        ";".toList] := by decide
  rw [hplain, hloud]
  exact .insert (by decide) (.line (by decide) (by decide) (.insert (by decide)
    (.line (by decide) (by decide) (.line (by decide) (by decide)
      (.insert (by decide) .done)))))

theorem assemble_reworded_loudSource :
    Line.Reworded (Text.lines plainSource) (Text.lines loudSource)
      ∧ ∃ o o', (assemble {} true "<input>" plainSource).outcome = .ok o
        ∧ (assemble {} true "<input>" loudSource).outcome = .ok o'
        ∧ o'.segments = o.segments
        ∧ o'.symbols.map SymbolTable.unplaced = o.symbols.map SymbolTable.unplaced
        ∧ o'.references.map Reference.unplaced = o.references.map Reference.unplaced := by
  have hok : (assemble {} true "<input>" plainSource).outcome.toOption.isSome = true := by
    decide
  obtain ⟨hiff, hsame⟩ := assemble_reworded {} true "<input>" reworded_loudSource
  cases hplain : (assemble {} true "<input>" plainSource).outcome with
  | error e =>
    rw [hplain] at hok
    cases hok
  | ok o =>
    obtain ⟨o', hloud⟩ := hiff.mp ⟨o, hplain⟩
    exact ⟨reworded_loudSource, o, o', rfl, hloud, hsame o o' hplain hloud⟩

end Assembly

end Cross6502
