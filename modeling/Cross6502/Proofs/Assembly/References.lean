import Cross6502.Link.Image
import Cross6502.Proofs.Assembly.Produced
import Cross6502.Proofs.Text.Case

/-!
# What references point at

The assembler leaves a reference with every name it does not know: the segment and the
offset of an operand, and the mode of the instruction.  The offset is taken before the
instruction is encoded, as the place behind the opcode, and the mode is known only after
zeros were put in place of the names.  So a reference is right if the instruction turns
out to have an operand.

Nearly every one does.  A line in which a name was replaced holds a dollar sign, and a
cleaned line holds no semicolon, so the operand is not empty and the mode is not implied
(`Encoded.mode_ne_implied`).  What is left is the accumulator.  An operand that begins
with a lone letter `a` has this mode whatever follows, names included, and then there is
no operand byte and the linker writes into the next instruction
(`accumulator_reference_overwrites`).  All other references are right
(`reference_points_at_operand_iff`).
-/

namespace Cross6502

/-! ## Literals that are filled in -/

namespace Text

/-- A text came about by putting hexadecimal literals in place of parts of another. -/
def Filled (t t' : Text) : Prop :=
  (∀ c ∈ t', c ∈ t ∨ c = '$' ∨ Arithmetic.isLowerHexDigit c = true) ∧ ('$' ∈ t → '$' ∈ t')

namespace Filled

theorem refl (t : Text) : Filled t t := ⟨fun _ hc => .inl hc, id⟩

theorem trans {t t' t'' : Text} (h : Filled t t') (h' : Filled t' t'') : Filled t t'' := by
  refine ⟨fun c hc => ?_, fun hdollar => h'.2 (h.2 hdollar)⟩
  rcases h'.1 c hc with hc | hc
  · exact h.1 c hc
  · exact .inr hc

theorem semicolon_not_mem {t t' : Text} (h : Filled t t') (ht : ';' ∉ t) : ';' ∉ t' := by
  intro hmem
  rcases h.1 _ hmem with hmem | heq | hdigit
  · exact ht hmem
  · cases heq
  · exact absurd hdigit (by decide)

end Filled

end Text

open Text (Filled)

namespace LineBuffer

variable {b b' : LineBuffer}

theorem filled_of_splice {start length : Int} {ds : Text}
    (hds : ∀ c ∈ ds, Arithmetic.isLowerHexDigit c = true)
    (h : b.splice start length ('$' :: ds) = .ok b') :
    Filled b.text b'.text ∧ '$' ∈ b'.text := by
  rw [splice] at h
  split at h
  · cases h
  · cases h
    have hdollar : '$' ∈ sliceTo b.text start ++ '$' :: ds ++ sliceFrom b.text (start + length) :=
      List.mem_append_left _ (List.mem_append_right _ List.mem_cons_self)
    refine ⟨⟨fun c hc => ?_, fun _ => hdollar⟩, hdollar⟩
    rcases List.mem_append.mp hc with hc | hc
    · rcases List.mem_append.mp hc with hc | hc
      · exact .inl (List.mem_of_mem_take hc)
      · rcases List.mem_cons.mp hc with hc | hc
        · exact .inr (.inl hc)
        · exact .inr (.inr (hds c hc))
    · exact .inl (List.mem_of_mem_drop hc)

theorem filled_of_splice_literal {start length : Int} {word : Bool} {n : Int}
    (h : b.splice start length (Replacement.literal word n) = .ok b') :
    Filled b.text b'.text ∧ '$' ∈ b'.text := by
  rw [Replacement.literal_eq] at h
  exact filled_of_splice (Replacement.isHexRun_lowerHex word n).2 h

end LineBuffer

namespace Names

variable {mnemonic : Text} {address : Int} {b b' : LineBuffer}

theorem filled_of_replaceAt {u : Symbol} {i next : Nat}
    (h : replaceAt mnemonic address u i b = .ok (b', next)) : Filled b.text b'.text := by
  obtain ⟨literal, hliteral, h⟩ := Outcome.bind_eq_ok_iff.mp h
  obtain ⟨b₁, hsplice, h⟩ := Outcome.bind_eq_ok_iff.mp h
  cases h
  have hform : ∃ word n, literal = Replacement.literal word n := by
    rw [Replacement.text] at hliteral
    split at hliteral
    · simp only at hliteral
      split at hliteral
      · cases hliteral
        exact ⟨false, _, rfl⟩
      · cases hliteral
    · split at hliteral
      · cases hliteral
        exact ⟨false, _, rfl⟩
      · cases hliteral
        exact ⟨true, _, rfl⟩
  obtain ⟨word, n, rfl⟩ := hform
  exact (LineBuffer.filled_of_splice_literal hsplice).1

theorem filled_replaceSymbol (mnemonic : Text) (address : Int) (u : Symbol)
    (fuel position : Nat) (b : LineBuffer) :
    Filled b.text (replaceSymbol mnemonic address u fuel position b).buffer.text := by
  induction fuel generalizing position b with
  | zero => exact .refl _
  | succ fuel ih =>
    rw [replaceSymbol]
    split
    · exact .refl _
    · split
      · exact .refl _
      · rename_i b₁ next hreplace
        exact (filled_of_replaceAt hreplace).trans (ih next b₁)

theorem filled_replaceSymbols (mnemonic : Text) (address : Int) (us : List Symbol)
    (b : LineBuffer) :
    Filled b.text (replaceSymbols mnemonic address us b).buffer.text := by
  induction us generalizing b with
  | nil => exact .refl _
  | cons u us ih =>
    have hfirst := filled_replaceSymbol mnemonic address u (b.text.length + 1) Token.operandStart b
    rw [replaceSymbols]
    simp only
    split
    · exact hfirst
    · exact hfirst.trans (ih _)

theorem filled_of_holdPlace {name : Text} {i : Option Nat} (h : holdPlace b name = .ok (b', i)) :
    Filled b.text b'.text ∧ (i ≠ none → '$' ∈ b'.text) := by
  rw [holdPlace] at h
  split at h
  · cases h
    exact ⟨.refl _, fun hne => absurd rfl hne⟩
  · obtain ⟨b₁, hsplice, h⟩ := Outcome.bind_eq_ok_iff.mp h
    cases h
    rw [Replacement.placeholder_eq] at hsplice
    obtain ⟨hfilled, hdollar⟩ := LineBuffer.filled_of_splice_literal hsplice
    exact ⟨hfilled, fun _ => hdollar⟩

end Names

theorem Arithmetic.filled_of_fold {b b' : LineBuffer} {folded : Bool}
    (h : fold b = .ok (b', folded)) : Filled b.text b'.text := by
  rw [fold] at h
  split at h
  · cases h
    exact .refl _
  · obtain ⟨text, htext, h⟩ := Outcome.bind_eq_ok_iff.mp h
    obtain ⟨b₁, hsplice, h⟩ := Outcome.bind_eq_ok_iff.mp h
    cases h
    obtain ⟨left, -, htext⟩ := Outcome.bind_eq_ok_iff.mp htext
    obtain ⟨right, -, htext⟩ := Outcome.bind_eq_ok_iff.mp htext
    cases htext
    rw [resultText] at hsplice
    split at hsplice
    · exact (LineBuffer.filled_of_splice
        (fun c hc => Text.isLowerHexDigit_of_mem_lowerHex hc) hsplice).1
    · exact (LineBuffer.filled_of_splice
        (fun c hc => Text.isLowerHexDigit_of_mem_lowerHex hc) hsplice).1

namespace Statement

theorem filled_of_resolve {c : Context} {b b' : LineBuffer} {address : Int}
    (h : resolve c b address = .ok b') : Filled b.text b'.text := by
  rw [resolve] at h
  split at h
  · cases h
  · cases h
    exact Names.filled_replaceSymbols ..

theorem filled_of_holdPlaces {number : Nat} {names pending : List Text} {b b' : LineBuffer}
    (h : (holdPlaces number names b).outcome = .ok (b', pending)) :
    Filled b.text b'.text ∧ (pending ≠ [] → '$' ∈ b'.text) := by
  induction names generalizing b pending with
  | nil =>
    cases h
    exact ⟨.refl _, fun hne => absurd rfl hne⟩
  | cons name rest ih =>
    obtain ⟨b₁, hhold, hrest⟩ | ⟨b₁, i, more, hhold, hrest, rfl⟩ :=
      outcome_holdPlaces_cons_eq_ok_iff.mp h
    · obtain ⟨hfilled, hdollar⟩ := ih hrest
      exact ⟨(Names.filled_of_holdPlace hhold).1.trans hfilled, hdollar⟩
    · obtain ⟨hfilled, -⟩ := ih hrest
      obtain ⟨hfirst, hdollar⟩ := Names.filled_of_holdPlace hhold
      exact ⟨hfirst.trans hfilled, fun _ => hfilled.2 (hdollar (Option.some_ne_none i))⟩

theorem filled_of_deferNames {c : Context} {number : Nat} {b b' : LineBuffer}
    {pending : List Text} (h : (deferNames c number b).outcome = .ok (b', pending)) :
    Filled b.text b'.text ∧ (pending ≠ [] → '$' ∈ b'.text) := by
  obtain ⟨-, rfl, rfl⟩ | ⟨-, -, -, held, folded, hhold, hfold⟩ :=
    outcome_deferNames_eq_ok_iff.mp h
  · exact ⟨.refl _, fun hne => absurd rfl hne⟩
  · obtain ⟨hfilled, hdollar⟩ := filled_of_holdPlaces hhold
    have hfolded := Arithmetic.filled_of_fold hfold
    exact ⟨hfilled.trans hfolded, fun hne => hfolded.2 (hdollar hne)⟩

end Statement

/-! ## Instructions -/

namespace Line

theorem indexedBy_ne_implied {mode : Mode} (hmode : mode ≠ .implied) (operand : Text) :
    indexedBy mode operand ≠ .implied := by
  have hforms : ∀ mode x y, Mode.indexed? mode = some (x, y) → x ≠ .implied ∧ y ≠ .implied := by
    intro mode x y h
    cases mode <;> cases h <;> decide
  rw [indexedBy]
  split
  · rename_i x y _ _ _ hindexed _
    obtain ⟨hx, hy⟩ := hforms mode x y hindexed
    split
    · exact hx
    · split
      · exact hy
      · exact hmode
  · exact hmode

/-- The mode of an operand is implied only if there is none. -/
theorem of_operandMode_implied {operand : Text} (h : operandMode operand = .ok .implied) :
    operand = [] ∨ ';' ∈ operand := by
  rw [operandMode.eq_def] at h
  split at h
  · exact .inl rfl
  · exact .inr List.mem_cons_self
  · split at h <;> cases h
  · cases h
  · exact absurd (Except.ok.inj h) (indexedBy_ne_implied (by decide) _)
  · exact absurd (Except.ok.inj h) (indexedBy_ne_implied (by decide) _)
  · obtain ⟨literal, -, h⟩ := Outcome.bind_eq_ok_iff.mp h
    split at h
    · exact absurd (Except.ok.inj h) (indexedBy_ne_implied (by decide) _)
    · split at h <;> cases h

end Line

namespace Encoded

/-- An instruction that was written with a dollar sign has an operand. -/
theorem mode_ne_implied {line : Text} {e : Encoded} (h : ofLine line = .ok e)
    (hdollar : '$' ∈ line) (hcomment : ';' ∉ line) : e.mode ≠ .implied := by
  intro himplied
  obtain ⟨m, hm, -, hmode, -⟩ := of_ofLine h
  have hline : '$' ∈ Text.trim line := Text.mem_trim_of_mem (by decide) hdollar
  rw [himplied, Line.mode, Text.trim_of_tight (Text.tight_trim line)] at hmode
  split at hmode
  · cases hmode
  · rcases Line.of_operandMode_implied hmode with hnil | hsemicolon
    · -- all that is not blank is in the mnemonic, and no mnemonic has a dollar sign
      have hmnemonic : '$' ∈ Line.mnemonic (Text.trim line) := by
        rw [← List.take_append_drop 3 (Text.trim line)] at hline
        rcases List.mem_append.mp hline with hline | hline
        · exact hline
        · have hrest := Text.mem_trimLeft_of_mem (by decide) hline
          rw [hnil] at hrest
          cases hrest
      have hname : ∀ m : Mnemonic, '$' ∉ m.name := by
        intro m
        cases m <;> decide
      have hlower : m.name = Text.lower (Line.mnemonic (Text.trim line)) := by
        simpa using List.find?_some hm
      refine hname m ?_
      rw [hlower, Text.mem_lower_iff (by decide) (by decide)]
      exact hmnemonic
    · refine hcomment (Text.mem_of_mem_trim ?_)
      exact List.mem_of_mem_drop ((List.dropWhile_sublist Text.isBlank).mem hsemicolon)

end Encoded

/-- An instruction has the length of its mode and an opcode that says so.  If names were
left in it, it is not of the implied mode. -/
theorem Statement.of_assemble_operand {c : Context} {text : Text} {address : Int} {number : Nat}
    {e : Encoded} {pending : List Text} (htext : ';' ∉ text)
    (h : (assemble c text address number).outcome = .ok (e, pending)) :
    (∃ m, Opcode.decode e.opcode = some (m, e.mode)) ∧ e.size = e.mode.length
      ∧ (pending ≠ [] → e.mode ≠ .implied) := by
  obtain ⟨b₁, b₂, folded, b₃, hresolve, hfold, hdefer, hline⟩ := outcome_assemble_eq_ok_iff.mp h
  obtain ⟨m, -, hmem, -, hsize⟩ := Encoded.of_ofLine hline
  obtain ⟨hfilled, hdollar⟩ := filled_of_deferNames hdefer
  have hbefore := (filled_of_resolve hresolve).trans (Arithmetic.filled_of_fold hfold)
  exact ⟨⟨m, Opcode.decode_of_mem m _ hmem⟩, hsize, fun hne =>
    Encoded.mode_ne_implied hline (hdollar hne) ((hbefore.trans hfilled).semicolon_not_mem htext)⟩

/-! ## Lines without comments -/

namespace Line

theorem semicolon_not_mem_clean (raw : Text) : ';' ∉ clean raw := by
  rw [clean, Text.mem_lower_iff (by decide) (by decide), Text.trimRight, List.mem_reverse]
  intro h
  have hmem := List.mem_reverse.mp ((List.dropWhile_sublist Text.isBlank).mem h)
  exact absurd (List.mem_takeWhile_imp hmem) (by decide)

theorem semicolon_not_mem_of_statement {raw body : Text} {label : Option Text}
    (h : ofClean (clean raw) = .statement label body) : ';' ∉ body := fun hmem =>
  semicolon_not_mem_clean raw ((sublist_of_splitLabel (splitLabel_of_statement h)).mem hmem)

end Line

/-! ## Objects that grow -/

namespace Object

/-- Every segment of the first object is the beginning of one of the second. -/
def Grows (o o' : Object) : Prop :=
  ∀ (i : Nat) (g : Segment), o.segments[i]? = some g →
    ∃ bytes, o'.segments[i]? = some (g.append bytes)

theorem Grows.refl (o : Object) : o.Grows o := by
  intro i g hg
  refine ⟨[], ?_⟩
  rw [hg, Segment.append_nil]

theorem grows_addSegment (o : Object) (start : Int) : o.Grows (o.addSegment start) := by
  intro i g hg
  refine ⟨[], ?_⟩
  rw [segments_addSegment, List.getElem?_append_left (List.getElem?_eq_some_iff.mp hg).1, hg,
    Segment.append_nil]

theorem grows_of_extend {o o' : Object} {current : Int} {bytes : List UInt8}
    (h : o.extend current bytes = .ok o') : o.Grows o' ∧ o'.references = o.references := by
  rw [extend] at h
  split at h
  · rename_i n _
    cases h
    refine ⟨fun i g hg => ?_, by cases n <;> rfl⟩
    rw [getElem?_modifySegment, hg, Option.map_some]
    split
    · exact ⟨bytes, rfl⟩
    · exact ⟨[], by rw [Segment.append_nil]⟩
  · cases h

end Object

namespace Reference

/-- The reference points behind the opcode of an instruction of its mode.  The instruction
lies in the segment and is not of the implied mode. -/
def BehindOpcode (r : Reference) (o : Object) : Prop :=
  ∃ (i k : Nat) (g : Segment) (opcode : UInt8) (m : Mnemonic),
    r.segment = i ∧ o.segments[i]? = some g ∧ r.offset = k + 1 ∧ g.data[k]? = some opcode
      ∧ Opcode.decode opcode = some (m, r.mode) ∧ k + r.mode.length ≤ g.size ∧ r.mode ≠ .implied

/-- The linker writes as many bytes as the operand has, where there is one. -/
theorem width_add_one {r : Reference} (hpos : 0 < r.mode.length) (himplied : r.mode ≠ .implied)
    (haccumulator : r.mode ≠ .accumulator) : r.width + 1 = r.mode.length := by
  rw [width]
  revert hpos himplied haccumulator
  cases r.mode <;> decide

theorem BehindOpcode.grow {r : Reference} {o o' : Object} (h : r.BehindOpcode o)
    (hgrows : o.Grows o') : r.BehindOpcode o' := by
  obtain ⟨i, k, g, opcode, m, hi, hg, hk, hopcode, hdecode, hend, himplied⟩ := h
  obtain ⟨bytes, hg'⟩ := hgrows i g hg
  have hlt := (List.getElem?_eq_some_iff.mp hopcode).1
  refine ⟨i, k, g.append bytes, opcode, m, hi, hg', hk, ?_, hdecode, ?_, himplied⟩
  · rw [Segment.data_append, List.getElem?_append_left hlt, hopcode]
  · rw [Segment.size, Segment.data_append, List.length_append]
    exact Nat.le_trans hend (Nat.le_add_right _ _)

end Reference

/-! ## The second pass -/

namespace Emission

section Step

variable {c : Statement.Context} {number : Nat} {m m' : Emission}

theorem behindOpcode_instruction (horderly : m.object.Orderly number m.current)
    (h : ∀ r ∈ m.object.references, r.BehindOpcode m.object) {body : Text} (hbody : ';' ∉ body)
    {e : Encoded} {pending : List Text} {o : Object}
    (hassemble : (Statement.assemble c body m.segment.finish number).outcome = .ok (e, pending))
    (hextend : m.object.extend m.current e.bytes = .ok o) :
    ∀ r ∈ o.references ++ m.referencesOf number e pending, r.BehindOpcode o := by
  obtain ⟨⟨mnemonic, hdecode⟩, hsize, himplied⟩ := Statement.of_assemble_operand hbody hassemble
  obtain ⟨hgrows, hreferences⟩ := Object.grows_of_extend hextend
  obtain ⟨-, -, n, g, hn, hg, hg'⟩ :=
    horderly.extend (Statement.of_assemble hassemble).1 hextend
  have hsegment : m.segment = g := by
    rw [segment, hn, Object.segmentAt?_natCast, hg]
    rfl
  intro r hr
  rcases List.mem_append.mp hr with hr | hr
  · exact (h r (hreferences ▸ hr)).grow hgrows
  · obtain ⟨x, hx, rfl⟩ := List.mem_map.mp hr
    refine ⟨n, g.size, g.append e.bytes, e.opcode, mnemonic, hn, hg', ?_, ?_, hdecode, ?_,
      himplied (List.ne_nil_of_mem hx)⟩
    · rw [hsegment]
    · rw [Segment.data_append, Segment.size, List.getElem?_append_right (Nat.le_refl _),
        Nat.sub_self]
      rfl
    · rw [Segment.size_append, Encoded.length_bytes, hsize]

theorem behindOpcode_body {body : Text} (hbody : ';' ∉ body)
    (hafter : BodyAfter c m number body m') (horderly : m.object.Orderly number m.current)
    (h : ∀ r ∈ m.object.references, r.BehindOpcode m.object) :
    ∀ r ∈ m'.object.references, r.BehindOpcode m'.object := by
  cases hafter with
  | nothing hbody hobject hcurrent hentries =>
    rw [hobject]
    exact h
  | directive d hdot hd happly hentries =>
    rcases Directive.of_apply happly with ⟨argument, l, -, -, hobject, -⟩ | ⟨-, hobject, -⟩
      | ⟨argument, l, -, -, hextend, -⟩
    · rw [hobject]
      exact fun r hr => (h r hr).grow (m.object.grows_addSegment _)
    · rw [hobject]
      exact h
    · obtain ⟨hgrows, hreferences⟩ := Object.grows_of_extend hextend
      exact fun r hr => (h r (hreferences ▸ hr)).grow hgrows
  | instruction e pending o hnonempty hdot hassemble hextend hobject hcurrent hentries =>
    rw [hobject]
    exact behindOpcode_instruction horderly h hbody hassemble hextend

theorem behindOpcode_step {raw : Text} (hstep : step c m number raw = (m', none))
    (hclean : m'.report.hasErrors = false) (horderly : m.object.Orderly number m.current)
    (h : ∀ r ∈ m.object.references, r.BehindOpcode m.object) :
    ∀ r ∈ m'.object.references, r.BehindOpcode m'.object := by
  rcases same_or_body_of_step hstep hclean with ⟨hobject, -, -⟩ | ⟨label, body, hline, hbody⟩
  · rw [hobject]
    exact h
  · refine behindOpcode_body (Line.semicolon_not_mem_of_statement hline) hbody ?_ ?_
    · cases label <;> exact horderly
    · cases label <;> exact h

end Step

end Emission

/-! ## Whole assemblies -/

namespace Assembly

theorem behindOpcode_of_assemble {s : Settings} {allow : Bool} {file : String} {source : Text}
    {o : Object} (h : (assemble s allow file source).outcome = .ok o) :
    ∀ r ∈ o.references, r.BehindOpcode o := by
  obtain ⟨d, m, -, hemit, -, hclean, rfl⟩ := exists_passes_of_assemble h
  have hinvariant : m.object.Orderly (1 + (Text.lines source).length) m.current
      ∧ ∀ r ∈ m.object.references, r.BehindOpcode m.object :=
    Emission.invariant_of_run
      (I := fun number m => m.object.Orderly number m.current
        ∧ ∀ r ∈ m.object.references, r.BehindOpcode m.object)
      (fun m number raw m' hstep hp hI => ⟨Emission.orderly_step hstep hp hI.1,
        Emission.behindOpcode_step hstep hp hI.1 hI.2⟩)
      hemit hclean ⟨.starting s.programStart, fun r hr => by cases hr⟩
  exact hinvariant.2

/-- Every reference of an assembled object names a segment of it, and in front of its
offset there is the opcode of an instruction of its mode.  The operand has the width that
the mode says and lies in the segment, unless the mode is the accumulator. -/
theorem reference_points_at_operand_iff (s : Settings) (allow : Bool) (file : String)
    (source : Text) (o : Object) (h : (assemble s allow file source).outcome = .ok o) :
    ∀ r ∈ o.references, ∃ (i k : Nat) (g : Segment) (opcode : UInt8) (m : Mnemonic),
      r.segment = i ∧ o.segments[i]? = some g ∧ r.offset = k + 1 ∧ g.data[k]? = some opcode
        ∧ Opcode.decode opcode = some (m, r.mode)
        ∧ (r.width + 1 = r.mode.length ∧ r.offset + r.width ≤ g.size
          ↔ r.mode ≠ .accumulator) := by
  intro r hr
  obtain ⟨i, k, g, opcode, m, hi, hg, hk, hopcode, hdecode, hend, himplied⟩ :=
    behindOpcode_of_assemble h r hr
  refine ⟨i, k, g, opcode, m, hi, hg, hk, hopcode, hdecode, fun hoperand haccumulator => ?_,
    fun haccumulator => ?_⟩
  · rw [Reference.width, haccumulator] at hoperand
    exact absurd hoperand.1 (by decide)
  · have hpos : 0 < r.mode.length :=
      Opcode.length_pos_of_mem m _ (Opcode.mem_opcodes_of_decode hdecode)
    have hwidth := Reference.width_add_one hpos himplied haccumulator
    exact ⟨hwidth, by omega⟩

theorem reference_points_at_operand_iff_call :
    ∃ o, (assemble {} true "main.s" " jsr far\n bne far\n asl *far,x\n".toList).outcome = .ok o
      ∧ o.first.data = [0x20, 0, 0, 0xD0, 0, 0x16, 0]
      ∧ o.references = [⟨"far".toList, 0, 1, .absolute, 1⟩, ⟨"far".toList, 0, 4, .relative, 2⟩,
        ⟨"far".toList, 0, 6, .zeroPageX, 3⟩]
      ∧ ∀ r ∈ o.references, r.width + 1 = r.mode.length := by
  have hmode : ∀ r ∈ [(⟨"far".toList, 0, 1, .absolute, 1⟩ : Reference),
      ⟨"far".toList, 0, 4, .relative, 2⟩, ⟨"far".toList, 0, 6, .zeroPageX, 3⟩],
      r.mode ≠ .accumulator := by decide
  refine ⟨_, rfl, rfl, rfl, fun r hr => ?_⟩
  obtain ⟨i, k, g, opcode, m, -, -, -, -, -, hoperand⟩ :=
    reference_points_at_operand_iff {} true "main.s" " jsr far\n bne far\n asl *far,x\n".toList _
      rfl r hr
  exact (hoperand.mpr (hmode r hr)).1

/-- An operand that begins with a lone letter `a` and holds a name: the shift has one byte,
and the reference points at the instruction behind it, which linking overwrites. -/
theorem accumulator_reference_overwrites :
    ∃ o, (assemble {} true "main.s" " asl a*two\n nop\n".toList).outcome = .ok o
      ∧ o.first.data = [0x0A, 0xEA]
      ∧ o.references = [⟨"two".toList, 0, 1, .accumulator, 1⟩]
      ∧ (Link.link {} [o, { first := ⟨2, []⟩
                            symbols := some ⟨"two.s", [⟨"two".toList, .label, 0x34, 1, none⟩]⟩ }]
          none []).outcome.map (fun l => l.object.first.data) = .ok [0x0A, 0x34] :=
  ⟨_, rfl, rfl, rfl, rfl⟩

end Assembly

end Cross6502
