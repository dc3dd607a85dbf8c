import Cross6502.Proofs.Assembly.NamedLine
import Cross6502.Proofs.Assembly.Steps
import Cross6502.Proofs.Object.Segments
import Cross6502.Proofs.Sidecar.RoundTrip

/-!
# What assemblies produce

An object from an assembly that succeeded is more orderly than objects in general.  Its
names are words: a label begins with a letter or a number and ends before a blank, a name
left to the linker is made of letters, digits and underscores.  Its numbers are bounded by
the number of lines, since a line puts out at most three bytes and starts at most one
segment.  And its references lie in segments that hold something, since an instruction is
put out together with the references in it.

Each pass keeps its share of this line by line (`Definitions.Orderly`,
`Object.Orderly`); together they make the object's sidecar readable
(`Assembly.Produced.writable`).
-/

namespace Cross6502

open Sidecar

/-! ## Names of labels -/

/-- Letters and numbers of any script are no blanks. -/
theorem Text.isBlank_of_isAlphanumeric {c : Char} (hc : Text.isAlphanumeric c = true) :
    Text.isBlank c = false := by
  rw [Text.isAlphanumeric, Bool.or_eq_true] at hc
  rcases hc with hc | hc
  · exact Numeral.isBlank_of_isAlphanum hc
  · rw [Bool.and_eq_true, decide_eq_true_eq] at hc
    exact Text.isBlank_of_inRanges (by decide +kernel) hc.1 hc.2

namespace Line

/-- A label begins with a letter or a number and goes on up to the first character that
ends one. -/
theorem of_splitLabel {t name rest : Text} (h : splitLabel t = (some name, rest)) :
    ∃ c u, t = c :: u ∧ Text.isAlphanumeric c = true
      ∧ name = c :: u.takeWhile fun c => !endsLabel c := by
  cases t with
  | nil => cases h
  | cons c u =>
    rw [splitLabel] at h
    split at h
    · cases h
    · rename_i halnum
      have halnum : Text.isAlphanumeric c = true := by simpa using halnum
      have hends : (!endsLabel c) = true := by
        have hcolon : c ≠ ':' := by
          rintro rfl
          exact absurd halnum (by decide)
        have hequals : c ≠ '=' := by
          rintro rfl
          exact absurd halnum (by decide)
        simp [endsLabel, Text.isBlank_of_isAlphanumeric halnum, hcolon, hequals]
      have hname : name = (c :: u).takeWhile fun c => !endsLabel c := by
        simp only at h
        split at h
        · cases h
          rfl
        · split at h
          · cases h
          · cases h
            rfl
      exact ⟨c, u, rfl, halnum,
        hname.trans (List.takeWhile_cons_of_pos (p := fun c => !endsLabel c) hends)⟩

/-- A label is a word. -/
theorem isEntryName_of_splitLabel {t name rest : Text}
    (h : splitLabel t = (some name, rest)) : IsEntryName name := by
  obtain ⟨c, u, -, halnum, rfl⟩ := of_splitLabel h
  refine ⟨⟨List.cons_ne_nil _ _, fun d hd => ?_⟩, ?_⟩
  · rcases List.mem_cons.mp hd with rfl | hd
    · exact Text.isBlank_of_isAlphanumeric halnum
    · have hd := List.mem_takeWhile_imp hd
      simp only [endsLabel, Bool.not_eq_true', Bool.or_eq_false_iff] at hd
      exact hd.1.1
  · rw [List.head?_cons]
    rintro h
    cases h
    exact absurd halnum (by decide)

theorem splitLabel_of_declaration {t name : Text} {value : Option Text}
    (h : ofClean t = .declaration name value) : ∃ rest, splitLabel t = (some name, rest) := by
  rw [ofClean] at h
  split at h
  · cases h
  · split at h
    · rename_i rest hsplit
      split at h
      · cases h
        exact ⟨rest, hsplit⟩
      · cases h
    · cases h

theorem splitLabel_of_statement {t body : Text} {label : Option Text}
    (h : ofClean t = .statement label body) : splitLabel t = (label, body) := by
  rw [ofClean] at h
  split at h
  · cases h
  · split at h
    · rename_i hsplit
      split at h
      · cases h
      · cases h
        exact hsplit
    · rename_i hsplit
      cases h
      exact hsplit

/-- What is left behind a label is part of the line. -/
theorem sublist_of_splitLabel {t body : Text} {label : Option Text}
    (h : splitLabel t = (label, body)) : body.Sublist t := by
  rw [splitLabel.eq_def] at h
  split at h
  · cases h
    exact List.nil_sublist _
  · split at h
    · cases h
      exact Text.trim_sublist _
    · simp only at h
      split at h
      · rename_i rest hrest
        cases h
        refine (Text.trim_sublist rest).trans ((List.sublist_cons_self ':' rest).trans ?_)
        rw [← hrest]
        exact List.dropWhile_sublist _
      · split at h
        · cases h
          exact Text.trim_sublist _
        · cases h
          exact (Text.trim_sublist _).trans (List.dropWhile_sublist _)

end Line

/-! ## Names left to the linker -/

namespace Names

theorem isEntryName_of_mem_unresolved {line x : Text} (hx : x ∈ unresolved line) :
    IsEntryName x := by
  obtain ⟨⟨hne, hword⟩, hfirst⟩ := isWord_of_mem_unresolved hx
  refine ⟨⟨hne, fun c hc => Token.isBlank_of_isFurther (hword c hc)⟩, fun hhead => ?_⟩
  exact absurd (hfirst _ hhead) (by decide)

end Names

/-! ## Instructions -/

namespace Encoded

/-- An encoded line spells a mnemonic, has a mode that this mnemonic supports, and is as
long as the mode says. -/
theorem of_ofLine {line : Text} {e : Encoded} (h : ofLine line = .ok e) :
    ∃ m, Mnemonic.ofText? (Line.mnemonic (Text.trim line)) = some m
      ∧ (e.mode, e.opcode) ∈ m.opcodes ∧ Line.mode (Text.trim line) = .ok e.mode
      ∧ e.size = e.mode.length := by
  rw [ofLine] at h
  split at h
  · cases h
  · obtain ⟨mode, hmode, h⟩ := Outcome.bind_eq_ok_iff.mp h
    split at h
    · cases h
    · obtain ⟨opcode, hopcode, h⟩ := Outcome.bind_eq_ok_iff.mp h
      obtain ⟨literal, -, h⟩ := Outcome.bind_eq_ok_iff.mp h
      cases h
      obtain ⟨m, hm, hmem⟩ := Opcode.exists_of_encode hopcode
      have hpos : 0 < mode.length := Opcode.length_pos_of_mem m _ hmem
      have hle := mode.length_le
      refine ⟨m, hm, hmem, hmode, ?_⟩
      simp only [size, operandBytes]
      split
      · rename_i hthree
        exact hthree.symm
      · split
        · rename_i htwo
          exact htwo.symm
        · rw [List.length_nil]
          omega

theorem length_bytes_of_ofLine {line : Text} {e : Encoded} (h : ofLine line = .ok e) :
    0 < e.bytes.length ∧ e.bytes.length ≤ 3 := by
  obtain ⟨m, -, -, -, hsize⟩ := of_ofLine h
  rw [length_bytes]
  exact ⟨Nat.succ_pos _, hsize ▸ e.mode.length_le⟩

end Encoded

namespace Statement

theorem sublist_of_holdPlaces {number : Nat} {names pending : List Text} {b b' : LineBuffer}
    (h : (holdPlaces number names b).outcome = .ok (b', pending)) : pending.Sublist names := by
  induction names generalizing b b' pending with
  | nil =>
    cases h
    exact .slnil
  | cons name rest ih =>
    obtain ⟨b₁, -, hrest⟩ | ⟨b₁, i, more, -, hrest, rfl⟩ :=
      outcome_holdPlaces_cons_eq_ok_iff.mp h
    · exact (ih hrest).cons name
    · exact (ih hrest).cons_cons name

theorem isEntryName_of_deferNames {c : Context} {number : Nat} {b b' : LineBuffer}
    {pending : List Text} (h : (deferNames c number b).outcome = .ok (b', pending)) :
    ∀ x ∈ pending, IsEntryName x := by
  obtain ⟨-, -, rfl⟩ | ⟨-, -, -, held, folded, hhold, -⟩ := outcome_deferNames_eq_ok_iff.mp h
  · exact fun x hx => absurd hx List.not_mem_nil
  · intro x hx
    have hmem := (sublist_of_holdPlaces hhold).subset hx
    exact Names.isEntryName_of_mem_unresolved (List.mem_filter.mp hmem).1

/-- An instruction is one to three bytes long, and the names left in it are words. -/
theorem of_assemble {c : Context} {text : Text} {address : Int} {number : Nat} {e : Encoded}
    {pending : List Text} (h : (assemble c text address number).outcome = .ok (e, pending)) :
    (0 < e.bytes.length ∧ e.bytes.length ≤ 3) ∧ ∀ x ∈ pending, IsEntryName x := by
  obtain ⟨b₁, b₂, folded, b₃, -, -, hdefer, hline⟩ := outcome_assemble_eq_ok_iff.mp h
  exact ⟨Encoded.length_bytes_of_ofLine hline, isEntryName_of_deferNames hdefer⟩

end Statement

/-! ## The first pass -/

namespace Definitions

/-- The symbols are words, defined once each on lines before the one with the number. -/
structure Orderly (number : Nat) (d : Definitions) : Prop where
  symbol : ∀ u ∈ d.symbols.symbols, IsEntryName u.name ∧ ∃ line : Nat, u.line = line ∧ line < number
  nodup : d.symbols.NamesNodup

section Step

variable {number : Nat} {d d' : Definitions}

theorem Orderly.keep (h : Orderly number d) (hsymbols : d'.symbols = d.symbols) :
    Orderly (number + 1) d' := by
  refine ⟨fun u hu => ?_, hsymbols ▸ h.nodup⟩
  obtain ⟨hname, line, hline, hlt⟩ := h.symbol u (hsymbols ▸ hu)
  exact ⟨hname, line, hline, Nat.lt_succ_of_lt hlt⟩

theorem Orderly.add (h : Orderly number d) {u : Symbol} (hname : IsEntryName u.name)
    (hline : u.line = number) (hadd : d.symbols.insert u = .ok d'.symbols) :
    Orderly (number + 1) d' := by
  refine ⟨fun v hv => ?_, SymbolTable.namesNodup_of_insert hadd h.nodup⟩
  rcases (SymbolTable.mem_symbols_of_insert hadd).mp hv with rfl | hv
  · exact ⟨hname, number, hline, Nat.lt_succ_self number⟩
  · obtain ⟨hname, line, hline, hlt⟩ := h.symbol v hv
    exact ⟨hname, line, hline, Nat.lt_succ_of_lt hlt⟩

theorem orderly_step {s : Settings} {raw : Text} (hstep : step s d number raw = (d', none))
    (hclean : d'.report.hasErrors = false) (h : Orderly number d) : Orderly (number + 1) d' := by
  obtain ⟨-, hafter⟩ := of_step hstep hclean
  cases hline : Line.ofClean (Line.clean raw) with
  | blank =>
    rw [hline] at hafter
    exact h.keep hafter.2.2.2
  | declaration name value =>
    rw [hline] at hafter
    obtain ⟨rest, hsplit⟩ := Line.splitLabel_of_declaration hline
    refine h.add ?_ ?_ hafter.2.2.2
    · cases value <;> exact Line.isEntryName_of_splitLabel hsplit
    · cases value <;> rfl
  | statement label body =>
    rw [hline] at hafter
    cases label with
    | none => exact h.keep hafter.2.2
    | some name =>
      have hname := Line.isEntryName_of_splitLabel (Line.splitLabel_of_statement hline)
      exact h.add hname rfl hafter.2.2

end Step

end Definitions

/-! ## Objects that grow in order -/

namespace Object

/-- An object as it stands before the line with the number: its current segment exists, it
has at most one segment and three bytes for each line, and its references lie in segments
that hold something. -/
structure Orderly (number : Nat) (current : Int) (o : Object) : Prop where
  inside : ∃ n : Nat, current = n ∧ n < o.segments.length
  count : o.segments.length ≤ number
  size : ∀ g ∈ o.segments, g.size ≤ 3 * number
  reference : ∀ r ∈ o.references, IsEntryName r.name ∧
    ∃ i offset line : Nat, r.segment = i ∧ r.offset = offset ∧ r.line = line
      ∧ line < number ∧ offset ≤ 3 * number ∧ ∃ g, o.segments[i]? = some g ∧ g.data ≠ []

namespace Orderly

variable {number : Nat} {current : Int} {o : Object}

theorem starting (start : Int) : Orderly 1 0 (.starting start) where
  inside := ⟨0, rfl, Nat.zero_lt_one⟩
  count := Nat.le_refl 1
  size g hg := by
    rw [segments_starting, List.mem_singleton] at hg
    rw [hg]
    exact Nat.zero_le _
  reference r hr := by cases hr

theorem succ (h : Orderly number current o) : Orderly (number + 1) current o where
  inside := h.inside
  count := Nat.le_succ_of_le h.count
  size g hg := Nat.le_trans (h.size g hg) (by omega)
  reference r hr := by
    obtain ⟨hname, i, offset, line, hi, ho, hl, hlt, hle, hg⟩ := h.reference r hr
    exact ⟨hname, i, offset, line, hi, ho, hl, by omega, by omega, hg⟩

theorem toFirst (h : Orderly number current o) : Orderly number 0 o :=
  ⟨⟨0, rfl, o.length_segments_pos⟩, h.count, h.size, h.reference⟩

theorem addSegment (h : Orderly number current o) (start : Int) :
    Orderly (number + 1) o.segments.length (o.addSegment start) where
  inside := ⟨o.segments.length, rfl, by rw [length_addSegment]; omega⟩
  count := by
    rw [length_addSegment]
    exact Nat.succ_le_succ h.count
  size g hg := by
    rw [segments_addSegment, List.mem_append, List.mem_singleton] at hg
    rcases hg with hg | rfl
    · exact Nat.le_trans (h.size g hg) (by omega)
    · exact Nat.zero_le _
  reference r hr := by
    obtain ⟨hname, i, offset, line, hi, ho, hl, hlt, hle, g, hg, hdata⟩ := h.reference r hr
    refine ⟨hname, i, offset, line, hi, ho, hl, by omega, by omega, g, ?_, hdata⟩
    rw [segments_addSegment, List.getElem?_append_left (List.getElem?_eq_some_iff.mp hg).1, hg]

/-- The current segment grows by one to three bytes. -/
theorem extend (h : Orderly number current o) {bytes : List UInt8} {o' : Object}
    (hbytes : 0 < bytes.length ∧ bytes.length ≤ 3) (hextend : o.extend current bytes = .ok o') :
    Orderly (number + 1) current o' ∧ o'.references = o.references
      ∧ ∃ (n : Nat) (g : Segment), current = n ∧ o.segments[n]? = some g
        ∧ o'.segments[n]? = some (g.append bytes) := by
  obtain ⟨n, rfl, hn⟩ := h.inside
  rw [extend_natCast hn] at hextend
  cases hextend
  obtain ⟨g, hg⟩ := exists_getElem?_of_lt hn
  have hreferences : (o.modifySegment n fun s => s.append bytes).references = o.references := by
    cases n <;> rfl
  refine ⟨⟨⟨n, rfl, by rwa [length_modifySegment]⟩, ?_, ?_, ?_⟩, hreferences, n, g, rfl, hg, ?_⟩
  · rw [length_modifySegment]
    exact Nat.le_succ_of_le h.count
  · intro g' hg'
    obtain ⟨i, hi⟩ := List.mem_iff_getElem?.mp hg'
    rw [getElem?_modifySegment, Option.map_eq_some_iff] at hi
    obtain ⟨g₀, hg₀, rfl⟩ := hi
    have hsize := h.size g₀ (List.mem_of_getElem? hg₀)
    split
    · rw [Segment.size, Segment.data_append, List.length_append]
      rw [Segment.size] at hsize
      omega
    · omega
  · intro r hr
    rw [hreferences] at hr
    obtain ⟨hname, i, offset, line, hi, ho, hl, hlt, hle, g₀, hg₀, hdata⟩ := h.reference r hr
    refine ⟨hname, i, offset, line, hi, ho, hl, by omega, by omega,
      if n = i then g₀.append bytes else g₀, ?_, ?_⟩
    · rw [getElem?_modifySegment, hg₀, Option.map_some]
    · split
      · rw [Segment.data_append]
        exact List.append_ne_nil_of_left_ne_nil hdata _
      · exact hdata
  · rw [getElem?_modifySegment, hg, Option.map_some, if_pos rfl]

end Orderly

end Object

/-! ## The second pass -/

namespace Emission

section Step

variable {c : Statement.Context} {number : Nat} {m m' : Emission}

/-- An instruction is put out together with the references in it. -/
theorem orderly_instruction (h : m.object.Orderly number m.current) {e : Encoded}
    {pending : List Text} (hbytes : 0 < e.bytes.length ∧ e.bytes.length ≤ 3)
    (hpending : ∀ x ∈ pending, IsEntryName x) {o : Object}
    (hextend : m.object.extend m.current e.bytes = .ok o) :
    { o with references := o.references ++ m.referencesOf number e pending }.Orderly
      (number + 1) m.current := by
  obtain ⟨horderly, -, n, g, hn, hg, hg'⟩ := h.extend hbytes hextend
  have hsegment : m.segment = g := by
    rw [segment, hn, Object.segmentAt?_natCast, hg]
    rfl
  have hsize := h.size g (List.mem_of_getElem? hg)
  refine ⟨horderly.inside, horderly.count, horderly.size, fun r hr => ?_⟩
  rcases List.mem_append.mp hr with hr | hr
  · exact horderly.reference r hr
  · obtain ⟨x, hx, rfl⟩ := List.mem_map.mp hr
    refine ⟨hpending x hx, n, g.size + 1, number, hn, ?_, rfl, Nat.lt_succ_self number, by omega,
      g.append e.bytes, hg', ?_⟩
    · rw [hsegment]
      rfl
    · rw [Segment.data_append]
      exact List.append_ne_nil_of_right_ne_nil _ (List.ne_nil_of_length_pos hbytes.1)

theorem orderly_body {body : Text} (hafter : BodyAfter c m number body m')
    (h : m.object.Orderly number m.current) : m'.object.Orderly (number + 1) m'.current := by
  cases hafter with
  | nothing hbody hobject hcurrent hentries =>
    rw [hobject, hcurrent]
    exact h.succ
  | directive d hdot hd happly hentries =>
    rcases Directive.of_apply happly with ⟨argument, l, -, -, hobject, hcurrent⟩
      | ⟨-, hobject, hcurrent⟩ | ⟨argument, l, -, -, hextend, hcurrent⟩
    · rw [hobject, hcurrent]
      exact h.addSegment _
    · rw [hobject, hcurrent]
      exact h.toFirst.succ
    · rw [hcurrent]
      exact (h.extend ⟨by simp, by simp⟩ hextend).1
  | instruction e pending o hbody hdot hassemble hextend hobject hcurrent hentries =>
    obtain ⟨hbytes, hpending⟩ := Statement.of_assemble hassemble
    rw [hobject, hcurrent]
    exact orderly_instruction h hbytes hpending hextend

theorem orderly_step {raw : Text} (hstep : step c m number raw = (m', none))
    (hclean : m'.report.hasErrors = false) (h : m.object.Orderly number m.current) :
    m'.object.Orderly (number + 1) m'.current := by
  rcases same_or_body_of_step hstep hclean with ⟨hobject, hcurrent, -⟩ | ⟨label, body, -, hbody⟩
  · rw [hobject, hcurrent]
    exact h.succ
  · refine orderly_body hbody ?_
    cases label <;> exact h

end Step

end Emission

/-! ## Whole assemblies -/

namespace Assembly

/-- What is true of every object that an assembly produces. -/
structure Produced (o : Object) (table : SymbolTable) (count : Nat) : Prop where
  symbols : o.symbols = some table
  symbol : ∀ u ∈ table.symbols, IsEntryName u.name ∧ ∃ line : Nat, u.line = line ∧ line ≤ count
  nodup : table.NamesNodup
  segments : o.segments.length ≤ count + 1
  size : ∀ g ∈ o.segments, g.size ≤ 3 * (count + 1)
  reference : ∀ r ∈ o.references, IsEntryName r.name ∧
    ∃ i offset line : Nat, r.segment = i ∧ r.offset = offset ∧ r.line = line
      ∧ line ≤ count ∧ offset ≤ 3 * (count + 1) ∧ ∃ g, o.segments[i]? = some g ∧ g.data ≠ []

theorem produced_of_assemble {s : Settings} {allow : Bool} {file : String} {source : Text}
    {o : Object} (h : (assemble s allow file source).outcome = .ok o) :
    ∃ table, Produced o table source.length := by
  obtain ⟨d, m, hdefine, hemit, hclean, hclean', hobject⟩ := exists_passes_of_assemble h
  have hcount := Text.length_lines_le source
  have hsymbols : Definitions.Orderly (1 + (Text.lines source).length) d :=
    walkLines_invariant (p := fun d => d.report.hasErrors = false)
      (fun d number raw d' hstep hp => (Definitions.of_step hstep hp).1)
      (fun d number raw d' hstep hp hI => Definitions.orderly_step hstep hp hI)
      hdefine hclean ⟨fun u hu => absurd hu List.not_mem_nil, List.nodup_nil⟩
  have horderly : m.object.Orderly (1 + (Text.lines source).length) m.current :=
    Emission.invariant_of_run (I := fun number m => m.object.Orderly number m.current)
      (fun m number raw m' hstep hp hI => Emission.orderly_step hstep hp hI)
      hemit hclean' (.starting s.programStart)
  subst hobject
  refine ⟨d.symbols, rfl, fun u hu => ?_, hsymbols.nodup, ?_, fun g hg => ?_, fun r hr => ?_⟩
  · obtain ⟨hname, line, hline, hlt⟩ := hsymbols.symbol u hu
    exact ⟨hname, line, hline, by omega⟩
  · exact Nat.le_trans horderly.count (by omega)
  · exact Nat.le_trans (horderly.size g hg) (by omega)
  · obtain ⟨hname, i, offset, line, hi, ho, hl, hlt, hle, hg⟩ := horderly.reference r hr
    exact ⟨hname, i, offset, line, hi, ho, hl, by omega, by omega, hg⟩

/-- The sidecar of an assembled object can be written and read back, as long as the
source is not so long that a number in it has more digits than are read. -/
theorem Produced.writable {o : Object} {table : SymbolTable} {count : Nat}
    (h : Produced o table count) (hlimit : 3 * (count + 1) < Numeral.decimalLimit) :
    Writable o := by
  have htable : tableSymbols o = table.symbols := by
    rw [tableSymbols, h.symbols]
  refine ⟨?_, fun g hg => ?_, fun u hu => ?_, ?_, fun r hr => ?_⟩
  · exact Nat.lt_of_le_of_lt h.segments (by omega)
  · exact Nat.lt_of_le_of_lt (h.size g hg) hlimit
  · obtain ⟨hname, line, hline, hle⟩ := h.symbol u (htable ▸ hu)
    exact ⟨hname, by omega⟩
  · rw [htable]
    exact h.nodup
  · obtain ⟨hname, i, offset, line, hi, ho, hl, hline, hoffset, g, hg, -⟩ := h.reference r hr
    have hinside := (List.getElem?_eq_some_iff.mp hg).1
    have hsegments := h.segments
    exact ⟨hname, by omega, by omega, by omega⟩

end Assembly

end Cross6502
