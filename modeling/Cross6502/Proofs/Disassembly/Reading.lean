import Cross6502.Assembly.Definitions
import Cross6502.Proofs.Disassembly.Printed

/-!
# Reading printed lines

The lines of a disassembly are read by the assembler as they were meant: a label line
as a label with nothing behind it, and an instruction, which stands behind a tab, as a
statement without a label (`LineReads`).

The statement of an instruction gives the instruction back.  The first pass sets aside
as many bytes as the instruction has, whether it sees a number or a name
(`effectiveMode_printed`), and the second pass puts out the very bytes, provided that
its table has each name at the address where it was printed (`assemble_printed`).  All
this together is `exists_readsBack`.
-/

namespace Cross6502

open OperandForm Token Replacement Disassembler

/-! ## Kinds of lines -/

/-- A printed line and what the assembler takes it for. -/
structure LineReads (printed : Text) (reading : Line) : Prop where
  unbroken : ∀ c ∈ printed, Text.isBreak c = false
  ofClean : Line.ofClean (Line.clean printed) = reading
  short : (Line.clean printed).length < 80

/-- Cleaning a text that does not end in a blank only takes its capitals away. -/
theorem clean_of_lowers {indent t body : Text} (hindent : indent = [] ∨ indent = ['\t'])
    (h : Lowers t body) (hne : body ≠ []) (hlast : ∀ c ∈ body.getLast?, Text.isBlank c = false) :
    Line.clean (indent ++ t) = indent ++ body := by
  have hplain : ∀ c ∈ indent, c ≠ ';' ∧ c.toNat < 128 ∧ c.toLower = c := by
    rcases hindent with rfl | rfl <;> decide
  have htne : t ≠ [] := by
    rintro rfl
    exact hne h.lower.symm
  have hcomment : Line.stripComment (indent ++ t) = indent ++ t := by
    rw [Line.stripComment, List.takeWhile_eq_self_iff]
    intro c hc
    rcases List.mem_append.mp hc with hc | hc
    · simpa using (hplain c hc).1
    · simpa using (h.printable c hc).2.2
  have htrim : Text.trimRight (indent ++ t) = indent ++ t := by
    apply Text.trimRight_of_getLast
    intro c hc
    rw [List.getLast?_append, List.getLast?_eq_some_getLast htne, Option.some_or,
      ← List.getLast?_eq_some_getLast htne] at hc
    -- a blank at the end would be a space, which stays in lower case
    cases hblank : Text.isBlank c with
    | false => rfl
    | true =>
      have hspace := Text.eq_space_of_isBlank (h.printable c (List.mem_of_mem_getLast? hc)) hblank
      have hmem : ' ' ∈ body.getLast? := by
        rw [← h.lower, List.getLast?_map, hc, hspace]
        rfl
      exact absurd (hlast ' ' hmem) (by decide)
  rw [Line.clean, hcomment, htrim, Text.lower_of_lt, List.map_append, h.lower]
  · congr 1
    rcases hindent with rfl | rfl <;> decide
  · intro c hc
    rcases List.mem_append.mp hc with hc | hc
    · exact (hplain c hc).2.1
    · have := (h.printable c hc).2.1
      omega

/-- An instruction behind a tab is a statement. -/
theorem reads_statement {t body : Text} (h : Lowers t body) (hne : body ≠ [])
    (htight : Text.Tight body) (hlength : body.length < 79) :
    LineReads ('\t' :: t) (.statement none body) := by
  have hclean : Line.clean ('\t' :: t) = '\t' :: body :=
    clean_of_lowers (.inr rfl) h hne htight.2
  have htrim : Text.trim ('\t' :: body) = body := by
    have hleft : Text.trimLeft (['\t'] ++ body) = Text.trimLeft body :=
      Text.trimLeft_append (by decide) body
    rw [Text.trim]
    change Text.trimRight (Text.trimLeft (['\t'] ++ body)) = body
    rw [hleft]
    exact Text.trim_of_tight htight
  refine ⟨?_, ?_, ?_⟩
  · intro c hc
    rcases List.mem_cons.mp hc with rfl | hc
    · decide
    · exact Text.isBreak_of_isPrintable (h.printable c hc)
  · have hempty : ¬ (body.isEmpty = true) := by simpa using hne
    have halnum : (!Text.isAlphanumeric '\t') = true := by decide
    rw [hclean, Line.ofClean, htrim, if_neg hempty, Line.splitLabel, if_pos halnum, htrim]
  · rw [hclean, List.length_cons]
    omega

/-- A name with a colon behind it is a label, whatever it spells. -/
theorem splitLabel_colon {name : Text} (hne : name ≠ [])
    (hfirst : ∀ c ∈ name.head?, Text.isAlphanumeric c = true)
    (hname : ∀ c ∈ name, (!Line.endsLabel c) = true) (rest : Text) :
    Line.splitLabel (name ++ ':' :: rest) = (some name, Text.trim rest) := by
  have htake : (name ++ ':' :: rest).takeWhile (fun c => !Line.endsLabel c) = name := by
    rw [List.takeWhile_append_of_pos hname]
    simp [Line.endsLabel]
  have hdrop : (name ++ ':' :: rest).dropWhile (fun c => !Line.endsLabel c) = ':' :: rest := by
    rw [List.dropWhile_append_of_pos hname]
    simp [Line.endsLabel]
  obtain ⟨c, t, rfl⟩ := List.exists_cons_of_ne_nil hne
  rw [List.cons_append] at htake hdrop ⊢
  rw [Line.splitLabel, hfirst c rfl, if_neg (by decide), htake, hdrop]
  rfl

/-- A made-up name with a colon is a label. -/
theorem reads_label {k : Nat} (hk : k ≤ 65536) :
    LineReads (labelName k ++ [':']) (.statement (some (localName k)) []) := by
  have hword := isWord_localName k
  have hcolon : Lowers [':'] [':'] := ⟨by decide, by decide⟩
  have hlowers := (lowers_labelName k).append hcolon
  have hblank : ∀ c ∈ localName k ++ [':'], Text.isBlank c = false := by
    intro c hc
    rcases List.mem_append.mp hc with hc | hc
    · exact isBlank_of_mem_word hword c hc
    · rw [List.mem_singleton.mp hc]
      decide
  have htight := Text.tight_of_forall hblank
  have hclean : Line.clean (labelName k ++ [':']) = localName k ++ [':'] :=
    clean_of_lowers (.inl rfl) hlowers (by simp) htight.2
  have hname : ∀ c ∈ localName k, (!Line.endsLabel c) = true := by
    intro c hc
    have hc := hword.2 c hc
    simp [Line.endsLabel, isBlank_of_isFurther hc, ne_of_isFurther hc (d := ':') (by decide),
      ne_of_isFurther hc (d := '=') (by decide)]
  refine ⟨fun c hc => Text.isBreak_of_isPrintable (hlowers.printable c hc), ?_, ?_⟩
  · have hsplit : Line.splitLabel (localName k ++ [':']) = (some (localName k), []) :=
      splitLabel_colon hword.1 (fun c hc => by cases hc; decide) hname []
    have hempty : ¬ ((localName k ++ [':']).isEmpty = true) := by simp
    rw [hclean, Line.ofClean, Text.trim_of_tight htight, if_neg hempty, hsplit]
    rfl
  · have := length_localName hk
    rw [hclean, List.length_append, List.length_singleton]
    omega

/-! ## The mode of a printed statement -/

section Body

variable {table : SymbolTable} {s : Site} {m : Mnemonic} {mode : Mode} {body core : Text}

theorem PrintedCore.isBlank_of_mem (h : PrintedCore table s m mode core) :
    ∀ c ∈ core, Text.isBlank c = false := by
  cases h with
  | number n _ =>
    rw [literal_eq]
    exact isBlank_of_mem_literal (isHexRun_lowerHex _ n)
  | target a k => exact isBlank_of_mem_word (isWord_localName k)

theorem PrintedBody.tight (h : PrintedBody table s m mode body) : Text.Tight body := by
  cases h with
  | implied => exact Text.tight_of_forall fun c hc => isBlank_of_mem_name m hc
  | accumulator => exact tight_line (by decide) (by decide)
  | operand _ hcore => exact tight_line hcore.ne_nil hcore.isBlank_of_mem

theorem PrintedBody.mnemonic (h : PrintedBody table s m mode body) :
    Line.mnemonic body = m.name := by
  cases h with
  | implied => rw [Line.mnemonic, List.take_of_length_le (by rw [m.length_name])]
  | accumulator => exact mnemonic_line m _ _ _
  | operand => exact mnemonic_line m _ _ _

/-- A name of the disassembler is no number. -/
theorem read_localName (k : Nat) : Literal.read (localName k) = .ok ⟨0, false⟩ := by
  have hletters : ∀ c ∈ "label".toList, c ≠ ',' ∧ Literal.isDecoration c = false := by decide
  have hplain : ∀ c ∈ localName k, c ≠ ',' ∧ Literal.isDecoration c = false := by
    intro c hc
    rcases List.mem_append.mp hc with hc | hc
    · exact hletters c hc
    · exact not_decoration_of_isLowerHexDigit (isLowerHexDigit_of_mem_decimal hc)
  have hclean := clean_append_of_plain hplain []
  rw [List.append_nil, Literal.clean_nil, List.append_nil] at hclean
  rw [Literal.read, hclean]
  -- the first letter is no digit, and three of the letters behind it are
  rfl

theorem operandMode_localName (k : Nat) : Line.operandMode (localName k) = .ok .symbol := by
  change (do
    let literal ← Literal.read (localName k)
    if literal.wide then Except.ok (Line.indexedBy .absolute (localName k))
      else if Literal.startsNumber (localName k) then .ok .relative
      else .ok .symbol) = _
  rw [read_localName]
  rfl

theorem mode_implied (m : Mnemonic) : Line.mode m.name = .ok .implied := by
  have htrim : Text.trim m.name = m.name :=
    Text.trim_of_tight (Text.tight_of_forall fun c hc => isBlank_of_mem_name m hc)
  have hempty : m.name.isEmpty = false := by
    rw [List.isEmpty_eq_false_iff, ← List.length_pos_iff, m.length_name]
    decide
  have hdrop : m.name.drop 3 = [] := List.drop_eq_nil_of_le (by rw [m.length_name])
  simp only [Line.mode, htrim, hempty, hdrop, Bool.false_eq_true, if_false]
  rfl

theorem mode_accumulator (m : Mnemonic) :
    Line.mode (line m [' '] .plain ['a']) = .ok .accumulator := by
  rw [mode_line_eq isGap_blank (by decide) (by decide)]
  rfl

theorem mode_literal (hdecode : Opcode.decode s.opcode = some (m, mode))
    (halone : standsAlone mode = false) (n : Int) :
    Line.mode (line m [' '] (formOf mode) (Replacement.literal mode.isWide n)) = .ok mode := by
  have hmode : (formOf mode).mode mode.isWide = mode :=
    (takesWord_formOf m _ (Opcode.mem_opcodes_of_decode hdecode) halone).2
  have hread := read_operand_literal (formOf mode) mode.isWide n
  rw [literal_eq] at hread ⊢
  rw [mode_line isGap_blank (isHexRun_lowerHex mode.isWide n) hread, hmode]

theorem effectiveMode_of_mode (h : Line.mode body = .ok mode) (hne : mode ≠ .symbol) :
    Line.effectiveMode body = .ok mode := by
  rw [Line.effectiveMode, h]
  exact if_pos hne

/-- A name without an index is taken for an address, or for a displacement in a branch. -/
theorem effectiveMode_plain_name (m : Mnemonic) (k : Nat) :
    Line.effectiveMode (line m [' '] .plain (localName k))
      = .ok (if m.isBranch then .relative else .absolute) := by
  have hblank := isBlank_of_mem_word (isWord_localName k)
  have hoperand : plain.operand (localName k) = localName k := List.append_nil _
  have hcomma : ∀ c ∈ localName k, c ≠ ',' :=
    fun c hc => ne_of_isFurther ((isWord_localName k).2 c hc) (by decide)
  have hmode : Line.mode (line m [' '] .plain (localName k)) = .ok .symbol := by
    rw [mode_line_eq isGap_blank (isWord_localName k).1 hblank, hoperand, operandMode_localName]
  have hindexed := indexedBy_operand .absolute .plain hcomma
  simp only [Line.effectiveMode, hmode, bind, Except.bind, ne_eq, not_true_eq_false, if_false,
    trim_line (isWord_localName k).1 hblank, mnemonic_line, Opcode.isBranchText_name,
    operand_line isGap_blank hblank, hindexed]
  cases m.isBranch <;> rfl

theorem effectiveMode_paren_name (m : Mnemonic) (k : Nat) :
    Line.effectiveMode (line m [' '] .paren (localName k)) = .ok .indirect := by
  have hcomma : ∀ c ∈ localName k, c ≠ ',' :=
    fun c hc => ne_of_isFurther ((isWord_localName k).2 c hc) (by decide)
  have hindexed := indexedBy_operand .indirect .paren hcomma
  refine effectiveMode_of_mode ?_ (by decide)
  rw [mode_line_eq isGap_blank (isWord_localName k).1 (isBlank_of_mem_word (isWord_localName k))]
  change Except.ok (Line.indexedBy .indirect (paren.operand (localName k))) = _
  rw [hindexed]
  rfl

/-- The first pass gives a printed instruction the mode it has. -/
theorem effectiveMode_printed (hdecode : Opcode.decode s.opcode = some (m, mode))
    (h : PrintedBody table s m mode body) : Line.effectiveMode body = .ok mode := by
  have hmem := Opcode.mem_opcodes_of_decode hdecode
  cases h with
  | implied hmode =>
    rw [hmode]
    exact effectiveMode_of_mode (mode_implied m) (by decide)
  | accumulator hmode =>
    rw [hmode]
    exact effectiveMode_of_mode (mode_accumulator m) (by decide)
  | operand halone hcore =>
    cases hcore with
    | number n _ =>
      exact effectiveMode_of_mode (mode_literal hdecode halone n)
        (Opcode.mode_ne_symbol_of_mem m _ hmem)
    | target a k _ hform =>
      have hmode : (formOf mode).mode mode.isWide = mode := (takesWord_formOf m _ hmem halone).2
      rcases hform with hform | hform
      · have hbranch : mode = .relative ↔ m.isBranch = true :=
          Opcode.relative_iff_isBranch m _ hmem
        rw [hform, OperandForm.mode] at hmode
        rw [hform, effectiveMode_plain_name]
        congr 1
        by_cases hb : m.isBranch = true
        · rw [if_pos hb, hbranch.mpr hb]
        · rw [if_neg hb]
          cases hwide : mode.isWide with
          | true =>
            rw [hwide] at hmode
            exact hmode
          | false =>
            rw [hwide] at hmode
            exact absurd (hbranch.mp hmode.symm) hb
      · rw [hform, OperandForm.mode] at hmode
        rw [hform, effectiveMode_paren_name, hmode]

end Body

/-! ## The bytes of a printed statement -/

/-- A table that has the labels of a disassembly at their places, and nothing else. -/
structure Places (symbols table : SymbolTable) : Prop where
  names : ∀ u ∈ symbols.symbols, ∃ k, u.name = localName k
  found : ∀ a k, table.labelAt? a = some (labelName k) →
    ∃ u, symbols.find? (localName k) = some u ∧ u.address = a

section Emit

variable {table : SymbolTable} {s : Site} {m : Mnemonic} {mode : Mode}
  {c : Statement.Context}

/-- No label stands in a line that holds a literal. -/
theorem absent_literal_line {symbols : List Symbol}
    (hnames : ∀ u ∈ symbols, ∃ k, u.name = localName k) (m : Mnemonic) (f : OperandForm)
    (word : Bool) (n : Int) :
    Names.Absent symbols (line m [' '] f (Replacement.literal word n)) := by
  intro u hu
  obtain ⟨k, hk⟩ := hnames u hu
  rw [hk, literal_eq]
  exact find?_literal_line isGap_blank (isHexRun_lowerHex word n) (isWord_localName k)

theorem encode_formOf (hdecode : Opcode.decode s.opcode = some (m, mode))
    (halone : standsAlone mode = false) :
    Opcode.encode m.name ((formOf mode).mode (takesWord m.name (beforeCore [' '] (formOf mode))))
      = .ok s.opcode := by
  obtain ⟨hword, hmode⟩ := takesWord_formOf m _ (Opcode.mem_opcodes_of_decode hdecode) halone
  simp only at hword hmode
  rw [hword, hmode]
  exact Opcode.encode_of_decode hdecode

/-- The instruction of a line in the form of its mode. -/
theorem bytes_instruction (hdecode : Opcode.decode s.opcode = some (m, mode))
    (halone : standsAlone mode = false) {n : Int} (hoperand : s.operand = operandOf mode n) :
    (instruction m [' '] (formOf mode) s.opcode n).bytes = s.bytes := by
  obtain ⟨hword, hmode⟩ := takesWord_formOf m _ (Opcode.mem_opcodes_of_decode hdecode) halone
  simp only at hword hmode
  rw [Encoded.bytes, instruction, hword, hmode, Site.bytes, hoperand]

/-- The line that holds the number is encoded to the instruction. -/
theorem ofLine_number (hdecode : Opcode.decode s.opcode = some (m, mode))
    (halone : standsAlone mode = false) (n : Int) :
    Encoded.ofLine (line m [' '] (formOf mode) (Replacement.literal mode.isWide n))
      = .ok (instruction m [' '] (formOf mode) s.opcode n) := by
  have hword : takesWord m.name (beforeCore [' '] (formOf mode)) = mode.isWide :=
    (takesWord_formOf m _ (Opcode.mem_opcodes_of_decode hdecode) halone).1
  rw [← hword, ofLine_of_encode isGap_blank (encode_formOf hdecode halone)]

/-- A line that holds the number. -/
theorem assemble_number (hdecode : Opcode.decode s.opcode = some (m, mode))
    (halone : standsAlone mode = false) {n : Int} (hoperand : s.operand = operandOf mode n)
    (hplaces : Places c.symbols table) (number : Nat) :
    ∃ e, (Statement.assemble c (line m [' '] (formOf mode) (Replacement.literal mode.isWide n))
        s.address number).outcome = .ok (e, []) ∧ e.bytes = s.bytes := by
  refine ⟨_, ?_, bytes_instruction hdecode halone hoperand⟩
  rw [Statement.assemble_literal_line isGap_blank (absent_literal_line hplaces.names m _ _ n),
    ofLine_number hdecode halone]
  rfl

theorem length_decoration (f : OperandForm) : f.opening.length ≤ 1 ∧ f.closing.length ≤ 3 := by
  cases f <;> decide

/-- A line that holds the name of the target. -/
theorem assemble_target (hdecode : Opcode.decode s.opcode = some (m, mode))
    (halone : standsAlone mode = false) {a : Int} {k : Nat}
    (hlabel : table.labelAt? a = some (labelName k))
    (hreach : m.isBranch = true → reaches (displacement a s.address) = true)
    (hoperand : s.operand = operandOf mode (if m.isBranch then displacement a s.address else a))
    (hplaces : Places c.symbols table) (hcapacity : 20 ≤ c.capacity) (number : Nat) :
    ∃ e, (Statement.assemble c (line m [' '] (formOf mode) (localName k))
        s.address number).outcome = .ok (e, []) ∧ e.bytes = s.bytes := by
  obtain ⟨u, hfind, rfl⟩ := hplaces.found a k hlabel
  obtain ⟨hname, above, below, hsymbols, hother⟩ := List.find?_eq_some_iff_append.mp hfind
  have hname : u.name = localName k := by simpa using hname
  have hmem : ∀ v ∈ above ++ u :: below, ∃ k, v.name = localName k := hsymbols ▸ hplaces.names
  have habove : Names.Absent above (line m [' '] (formOf mode) (localName k)) := by
    intro v hv
    obtain ⟨l, hl⟩ := hmem v (List.mem_append_left _ hv)
    have hne : v.name ≠ localName k := by simpa using hother v hv
    exact find?_line_of_ne isGap_blank (isWord_localName k) (hl ▸ isWord_localName l) hne
  have hbelow : ∀ t, Replacement.text m.name (beforeCore [' '] (formOf mode)) u.address s.address
      (localName k) = .ok t → Names.Absent below (line m [' '] (formOf mode) t) := by
    intro t ht
    obtain ⟨n, rfl⟩ := exists_literal_of_text ht
    exact absent_literal_line
      (fun v hv => hmem v (List.mem_append_right _ (List.mem_cons_of_mem u hv))) m _ _ n
  have htext : Replacement.text m.name (beforeCore [' '] (formOf mode)) u.address s.address
      (localName k) = .ok (Replacement.literal (takesWord m.name (beforeCore [' '] (formOf mode)))
        (if m.isBranch then displacement u.address s.address else u.address)) :=
    text_of_reaches hreach _ _
  refine ⟨_, ?_, bytes_instruction hdecode halone hoperand⟩
  rw [Statement.assemble_known_line isGap_blank ((isWord_localName k).beginsOutside isGap_blank _)
    hsymbols hname habove hbelow, htext]
  simp only [Except.bind]
  rw [splice_line rfl, if_neg, ofLine_of_encode isGap_blank (encode_formOf hdecode halone)]
  · rfl
  · rintro ⟨-, h⟩
    have hform := length_decoration (formOf mode)
    have hliteral : ∀ n, (Replacement.literal (takesWord m.name (beforeCore [' '] (formOf mode)))
        n).length ≤ 5 := by
      intro n
      rw [length_literal, places]
      split <;> omega
    have hlimit : (Statement.bufferFor c (line m [' '] (formOf mode) (localName k)) number).limit
        = c.capacity - 1 := rfl
    have hlength := hliteral (if m.isBranch then displacement u.address s.address else u.address)
    rw [hlimit, corePosition, List.length_append, List.length_singleton] at h
    omega

/-- An instruction that stands alone has no operand bytes. -/
theorem bytes_of_standsAlone (hdecode : Opcode.decode s.opcode = some (m, mode))
    (hcomplete : s.isComplete = true) (halone : mode = .implied ∨ mode = .accumulator) :
    s.bytes = [s.opcode] := by
  rw [Site.isComplete, beq_iff_eq, Opcode.length_of_decode hdecode] at hcomplete
  have hoperand : s.operand = [] := by
    apply List.eq_nil_of_length_eq_zero
    rcases halone with rfl | rfl <;> exact hcomplete
  rw [Site.bytes, hoperand]

theorem operand_name (m : Mnemonic) : Line.operand m.name = [] := by
  rw [Line.operand, List.drop_eq_nil_of_le (by rw [m.length_name])]
  rfl

/-- A mnemonic alone is encoded to its opcode. -/
theorem ofLine_name (hdecode : Opcode.decode s.opcode = some (m, .implied)) :
    Encoded.ofLine m.name = .ok ⟨m.name, .implied, s.opcode, []⟩ := by
  have htrim : Text.trim m.name = m.name :=
    Text.trim_of_tight (Text.tight_of_forall fun c hc => isBlank_of_mem_name m hc)
  have hshape : Encoded.hasMnemonicShape m.name = true := by
    obtain ⟨a, b, d, h⟩ := List.length_eq_three.mp m.length_name
    rw [h]
    rfl
  have hmnemonic : Line.mnemonic m.name = m.name :=
    List.take_of_length_le (by rw [m.length_name])
  rw [Encoded.ofLine, htrim]
  simp only [hshape, hmnemonic, mode_implied, operand_name, Opcode.encode_of_decode hdecode, bind,
    Except.bind]
  rfl

theorem assemble_implied (hdecode : Opcode.decode s.opcode = some (m, .implied))
    (hcomplete : s.isComplete = true) (hplaces : Places c.symbols table) (number : Nat) :
    ∃ e, (Statement.assemble c m.name s.address number).outcome = .ok (e, [])
      ∧ e.bytes = s.bytes := by
  have hdrop : m.name.drop 3 = [] := List.drop_eq_nil_of_le (by rw [m.length_name])
  have habsent : Names.Absent c.symbols.symbols m.name := by
    intro u hu
    obtain ⟨k, hk⟩ := hplaces.names u hu
    rw [hk, find?, operandStart, hdrop, m.length_name, if_pos (Nat.le_refl 3), scan,
      if_neg (by simp [standsAt, localName_eq])]
  have hunsigned : Arithmetic.Unsigned (m.name.drop operandStart) := by
    rw [operandStart, hdrop]
    exact fun c hc => absurd hc List.not_mem_nil
  have hplain : Literal.isPlain (Line.operand m.name) = true := by
    rw [operand_name]
    rfl
  refine ⟨⟨m.name, .implied, s.opcode, []⟩, ?_,
    (bytes_of_standsAlone hdecode hcomplete (.inl rfl)).symm⟩
  rw [Statement.assemble_of_absent habsent hunsigned hplain, ofLine_name hdecode]
  rfl

/-- A mnemonic with the accumulator for its operand is encoded to its opcode. -/
theorem ofLine_accumulator (hdecode : Opcode.decode s.opcode = some (m, .accumulator)) :
    Encoded.ofLine (line m [' '] .plain ['a']) = .ok ⟨m.name, .accumulator, s.opcode, []⟩ := by
  have hblank : ∀ d ∈ ['a'], Text.isBlank d = false := by decide
  rw [Encoded.ofLine, trim_line (by decide) hblank]
  simp only [hasMnemonicShape_line isGap_blank, mnemonic_line, mode_accumulator,
    operand_line isGap_blank hblank, Opcode.encode_of_decode hdecode, bind, Except.bind]
  rfl

theorem assemble_accumulator (hdecode : Opcode.decode s.opcode = some (m, .accumulator))
    (hcomplete : s.isComplete = true) (hplaces : Places c.symbols table) (number : Nat) :
    ∃ e, (Statement.assemble c (line m [' '] .plain ['a']) s.address number).outcome = .ok (e, [])
      ∧ e.bytes = s.bytes := by
  have hword : IsWord ['a'] := ⟨by decide, by decide⟩
  have habsent : Names.Absent c.symbols.symbols (line m [' '] .plain ['a']) := by
    intro u hu
    obtain ⟨k, hk⟩ := hplaces.names u hu
    refine find?_line_of_ne isGap_blank hword (hk ▸ isWord_localName k) ?_
    intro h
    cases hk.symm.trans h
  have hunsigned := Arithmetic.unsigned_line isGap_blank (Arithmetic.unsigned_of_isWord hword) m
    .plain
  have hplain : Literal.isPlain (Line.operand (line m [' '] .plain ['a'])) = true := by
    rw [operand_line isGap_blank (by decide)]
    rfl
  refine ⟨⟨m.name, .accumulator, s.opcode, []⟩, ?_,
    (bytes_of_standsAlone hdecode hcomplete (.inr rfl)).symm⟩
  rw [Statement.assemble_of_absent habsent hunsigned hplain, ofLine_accumulator hdecode]
  rfl

/-- The second pass gives a printed instruction its bytes. -/
theorem assemble_printed {body : Text} (hdecode : Opcode.decode s.opcode = some (m, mode))
    (hcomplete : s.isComplete = true) (h : PrintedBody table s m mode body)
    (hplaces : Places c.symbols table) (hcapacity : 20 ≤ c.capacity) (number : Nat) :
    ∃ e, (Statement.assemble c body s.address number).outcome = .ok (e, [])
      ∧ e.bytes = s.bytes := by
  cases h with
  | implied hmode =>
    subst hmode
    exact assemble_implied hdecode hcomplete hplaces number
  | accumulator hmode =>
    subst hmode
    exact assemble_accumulator hdecode hcomplete hplaces number
  | operand halone hcore =>
    cases hcore with
    | number n hoperand => exact assemble_number hdecode halone hoperand hplaces number
    | target a k hlabel hform hreach hoperand =>
      exact assemble_target hdecode halone hlabel hreach hoperand hplaces hcapacity number

end Emit

/-! ## Instructions that read back -/

/-- The line printed for an instruction reads back, as a statement, to the instruction. -/
structure ReadsBack (table : SymbolTable) (s : Site) (body : Text) : Prop where
  line : LineReads ('\t' :: (Disassembled.ofSite table s).text) (.statement none body)
  code : body ≠ [] ∧ body.head? ≠ some '.'
  room : ∃ mode, Line.effectiveMode body = .ok mode ∧ mode.length = s.bytes.length
  bytes : ∀ c : Statement.Context, Places c.symbols table → 20 ≤ c.capacity → ∀ number,
    ∃ e, (Statement.assemble c body s.address number).outcome = .ok (e, []) ∧ e.bytes = s.bytes

theorem head?_name (m : Mnemonic) : m.name.head? ≠ some '.' ∧ m.name.head? ≠ none := by
  cases m <;> decide

section ReadsBack

variable {table : SymbolTable} {sites : List Site} {s : Site} {m : Mnemonic} {mode : Mode}

theorem Disassembler.Labelling.le_length (hlabels : Labelling table sites) {a : Int} {k : Nat}
    (h : table.labelAt? a = some (labelName k)) : k ≤ sites.length := by
  obtain ⟨⟨l, hl, hname⟩, -⟩ := hlabels.shape a _ h
  rw [labelName_inj hname]
  exact hl

theorem PrintedBody.length_lt (hlabels : Labelling table sites) (hcount : sites.length ≤ 65536)
    {body : Text} (h : PrintedBody table s m mode body) : body.length < 79 := by
  have hline : ∀ f core, (OperandForm.line m [' '] f core).length ≤ 8 + core.length := by
    intro f core
    have hform := length_decoration f
    simp only [OperandForm.line, OperandForm.operand, List.length_append, m.length_name,
      List.length_singleton]
    omega
  cases h with
  | implied =>
    rw [m.length_name]
    decide
  | accumulator => exact Nat.lt_of_le_of_lt (hline _ _) (by decide)
  | operand _ hcore =>
    refine Nat.lt_of_le_of_lt (hline _ _) ?_
    cases hcore with
    | number n _ =>
      rw [length_literal, places]
      split <;> decide
    | target a k hlabel =>
      have := length_localName (Nat.le_trans (hlabels.le_length hlabel) hcount)
      omega

/-- Every whole documented instruction whose branch stays inside the address space reads
back. -/
theorem exists_readsBack (hlabels : Labelling table sites) (hcount : sites.length ≤ 65536)
    (hdecode : Opcode.decode s.opcode = some (m, mode)) (hcomplete : s.isComplete = true)
    (hwrap : m.isBranch = true → StaysInside s) : ∃ body, ReadsBack table s body := by
  obtain ⟨body, hbody, hlowers⟩ := exists_printedBody hlabels hdecode hcomplete
    fun hbranch => (hwrap hbranch).named table
  have hhead : body.head? = m.name.head? := by
    rw [← hbody.mnemonic, Line.mnemonic, List.head?_take, if_neg (by decide)]
  have hne : body ≠ [] := by
    rintro rfl
    exact (head?_name m).2 hhead.symm
  refine ⟨body, reads_statement hlowers hne hbody.tight (hbody.length_lt hlabels hcount),
    ⟨hne, hhead ▸ (head?_name m).1⟩, ⟨mode, effectiveMode_printed hdecode hbody, ?_⟩, ?_⟩
  · rw [Site.length_bytes hcomplete, Opcode.length_of_decode hdecode]
  · intro c hplaces hcapacity number
    exact assemble_printed hdecode hcomplete hbody hplaces hcapacity number

end ReadsBack

end Cross6502
