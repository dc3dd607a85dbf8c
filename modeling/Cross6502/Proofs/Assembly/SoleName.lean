import Cross6502.Proofs.Assembly.SumLine
import Cross6502.Proofs.Substitution.PlainName
import Cross6502.Proofs.Symbol.Table

/-!
# Lines with one name of the table

The table is searched name by name, and each name that stands in the line is replaced.  What
becomes of a line is clear if a single symbol is concerned: its name stands in the line, no
other one does, and none does when the name has been replaced.  `SoleName` says this.  The
last part is a condition of its own, for a table may hold a name that is spelt like a literal
(`Statement.symbol_sum_captured`).  Names of letters, digits and underscores are not spelt so,
and no two of them stand in one place.  In a table of such names every line with one of them
is of this kind (`SoleName.of_isPlainName`).

The literal that replaces a name is cut to the width of its place, then the addend is folded
in, and then the width of the result decides the mode.  Nothing is lost on the way: the operand
is the sum of address and addend (`Statement.symbol_sum_exact`).
-/

namespace Cross6502

open OperandForm Token Replacement Arithmetic

/-- The name of a symbol stands in a line, with `tail` behind it, and no other symbol of the
table does, neither in the line as it is written nor when the name has been replaced. -/
structure SoleName (table : SymbolTable) (s : Symbol) (m : Mnemonic) (gap : Text)
    (f : OperandForm) (tail : Text) (address : Int) : Prop where
  mem : s ∈ table.symbols
  begins : BeginsOutside s.name (gap ++ f.opening)
  written : Names.Absent (table.symbols.erase s) (line m gap f (s.name ++ tail))
  replaced : ∀ t, text m.name (beforeCore gap f) s.address address s.name = .ok t →
    Names.Absent (table.symbols.erase s) (line m gap f (t ++ tail))

/-! ## Plain names -/

section Plain

variable {gap : Text} {f : OperandForm} {m : Mnemonic} {tail : Text}

theorem Token.IsPlainName.beginsOutside {name : Text} (h : IsPlainName name) (hg : IsGap gap)
    (f : OperandForm) : BeginsOutside name ('$' :: (gap ++ f.opening)) := by
  refine beginsOutside_cons.mpr ⟨h.head?_ne (by decide), beginsOutside_lead hg f ?_⟩
  obtain ⟨c, t, rfl⟩ := List.exists_cons_of_ne_nil h.ne_nil
  exact ⟨c, rfl, h.opens_eq_false c List.mem_cons_self⟩

/-- Of two plain names only the one that is written stands in the line. -/
theorem Token.find?_line_of_isPlainName {x name : Text} (hg : IsGap gap) (hx : IsPlainName x)
    (hname : IsPlainName name) (hne : name ≠ x) (htail : IsAddend tail) :
    find? (line m gap f (x ++ tail)) name operandStart = none := by
  have hstop : (tail ++ f.closing).takeWhile isWordChar = [] := by
    have hhead := htail.head_closing f
    cases h : tail ++ f.closing with
    | nil => rfl
    | cons c t =>
      rw [h] at hhead
      refine List.takeWhile_cons_of_neg ?_
      rcases hhead c rfl with rfl | rfl | rfl | rfl <;> decide
  have hstands : ¬ standsAt name (beforeCore gap f) (x ++ (tail ++ f.closing)) = true := by
    intro hstands
    have hword := eq_takeWhile_of_standsAt hname hstands
    rw [List.takeWhile_append_of_pos hx.mem, hstop, List.append_nil] at hword
    exact hne hword
  rw [find?_line_eq_scan hg (beginsOutside_cons.mp (hname.beginsOutside hg f)).2,
    List.append_assoc]
  obtain ⟨c, t, rfl⟩ := List.exists_cons_of_ne_nil hx.ne_nil
  rw [List.cons_append] at hstands ⊢
  rw [scan, if_neg hstands]
  -- behind the first character of the name nothing opens a token
  refine scan_eq_none (hx.opens_eq_false c List.mem_cons_self) (fun d hd => ?_) name _
  rcases List.mem_append.mp hd with hd | hd
  · exact hx.opens_eq_false d (List.mem_cons_of_mem c hd)
  · rcases List.mem_append.mp hd with hd | hd
    · exact opens_of_isSumChar (htail.mem d hd)
    · exact opens_of_mem_closing f hd

end Plain

namespace SoleName

variable {table : SymbolTable} {s : Symbol} {m : Mnemonic} {gap : Text} {f : OperandForm}
  {tail : Text} {address : Int}

/-- In front of the symbol the table has none that stands in the line as it is written, and
behind it none that stands there afterwards. -/
theorem exists_append (h : SoleName table s m gap f tail address) :
    ∃ above below, table.symbols = above ++ s :: below
      ∧ Names.Absent above (line m gap f (s.name ++ tail))
      ∧ ∀ t, text m.name (beforeCore gap f) s.address address s.name = .ok t →
        Names.Absent below (line m gap f (t ++ tail)) := by
  obtain ⟨above, below, -, hsymbols, herase⟩ := List.exists_erase_eq h.mem
  have hwritten := h.written
  have hreplaced := h.replaced
  rw [herase] at hwritten hreplaced
  exact ⟨above, below, hsymbols, fun u hu => hwritten u (List.mem_append_left below hu),
    fun t ht u hu => hreplaced t ht u (List.mem_append_right above hu)⟩

/-- Names that begin with no opener and unlike a literal do not stand in a line when the name
has been replaced. -/
theorem of_written (hg : IsGap gap) (htail : IsAddend tail)
    (hbegins : ∀ u ∈ table.symbols, BeginsOutside u.name ('$' :: (gap ++ f.opening)))
    (hmem : s ∈ table.symbols)
    (hwritten : Names.Absent (table.symbols.erase s) (line m gap f (s.name ++ tail))) :
    SoleName table s m gap f tail address := by
  refine ⟨hmem, (beginsOutside_cons.mp (hbegins s hmem)).2, hwritten, fun t ht u hu => ?_⟩
  obtain ⟨k, rfl⟩ := exists_literal_of_text ht
  rw [literal_eq]
  exact find?_literal_line_append hg (isHexRun_lowerHex _ k) htail
    (hbegins u (List.mem_of_mem_erase hu))

/-- In a table of plain names every line with one of them is of this kind. -/
theorem of_isPlainName (hg : IsGap gap) (htail : IsAddend tail) (hnodup : table.NamesNodup)
    (hplain : ∀ u ∈ table.symbols, IsPlainName u.name) (hmem : s ∈ table.symbols) :
    SoleName table s m gap f tail address := by
  have hsymbols : table.symbols.Nodup := hnodup.of_map
  refine of_written hg htail (fun u hu => (hplain u hu).beginsOutside hg f) hmem fun u hu => ?_
  obtain ⟨hne, hu⟩ := hsymbols.mem_erase_iff.mp hu
  have hname : u.name ≠ s.name :=
    fun heq => hne (SymbolTable.eq_of_mem_of_name_eq hnodup hu hmem heq)
  exact find?_line_of_isPlainName hg (hplain s hmem) (hplain u hu) hname htail

end SoleName

namespace Statement

/-! ## Assembling the line -/

section Sole

variable {c : Context} {s : Symbol} {m : Mnemonic} {gap : Text} {f : OperandForm}
  {address : Int}

/-- A line in which the name stands alone is encoded with the literal in its place. -/
theorem assemble_sole_line (hg : IsGap gap) (hsole : SoleName c.symbols s m gap f [] address)
    (number : Nat) :
    (assemble c (line m gap f s.name) address number).outcome =
      (text m.name (beforeCore gap f) s.address address s.name).bind fun t =>
        ((bufferFor c (line m gap f s.name) number).splice (corePosition gap f) s.name.length
          t).bind fun _ => (Encoded.ofLine (line m gap f t)).map fun e => (e, []) := by
  obtain ⟨above, below, hsymbols, habove, hbelow⟩ := hsole.exists_append
  simp only [List.append_nil] at habove hbelow
  exact assemble_known_line hg hsole.begins hsymbols rfl habove hbelow number

/-- Where the name cannot be replaced the line fails for the same reason. -/
theorem assemble_sole_error {tail : Text} (hg : IsGap gap) (htail : IsAddend tail)
    (hsole : SoleName c.symbols s m gap f tail address) {e : Failure}
    (htext : text m.name (beforeCore gap f) s.address address s.name = .error e)
    (number : Nat) :
    (assemble c (line m gap f (s.name ++ tail)) address number).outcome = .error e := by
  obtain ⟨above, below, hsymbols, habove, hbelow⟩ := hsole.exists_append
  refine assemble_of_resolve_error ?_
  rw [resolve_line_append hg hsole.begins htail rfl hsymbols rfl habove hbelow, htext]
  rfl

variable {n : Text} {minus : Bool} {number : Nat} {e : Encoded} {pending : List Text}

/-- A line with a sum that assembles: the replacement fits, the addend can be read, and the
folded line is encoded. -/
theorem exists_of_assemble_sole_sum (hg : IsGap gap) (hn : IsLiteral n)
    (hsole : SoleName c.symbols s m gap f (signOf minus :: n) address) {word : Bool} {v : Int}
    (htext : text m.name (beforeCore gap f) s.address address s.name = .ok (literal word v))
    (h : (assemble c (line m gap f (s.name ++ signOf minus :: n)) address number).outcome
      = .ok (e, pending)) :
    ∃ b l, (bufferFor c (line m gap f (s.name ++ signOf minus :: n)) number).splice
        (corePosition gap f) s.name.length (literal word v) = .ok b
      ∧ Literal.read n = .ok l
      ∧ Encoded.ofLine (line m gap f (folded minus word v l)) = .ok e
      ∧ pending = [] := by
  obtain ⟨above, below, hsymbols, habove, hbelow⟩ := hsole.exists_append
  rw [assemble_folded_sum hg hsole.begins hn hsymbols rfl habove htext (hbelow _ htext)] at h
  obtain ⟨b, hb, h⟩ := Outcome.bind_eq_ok_iff.mp h
  obtain ⟨l, hl, h⟩ := Outcome.bind_eq_ok_iff.mp h
  obtain ⟨e', he', heq⟩ := Outcome.map_eq_ok_iff.mp h
  cases heq
  exact ⟨b, l, hb, hl, he', rfl⟩

/-- Let a line with a sum assemble, for a mnemonic that is no branch.  No name is left over.
The mode is the one that the form has with an address in it, and the line with the name alone
assembles to the same mode.  The operand is the sum modulo `2 ^ 16`, or its low byte where the
mode has room for one. -/
theorem symbol_sum_exact (hg : IsGap gap) (hbranch : m.isBranch = false) (hn : IsLiteral n)
    (hsole : SoleName c.symbols s m gap f (signOf minus :: n) address)
    (h : (assemble c (line m gap f (s.name ++ signOf minus :: n)) address number).outcome
      = .ok (e, pending)) :
    pending = [] ∧ e.mode = f.mode true
      ∧ (SoleName c.symbols s m gap f [] address →
        ∃ alone, (assemble c (line m gap f s.name) address number).outcome = .ok (alone, [])
          ∧ alone.mode = e.mode)
      ∧ ∃ l, Literal.read n = .ok l
        ∧ e.operand = operandOf e.mode (summed minus s.address l.value % 65536) := by
  have hbranchText : Mnemonic.isBranchText m.name = false := by
    rw [Opcode.isBranchText_name, hbranch]
  have htext := text_of_not_branch hbranchText (beforeCore gap f) s.address address s.name
  obtain ⟨b, l, hb, hl, he, hpending⟩ := exists_of_assemble_sole_sum hg hn hsole htext h
  rw [ofLine_folded hg hbranchText] at he
  obtain ⟨opcode, hop, rfl⟩ := Outcome.map_eq_ok_iff.mp he
  have hmode : f.mode (takesWord m.name (beforeCore gap f)) = f.mode true := by
    have hwide := mode_or (f := f) hg hbranchText true
    rwa [Bool.or_true, eq_comm] at hwide
  refine ⟨hpending, hmode, fun halone => ?_, l, hl, (operandOf_emod _ _).symm⟩
  refine ⟨instruction m gap f opcode s.address, ?_, rfl⟩
  have hfits : ∃ b₀, (bufferFor c (line m gap f s.name) number).splice (corePosition gap f)
      s.name.length (literal (takesWord m.name (beforeCore gap f)) s.address) = .ok b₀ :=
    ⟨_, splice_line_of_splice_line_append rfl hb rfl rfl⟩
  obtain ⟨b₀, hb₀⟩ := hfits
  rw [assemble_sole_line hg halone, htext]
  simp only [Except.bind, hb₀, ofLine_of_encode hg hop]
  rfl

/-- Two labels, one of them at the start of a page. -/
def paged : SymbolTable :=
  ⟨"<input>", [⟨"table".toList, .label, 0x1200, 1, none⟩, ⟨"loop".toList, .label, 0xC000, 2, none⟩]⟩

/-- A difference that borrows from the high byte of the address. -/
theorem symbol_sum_exact_borrow :
    (assemble ⟨paged, 80, false, "<input>"⟩ "sta table-$01,x".toList 0xC000 3).outcome
      = .ok (⟨"sta".toList, .absoluteX, 0x9D, [0xFF, 0x11]⟩, [])
    ∧ [0xFF, 0x11] = operandOf .absoluteX ((0x1200 - 1) % 65536) := by
  have hgap : IsGap [' '] := ⟨by decide, by decide⟩
  have hn : IsLiteral "$01".toList := .hexadecimal ⟨by decide, by decide⟩
  have hnodup : paged.NamesNodup := by
    unfold SymbolTable.NamesNodup
    decide
  have hplain : ∀ u ∈ paged.symbols, IsPlainName u.name := by
    intro u hu
    rcases List.mem_cons.mp hu with rfl | hu
    · exact ⟨by decide, by decide⟩
    · rw [List.mem_singleton.mp hu]
      exact ⟨by decide, by decide⟩
  have hsole : SoleName paged ⟨"table".toList, .label, 0x1200, 1, none⟩ .sta [' '] .plainX
      (signOf true :: "$01".toList) 0xC000 :=
    .of_isPlainName hgap (isAddend_of_isLiteral hn true) hnodup hplain List.mem_cons_self
  obtain ⟨-, -, -, l, hl, hoperand⟩ := @symbol_sum_exact ⟨paged, 80, false, "<input>"⟩
    ⟨"table".toList, .label, 0x1200, 1, none⟩ .sta [' '] .plainX 0xC000 "$01".toList true 3
    ⟨"sta".toList, .absoluteX, 0x9D, [0xFF, 0x11]⟩ [] hgap rfl hn hsole rfl
  have hvalue : (⟨1, false⟩ : Literal) = l := Except.ok.inj hl
  rw [← hvalue] at hoperand
  exact ⟨rfl, hoperand⟩

end Sole

/-- A symbol that is spelt like the literal of a name captures the literal, and the sum is
formed with its address. -/
theorem symbol_sum_captured :
    ∃ (c : Context) (s : Symbol) (e : Encoded), s ∈ c.symbols.symbols ∧ IsPlainName s.name
      ∧ Names.Absent (c.symbols.symbols.erase s) (line .lda [' '] .plain (s.name ++ "+1".toList))
      ∧ (assemble c (line .lda [' '] .plain (s.name ++ "+1".toList)) 0 1).outcome = .ok (e, [])
      ∧ e.operand ≠ operandOf e.mode ((s.address + 1) % 65536) := by
  refine ⟨⟨⟨"<input>", [⟨"vector".toList, .label, 0x1234, 0, none⟩,
      ⟨"$1234".toList, .label, 0x5678, 0, none⟩]⟩, 80, false, "<input>"⟩,
    ⟨"vector".toList, .label, 0x1234, 0, none⟩,
    ⟨"lda".toList, .absolute, 0xAD, [0x79, 0x56]⟩, List.mem_cons_self, ?_, ?_, rfl, ?_⟩
  · exact ⟨by decide, by decide⟩
  · unfold Names.Absent
    decide
  · decide

end Statement

end Cross6502
