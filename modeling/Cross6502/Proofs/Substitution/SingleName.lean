import Cross6502.Assembly.Statement
import Cross6502.Proofs.Substitution.Token
import Cross6502.Proofs.Text.Digits

/-!
# Lines that hold one name

An instruction line in one of the operand forms holds at most one name.  Here is
what the four steps of assembling do to such a line.

Whatever stands in for the name, an address, a displacement or the zero that waits
for the linker, it is a hexadecimal literal of two or of four places, and the
mnemonic together with the character in front of the name decides which of the two.
So the line keeps its length when a zero is put in place of an address, and it gets
the same mode (`Replacement.literal`, `ofLine_literal`).

Substitution by a table replaces the name exactly once.  The symbols that are tried
before it do not stand in the line as it was written, those tried after it do not
stand in the line that holds the literal, and behind the literal nothing stands
(`resolve_line`).  The second half is no formality: a table may hold a name that
looks like a literal, and such a name is found in the line only once the literal has
been put there.
-/

namespace Cross6502

/-! ## The literals -/

namespace Replacement

/-- A place that takes both bytes of an address. -/
def takesWord (mnemonic : Text) (before : Option Char) : Bool :=
  !(Mnemonic.isBranchText mnemonic || isZeroPage mnemonic before)

/-- A number as a literal of four places, or of two. -/
def literal (word : Bool) (n : Int) : Text := if word then wordText n else byteText n

/-- What of a number fits into a literal. -/
def kept (word : Bool) (n : Int) : Nat := (n % (if word then 65536 else 256)).toNat

/-- The number of digits in a literal. -/
def places (word : Bool) : Nat := if word then 4 else 2

theorem kept_lt (word : Bool) (n : Int) : kept word n < 16 ^ places word := by
  cases word <;> simp only [kept, places, if_true, if_false, Bool.false_eq_true] <;> omega

theorem literal_eq (word : Bool) (n : Int) :
    literal word n = '$' :: Text.lowerHex (places word) (kept word n : Int) := by
  have hword : ((n % 65536).toNat : Int) = n % 65536 := by omega
  have hbyte : ((n % 256).toNat : Int) = n % 256 := by omega
  cases word
  · simp only [literal, byteText, kept, places, Bool.false_eq_true, if_false, hbyte]
  · simp only [literal, wordText, kept, places, if_true, hword]

theorem isHexRun_lowerHex (word : Bool) (n : Int) :
    OperandForm.IsHexRun (Text.lowerHex (places word) (kept word n : Int)) := by
  refine ⟨?_, fun c hc => Text.isLowerHexDigit_of_mem_lowerHex hc⟩
  intro h
  have hlen := Text.length_lowerHex (by cases word <;> decide) (kept_lt word n)
  rw [h] at hlen
  cases word <;> exact absurd hlen (by decide)

theorem length_literal (word : Bool) (n : Int) : (literal word n).length = places word + 1 := by
  rw [literal_eq, List.length_cons,
    Text.length_lowerHex (by cases word <;> decide) (kept_lt word n)]

theorem placeholder_eq (mnemonic : Text) (before : Option Char) :
    placeholder mnemonic before = literal (takesWord mnemonic before) 0 := by
  rw [placeholder, takesWord]
  cases Mnemonic.isBranchText mnemonic || isZeroPage mnemonic before <;> rfl

theorem text_of_not_branch {mnemonic : Text} (h : Mnemonic.isBranchText mnemonic = false)
    (before : Option Char) (value address : Int) (name : Text) :
    text mnemonic before value address name
      = .ok (literal (takesWord mnemonic before) value) := by
  rw [text, takesWord, h]
  cases isZeroPage mnemonic before <;> rfl

theorem text_of_branch {mnemonic : Text} (h : Mnemonic.isBranchText mnemonic = true)
    (before : Option Char) (value address : Int) (name : Text) :
    text mnemonic before value address name
      = if reaches (displacement value address) then
          .ok (literal (takesWord mnemonic before) (displacement value address))
        else .error (Failure.ofCause (.branchRange name (displacement value address))).worded := by
  rw [text, takesWord, h]
  rfl

/-- Whatever a name is replaced by is a literal of the width that its place takes. -/
theorem exists_literal_of_text {mnemonic : Text} {before : Option Char} {value address : Int}
    {name t : Text} (h : text mnemonic before value address name = .ok t) :
    ∃ n, t = literal (takesWord mnemonic before) n := by
  cases hb : Mnemonic.isBranchText mnemonic with
  | false =>
    rw [text_of_not_branch hb] at h
    exact ⟨value, (Except.ok.inj h).symm⟩
  | true =>
    rw [text_of_branch hb] at h
    split at h
    · exact ⟨displacement value address, (Except.ok.inj h).symm⟩
    · cases h

end Replacement

namespace OperandForm

open Replacement

/-- An operand that holds a literal is read as the number, and its width is that of
the literal. -/
theorem read_operand_literal (f : OperandForm) (word : Bool) (n : Int) :
    Literal.read (f.operand (literal word n)) = .ok ⟨kept word n, word⟩ := by
  have hlt := kept_lt word n
  rw [literal_eq, read_operand f (isHexRun_lowerHex word n), Text.digitsValue_lowerHex,
    Text.length_lowerHex (by cases word <;> decide) hlt]
  cases word
  · have hbyte : kept false n < 256 := hlt
    have h : ¬ (255 < kept false n) := by omega
    rw [Nat.mod_eq_of_lt (by omega)]
    simp [places, h]
  · have hword : kept true n < 65536 := hlt
    rw [Nat.mod_eq_of_lt hword]
    simp [places]

/-- Encoding a line that holds a literal. -/
theorem ofLine_literal {gap : Text} (hg : IsGap gap) (m : Mnemonic) (f : OperandForm)
    (word : Bool) (n : Int) :
    Encoded.ofLine (line m gap f (literal word n)) =
      (Opcode.encode m.name (f.mode word)).map fun opcode =>
        ⟨m.name, f.mode word, opcode,
          Encoded.operandBytes (f.mode word).length ⟨kept word n, word⟩⟩ := by
  have hread := read_operand_literal f word n
  rw [literal_eq] at hread ⊢
  exact ofLine_line hg (isHexRun_lowerHex word n) hread

end OperandForm

/-! ## Editing the line -/

theorem cutPoint_of_le {length n : Nat} (h : n ≤ length) : cutPoint length (n : Int) = n := by
  rw [cutPoint, if_pos (by omega)]
  omega

/-- Replacing the middle of a text.  Whether there is room for the result depends on
the replacement only through its length. -/
theorem LineBuffer.splice_middle {b : LineBuffer} {s x t : Text} (hb : b.text = s ++ x ++ t)
    (replacement : Text) :
    b.splice s.length x.length replacement =
      if x.length < replacement.length
          ∧ b.limit < (s.length + replacement.length + t.length : Int) then
        .error (b.overflow (s.length + replacement.length + t.length))
      else .ok { b with text := s ++ replacement ++ t } := by
  have hlen : b.text.length = s.length + x.length + t.length := by
    rw [hb, List.length_append, List.length_append]
  have hneeded : (b.text.length : Int) - x.length + replacement.length
      = s.length + replacement.length + t.length := by
    omega
  have hto : sliceTo b.text s.length = s := by
    rw [sliceTo, cutPoint_of_le (by omega), hb, List.append_assoc, List.take_left]
  have hfrom : sliceFrom b.text ((s.length : Int) + x.length) = t := by
    rw [sliceFrom, ← Int.natCast_add, cutPoint_of_le (by omega), hb, ← List.length_append,
      List.drop_left]
  rw [splice]
  simp only [hneeded, hto, hfrom, Bool.and_eq_true, decide_eq_true_eq, Int.ofNat_lt]

open OperandForm Token Replacement

section Edit

variable {m : Mnemonic} {gap : Text} {f : OperandForm} {x tail : Text} {b : LineBuffer}

theorem splice_line_append (hb : b.text = line m gap f (x ++ tail)) (t : Text) :
    b.splice (corePosition gap f) x.length t =
      if x.length < t.length
          ∧ b.limit < (corePosition gap f + t.length + (tail ++ f.closing).length : Int)
      then .error (b.overflow (corePosition gap f + t.length + (tail ++ f.closing).length))
      else .ok { b with text := line m gap f (t ++ tail) } := by
  have hparts : ∀ u : Text, line m gap f (u ++ tail)
      = (m.name ++ (gap ++ f.opening)) ++ u ++ (tail ++ f.closing) := by
    intro u
    rw [line_eq_append]
    simp only [List.append_assoc]
  rw [hparts] at hb
  rw [← length_lead m, LineBuffer.splice_middle hb, hparts]

theorem splice_line (hb : b.text = line m gap f x) (t : Text) :
    b.splice (corePosition gap f) x.length t =
      if x.length < t.length ∧ b.limit < (corePosition gap f + t.length + f.closing.length : Int)
      then .error (b.overflow (corePosition gap f + t.length + f.closing.length))
      else .ok { b with text := line m gap f t } := by
  have h := splice_line_append (m := m) (f := f) (x := x) (by rwa [List.append_nil]) t
  rwa [List.append_nil, List.nil_append] at h

/-- A line is edited without complaint or not at all. -/
theorem text_of_splice_line_append (hb : b.text = line m gap f (x ++ tail)) {t : Text}
    {b' : LineBuffer} (h : b.splice (corePosition gap f) x.length t = .ok b') :
    b'.text = line m gap f (t ++ tail) := by
  rw [splice_line_append hb] at h
  split at h
  · cases h
  · cases h
    rfl

theorem text_of_splice_line (hb : b.text = line m gap f x) {t : Text} {b' : LineBuffer}
    (h : b.splice (corePosition gap f) x.length t = .ok b') : b'.text = line m gap f t := by
  have htext := text_of_splice_line_append (m := m) (f := f) (x := x) (by rwa [List.append_nil]) h
  rwa [List.append_nil] at htext

/-- Two replacements of one length both fit, or neither does. -/
theorem splice_line_append_of_length_eq (hb : b.text = line m gap f (x ++ tail)) {t u : Text}
    (hlen : t.length = u.length) {b' : LineBuffer}
    (h : b.splice (corePosition gap f) x.length t = .ok b') :
    b.splice (corePosition gap f) x.length u = .ok { b with text := line m gap f (u ++ tail) } := by
  rw [splice_line_append hb, hlen] at h
  rw [splice_line_append hb]
  split at h
  · cases h
  · rename_i hfits
    rw [if_neg hfits]

theorem splice_line_of_length_eq (hb : b.text = line m gap f x) {t u : Text}
    (hlen : t.length = u.length) {b' : LineBuffer}
    (h : b.splice (corePosition gap f) x.length t = .ok b') :
    b.splice (corePosition gap f) x.length u = .ok { b with text := line m gap f u } := by
  have hfits := splice_line_append_of_length_eq (m := m) (f := f) (x := x)
    (by rwa [List.append_nil]) hlen h
  rwa [List.append_nil] at hfits

/-- What fits in front of an addend fits without it. -/
theorem splice_line_of_splice_line_append (hb : b.text = line m gap f (x ++ tail)) {t : Text}
    {b' : LineBuffer} (h : b.splice (corePosition gap f) x.length t = .ok b') {b₀ : LineBuffer}
    (hb₀ : b₀.text = line m gap f x) (hlimit : b₀.limit = b.limit) :
    b₀.splice (corePosition gap f) x.length t = .ok { b₀ with text := line m gap f t } := by
  rw [splice_line_append hb] at h
  rw [splice_line hb₀, hlimit]
  split at h
  · cases h
  · rename_i hfits
    refine if_neg fun hlong => hfits ⟨hlong.1, ?_⟩
    rw [List.length_append]
    omega

end Edit

/-! ## Substitution by a table -/

namespace Names

/-- None of the symbols stands in the operand of a line. -/
def Absent (symbols : List Symbol) (text : Text) : Prop :=
  ∀ s ∈ symbols, Token.find? text s.name Token.operandStart = none

theorem replaceSymbol_of_absent {s : Symbol} {b : LineBuffer} {position : Nat}
    (h : Token.find? b.text s.name position = none) (mnemonic : Text) (address : Int)
    (fuel : Nat) : replaceSymbol mnemonic address s fuel position b = ⟨b, [], none⟩ := by
  cases fuel with
  | zero => rfl
  | succ fuel => rw [replaceSymbol, h]

/-- Symbols that do not stand in the line are passed over. -/
theorem replaceSymbols_append {symbols : List Symbol} {b : LineBuffer}
    (h : Absent symbols b.text) (mnemonic : Text) (address : Int) (rest : List Symbol) :
    replaceSymbols mnemonic address (symbols ++ rest) b
      = replaceSymbols mnemonic address rest b := by
  induction symbols with
  | nil => rfl
  | cons s symbols ih =>
    rw [List.cons_append, replaceSymbols,
      replaceSymbol_of_absent (h s List.mem_cons_self)]
    simp only [ih fun u hu => h u (List.mem_cons_of_mem s hu), List.nil_append]

theorem replaceSymbols_of_absent {symbols : List Symbol} {b : LineBuffer}
    (h : Absent symbols b.text) (mnemonic : Text) (address : Int) :
    replaceSymbols mnemonic address symbols b = ⟨b, [], none⟩ := by
  rw [← List.append_nil symbols, replaceSymbols_append h]
  rfl

section Found

variable {mnemonic : Text} {address : Int} {s : Symbol} {b : LineBuffer} {i : Nat}

theorem replaceSymbols_cons_of_error {e : Failure}
    (hfind : Token.find? b.text s.name Token.operandStart = some i)
    (hat : replaceAt mnemonic address s i b = .error e) (rest : List Symbol) :
    replaceSymbols mnemonic address (s :: rest) b = ⟨b, [], some e⟩ := by
  rw [replaceSymbols, replaceSymbol, hfind]
  simp only [hat]

/-- A symbol that stands in the line once is replaced once. -/
theorem replaceSymbols_cons_of_ok {b' : LineBuffer} {next : Nat}
    (hfind : Token.find? b.text s.name Token.operandStart = some i)
    (hat : replaceAt mnemonic address s i b = .ok (b', next))
    (hagain : Token.find? b'.text s.name next = none) (rest : List Symbol) :
    replaceSymbols mnemonic address (s :: rest) b =
      { replaceSymbols mnemonic address rest b' with
        replaced := s.name :: (replaceSymbols mnemonic address rest b').replaced } := by
  rw [replaceSymbols, replaceSymbol, hfind]
  simp only [hat, replaceSymbol_of_absent hagain, List.singleton_append]

end Found

end Names

namespace Statement

theorem resolve_of_absent {c : Context} {b : LineBuffer}
    (h : Names.Absent c.symbols.symbols b.text) (address : Int) :
    resolve c b address = .ok b := by
  rw [resolve, Names.resolve, Names.replaceSymbols_of_absent h]

/-- The one name of a line is replaced by the literal of its symbol, and what follows the
name is left alone. -/
theorem resolve_line_append {m : Mnemonic} {gap : Text} {f : OperandForm} {x tail : Text}
    {b : LineBuffer} (hg : IsGap gap) (hx : BeginsOutside x (gap ++ f.opening))
    (htail : IsAddend tail) (hb : b.text = line m gap f (x ++ tail)) {c : Context} {s : Symbol}
    {above below : List Symbol} (hsymbols : c.symbols.symbols = above ++ s :: below)
    (hs : s.name = x) {address : Int} (habove : Names.Absent above (line m gap f (x ++ tail)))
    (hbelow : ∀ t, text m.name (beforeCore gap f) s.address address x = .ok t →
      Names.Absent below (line m gap f (t ++ tail))) :
    resolve c b address =
      (text m.name (beforeCore gap f) s.address address x).bind fun t =>
        b.splice (corePosition gap f) x.length t := by
  have hfind : Token.find? b.text s.name operandStart = some (corePosition gap f) := by
    rw [hb, hs, find?_line_append hg hx htail]
  have hbefore : before? b.text (corePosition gap f) = beforeCore gap f := by
    rw [hb, before?_line hg]
  have htake : b.text.take 3 = m.name := by
    rw [hb, take_three_line]
  have hat : Names.replaceAt m.name address s (corePosition gap f) b =
      (text m.name (beforeCore gap f) s.address address x).bind fun t =>
        (b.splice (corePosition gap f) x.length t).bind fun b' =>
          .ok (b', corePosition gap f + t.length) := by
    rw [Names.replaceAt, hbefore, hs]
    rfl
  rw [resolve, Names.resolve, hsymbols, htake, Names.replaceSymbols_append (hb ▸ habove)]
  cases ht : text m.name (beforeCore gap f) s.address address x with
  | error e =>
    rw [ht] at hat
    rw [Names.replaceSymbols_cons_of_error hfind hat]
    rfl
  | ok t =>
    rw [ht] at hat
    change _ = b.splice (corePosition gap f) x.length t
    cases hsplice : b.splice (corePosition gap f) x.length t with
    | error e =>
      rw [Except.bind, hsplice] at hat
      rw [Names.replaceSymbols_cons_of_error hfind hat]
    | ok b' =>
      rw [Except.bind, hsplice] at hat
      have hb' := text_of_splice_line_append hb hsplice
      -- behind the literal the name is not found again, and the rest of the table
      -- does not stand in the line that holds it
      have hagain : Token.find? b'.text s.name (corePosition gap f + t.length) = none := by
        obtain ⟨n, rfl⟩ := exists_literal_of_text ht
        rw [hb', literal_eq]
        exact find?_behind_literal (isHexRun_lowerHex _ n) htail
      rw [Names.replaceSymbols_cons_of_ok hfind hat hagain,
        Names.replaceSymbols_of_absent (hb' ▸ hbelow _ ht)]

theorem resolve_line {m : Mnemonic} {gap : Text} {f : OperandForm} {x : Text} {b : LineBuffer}
    (hg : IsGap gap) (hx : BeginsOutside x (gap ++ f.opening)) (hb : b.text = line m gap f x)
    {c : Context} {s : Symbol}
    {above below : List Symbol} (hsymbols : c.symbols.symbols = above ++ s :: below)
    (hs : s.name = x) {address : Int} (habove : Names.Absent above (line m gap f x))
    (hbelow : ∀ t, text m.name (beforeCore gap f) s.address address x = .ok t →
      Names.Absent below (line m gap f t)) :
    resolve c b address =
      (text m.name (beforeCore gap f) s.address address x).bind fun t =>
        b.splice (corePosition gap f) x.length t := by
  refine resolve_line_append (x := x) hg hx isAddend_nil ?_ hsymbols hs ?_ fun t ht => ?_
  · rwa [List.append_nil]
  · rwa [List.append_nil]
  · rw [List.append_nil]
    exact hbelow t ht

end Statement

/-! ## No sums -/

namespace Arithmetic

/-- A text without a sign. -/
def Unsigned (t : Text) : Prop := ∀ c ∈ t, c ≠ '+' ∧ c ≠ '-'

theorem mem_of_splitRun {p : Char → Bool} {t run rest : Text}
    (h : splitRun p t = some (run, rest)) : ∀ c ∈ rest, c ∈ t := by
  rw [splitRun] at h
  split at h
  · cases h
  · cases h
    exact fun c hc => (List.dropWhile_sublist p).subset hc

theorem mem_of_splitLiteral {t run rest : Text} (h : splitLiteral t = some (run, rest)) :
    ∀ c ∈ rest, c ∈ t := by
  rw [splitLiteral.eq_def] at h
  split at h
  · obtain ⟨⟨run', rest'⟩, hrun, heq⟩ := Option.map_eq_some_iff.mp h
    cases heq
    exact fun c hc => List.mem_cons_of_mem _ (mem_of_splitRun hrun c hc)
  · obtain ⟨⟨run', rest'⟩, hrun, heq⟩ := Option.map_eq_some_iff.mp h
    cases heq
    exact fun c hc => List.mem_cons_of_mem _ (mem_of_splitRun hrun c hc)
  · exact mem_of_splitRun h

theorem splitOperator_of_unsigned {t : Text} (ht : Unsigned t) : splitOperator t = none := by
  have hmem : ∀ c ∈ Text.trimLeft t, c ∈ t := fun c hc =>
    (List.dropWhile_sublist Text.isBlank).subset hc
  rw [splitOperator]
  split
  · rename_i h
    exact absurd rfl (ht '+' (hmem '+' (by rw [h]; exact List.mem_cons_self))).1
  · rename_i h
    exact absurd rfl (ht '-' (hmem '-' (by rw [h]; exact List.mem_cons_self))).2
  · rfl

theorem sumAt?_of_unsigned {t : Text} (ht : Unsigned t) : sumAt? t = none := by
  rw [sumAt?]
  cases h : splitLiteral t with
  | none => rfl
  | some p =>
    have hrest : Unsigned p.2 := fun c hc => ht c (mem_of_splitLiteral h c hc)
    simp [splitOperator_of_unsigned hrest]

theorem findFrom?_of_unsigned {t : Text} (ht : Unsigned t) (i : Nat) : findFrom? i t = none := by
  induction t generalizing i with
  | nil => rfl
  | cons c t ih =>
    rw [findFrom?, sumAt?_of_unsigned ht]
    exact ih (fun d hd => ht d (List.mem_cons_of_mem c hd)) (i + 1)

theorem fold_of_unsigned {b : LineBuffer} (hb : Unsigned (b.text.drop Token.operandStart)) :
    fold b = .ok (b, false) := by
  rw [fold, find?, findFrom?_of_unsigned hb]

theorem unsigned_of_isWord {t : Text} (ht : IsWord t) : Unsigned t := fun c hc =>
  ⟨ne_of_isFurther (ht.2 c hc) (by decide), ne_of_isFurther (ht.2 c hc) (by decide)⟩

theorem unsigned_literal (word : Bool) (n : Int) : Unsigned (literal word n) := by
  rw [literal_eq]
  intro c hc
  rcases List.mem_cons.mp hc with rfl | hc
  · decide
  · have hc := isFurther_of_isLowerHexDigit ((isHexRun_lowerHex word n).2 c hc)
    exact ⟨ne_of_isFurther hc (by decide), ne_of_isFurther hc (by decide)⟩

theorem unsigned_line {gap core : Text} (hg : IsGap gap) (hcore : Unsigned core) (m : Mnemonic)
    (f : OperandForm) : Unsigned ((line m gap f core).drop Token.operandStart) := by
  have hopening : Unsigned f.opening := by
    unfold Unsigned
    cases f <;> decide
  have hclosing : Unsigned f.closing := by
    unfold Unsigned
    cases f <;> decide
  rw [Token.operandStart, drop_three_line, operand]
  intro c hc
  simp only [List.mem_append] at hc
  rcases hc with hc | (hc | hc) | hc
  · rcases hg.2 c hc with rfl | rfl <;> decide
  · exact hopening c hc
  · exact hcore c hc
  · exact hclosing c hc

end Arithmetic

end Cross6502
