import Cross6502.Object.Directive
import Cross6502.Proofs.Assembly.Steps

/-!
# Without line numbers

Symbols and references remember the line they come from, and a line buffer the place of its
line, for reports.  Nothing else depends on these numbers: a table takes the same symbols
and a line is assembled to the same instruction whatever they are
(`SymbolTable.exists_of_insert`, `Statement.outcome_assemble`).

So an object is compared with another after the numbers were taken out of both
(`Object.unplaced`).
-/

namespace Cross6502

/-! ## Tables and objects -/

/-- A symbol without its line. -/
def Symbol.unplaced (s : Symbol) : Symbol := { s with line := 0 }

/-- A table without lines. -/
def SymbolTable.unplaced (t : SymbolTable) : SymbolTable :=
  { t with symbols := t.symbols.map Symbol.unplaced }

/-- A reference without its line. -/
def Reference.unplaced (r : Reference) : Reference := { r with line := 0 }

/-- An object without lines. -/
def Object.unplaced (o : Object) : Object :=
  { o with
    symbols := o.symbols.map SymbolTable.unplaced
    references := o.references.map Reference.unplaced }

namespace SymbolTable

theorem find?_unplaced (t : SymbolTable) (name : Text) :
    t.unplaced.find? name = (t.find? name).map Symbol.unplaced := by
  rw [find?, find?, unplaced, List.find?_map]
  rfl

theorem contains_unplaced (t : SymbolTable) (name : Text) :
    t.unplaced.contains name = t.contains name := by
  rw [contains, contains, find?_unplaced, Option.isSome_map]

theorem contains_of_unplaced {t u : SymbolTable} (h : u.unplaced = t.unplaced) (name : Text) :
    u.contains name = t.contains name := by
  rw [← contains_unplaced, h, contains_unplaced]

theorem map_insertByLength (s : Symbol) (us : List Symbol) :
    (insertByLength s us).map Symbol.unplaced
      = insertByLength s.unplaced (us.map Symbol.unplaced) := by
  induction us with
  | nil => rfl
  | cons u us ih =>
    rw [List.map_cons, insertByLength, insertByLength]
    change _ = if u.name.length < s.name.length then _ else _
    split
    · rfl
    · rw [List.map_cons, ih]

/-- A table takes a symbol whatever the lines of the definitions are. -/
theorem exists_of_insert {t t' u : SymbolTable} {s w : Symbol} (htable : u.unplaced = t.unplaced)
    (hsymbol : w.unplaced = s.unplaced) (h : t.insert s = .ok t') :
    ∃ u', u.insert w = .ok u' ∧ u'.unplaced = t'.unplaced := by
  have hname := congrArg Symbol.name hsymbol
  have hfile := congrArg SymbolTable.file htable
  have hsymbols := congrArg SymbolTable.symbols htable
  change w.name = s.name at hname
  change u.file = t.file at hfile
  change u.symbols.map Symbol.unplaced = t.symbols.map Symbol.unplaced at hsymbols
  rw [insert] at h
  split at h
  · cases h
  · rename_i hfind
    cases h
    have hnone : u.find? w.name = none := by
      have hunplaced := find?_unplaced u w.name
      rw [htable, find?_unplaced, hname, hfind] at hunplaced
      rw [hname]
      exact Option.map_eq_none_iff.mp hunplaced.symm
    refine ⟨{ u with symbols := insertByLength w u.symbols }, by rw [insert, hnone], ?_⟩
    rw [unplaced, unplaced, map_insertByLength, map_insertByLength, hsymbol, hsymbols, hfile]

end SymbolTable

namespace Object

theorem segments_unplaced (o : Object) : o.unplaced.segments = o.segments := rfl

theorem segments_of_unplaced {o p : Object} (h : p.unplaced = o.unplaced) :
    p.segments = o.segments := by
  rw [← segments_unplaced p, h, segments_unplaced]

theorem unplaced_with_symbols (o : Object) (t : SymbolTable) :
    Object.unplaced { o with symbols := some t }
      = { o.unplaced with symbols := some t.unplaced } := rfl

theorem unplaced_append_references (o : Object) (references : List Reference) :
    Object.unplaced { o with references := o.references ++ references }
      = { o.unplaced with
          references := o.unplaced.references ++ references.map Reference.unplaced } := by
  rw [unplaced, unplaced, List.map_append]

theorem unplaced_modifySegment (o : Object) (n : Nat) (f : Segment → Segment) :
    (o.modifySegment n f).unplaced = o.unplaced.modifySegment n f := by
  cases n <;> rfl

theorem extend_unplaced (o : Object) (i : Int) (bytes : List UInt8) :
    o.unplaced.extend i bytes = (o.extend i bytes).map unplaced := by
  rw [extend, extend, segments_unplaced]
  cases position? o.segments.length i with
  | none => rfl
  | some n => exact congrArg Except.ok (unplaced_modifySegment o n _).symm

end Object

/-- A directive does not look at lines. -/
theorem Directive.apply_unplaced (directive : Directive) (o : Object) (current : Int) :
    directive.apply o.unplaced current
      = (directive.apply o current).map fun r => (r.1.unplaced, r.2) := by
  cases directive with
  | org argument =>
    rw [apply, apply]
    cases Literal.read argument <;> rfl
  | finish => rfl
  | byte argument =>
    rw [apply, apply]
    cases Literal.read argument with
    | error e => rfl
    | ok literal =>
      change (o.unplaced.extend current [literal.low]).bind _
        = ((o.extend current [literal.low]).bind _).map _
      rw [Object.extend_unplaced]
      cases o.extend current [literal.low] <;> rfl

/-! ## Line buffers -/

/-- A buffer for a line elsewhere. -/
def LineBuffer.moved (l : Option Location) (b : LineBuffer) : LineBuffer := { b with location := l }

theorem LineBuffer.text_moved (l : Option Location) (b : LineBuffer) :
    (b.moved l).text = b.text := rfl

theorem LineBuffer.splice_moved {b b' : LineBuffer} {start length : Int} {replacement : Text}
    (h : b.splice start length replacement = .ok b') (l : Option Location) :
    (b.moved l).splice start length replacement = .ok (b'.moved l) := by
  rw [splice] at h ⊢
  split at h
  · cases h
  · rename_i hfits
    cases h
    exact if_neg hfits

namespace Names

variable {mnemonic : Text} {address : Int} {b b' : LineBuffer}

theorem replaceSymbol_unplaced (s : Symbol) (fuel position : Nat) (b : LineBuffer) :
    replaceSymbol mnemonic address s.unplaced fuel position b
      = replaceSymbol mnemonic address s fuel position b := by
  induction fuel generalizing position b with
  | zero => rfl
  | succ fuel ih =>
    simp only [replaceSymbol, ih]
    rfl

theorem replaceSymbols_unplaced (symbols : List Symbol) (b : LineBuffer) :
    replaceSymbols mnemonic address (symbols.map Symbol.unplaced) b
      = replaceSymbols mnemonic address symbols b := by
  induction symbols generalizing b with
  | nil => rfl
  | cons s symbols ih =>
    rw [List.map_cons, replaceSymbols, replaceSymbols, replaceSymbol_unplaced]
    simp only [ih]

theorem replaceAt_moved {s : Symbol} {i next : Nat}
    (h : replaceAt mnemonic address s i b = .ok (b', next)) (l : Option Location) :
    replaceAt mnemonic address s i (b.moved l) = .ok (b'.moved l, next) := by
  obtain ⟨literal, hliteral, h⟩ := Outcome.bind_eq_ok_iff.mp h
  obtain ⟨b₁, hsplice, h⟩ := Outcome.bind_eq_ok_iff.mp h
  cases h
  exact Outcome.bind_eq_ok_iff.mpr ⟨literal, hliteral,
    Outcome.bind_eq_ok_iff.mpr ⟨_, LineBuffer.splice_moved hsplice l, rfl⟩⟩

/-- Progress in a buffer elsewhere. -/
def Progress.moved (l : Option Location) (p : Progress) : Progress :=
  { p with buffer := p.buffer.moved l }

theorem replaceSymbol_moved {s : Symbol} {fuel position : Nat}
    (h : (replaceSymbol mnemonic address s fuel position b).failure = none)
    (l : Option Location) :
    replaceSymbol mnemonic address s fuel position (b.moved l)
      = (replaceSymbol mnemonic address s fuel position b).moved l := by
  induction fuel generalizing position b with
  | zero => rfl
  | succ fuel ih =>
    rw [replaceSymbol] at h ⊢
    rw [replaceSymbol, LineBuffer.text_moved]
    cases hfind : Token.find? b.text s.name position with
    | none => rfl
    | some i =>
      simp only [hfind] at h ⊢
      cases hat : replaceAt mnemonic address s i b with
      | error e =>
        rw [hat] at h
        cases h
      | ok r =>
        obtain ⟨b₁, next⟩ := r
        rw [hat] at h
        rw [replaceAt_moved hat l]
        simp only [ih h]
        rfl

theorem replaceSymbols_moved {symbols : List Symbol}
    (h : (replaceSymbols mnemonic address symbols b).failure = none) (l : Option Location) :
    replaceSymbols mnemonic address symbols (b.moved l)
      = (replaceSymbols mnemonic address symbols b).moved l := by
  induction symbols generalizing b with
  | nil => rfl
  | cons s symbols ih =>
    rw [replaceSymbols] at h ⊢
    rw [replaceSymbols]
    cases hfirst : (replaceSymbol mnemonic address s (b.text.length + 1) Token.operandStart
        b).failure with
    | some e =>
      simp only [hfirst] at h
      cases h
    | none =>
      simp only [hfirst] at h
      rw [LineBuffer.text_moved, replaceSymbol_moved hfirst l]
      simp only [Progress.moved, hfirst, ih h]

theorem holdPlace_moved {name : Text} {position : Option Nat}
    (h : holdPlace b name = .ok (b', position)) (l : Option Location) :
    holdPlace (b.moved l) name = .ok (b'.moved l, position) := by
  rw [holdPlace] at h ⊢
  rw [LineBuffer.text_moved]
  cases hfind : Token.find? b.text name Token.operandStart with
  | none =>
    rw [hfind] at h
    cases h
    rfl
  | some i =>
    rw [hfind] at h
    obtain ⟨b₁, hsplice, h⟩ := Outcome.bind_eq_ok_iff.mp h
    cases h
    exact Outcome.bind_eq_ok_iff.mpr ⟨_, LineBuffer.splice_moved hsplice l, rfl⟩

end Names

theorem Arithmetic.fold_moved {b b' : LineBuffer} {folded : Bool}
    (h : fold b = .ok (b', folded)) (l : Option Location) :
    fold (b.moved l) = .ok (b'.moved l, folded) := by
  rw [fold] at h ⊢
  rw [LineBuffer.text_moved]
  cases hfind : find? b.text with
  | none =>
    rw [hfind] at h
    cases h
    rfl
  | some r =>
    obtain ⟨i, s⟩ := r
    rw [hfind] at h
    obtain ⟨t, ht, h⟩ := Outcome.bind_eq_ok_iff.mp h
    obtain ⟨b₁, hsplice, h⟩ := Outcome.bind_eq_ok_iff.mp h
    cases h
    exact Outcome.bind_eq_ok_iff.mpr ⟨t, ht,
      Outcome.bind_eq_ok_iff.mpr ⟨_, LineBuffer.splice_moved hsplice l, rfl⟩⟩

/-! ## Statements -/

namespace Statement

variable {c c' : Context} {b b' : LineBuffer} {address : Int} {number number' : Nat}

theorem holdPlaces_moved {names pending : List Text}
    (h : (holdPlaces number names b).outcome = .ok (b', pending)) (l : Option Location) :
    (holdPlaces number' names (b.moved l)).outcome = .ok (b'.moved l, pending) := by
  induction names generalizing b pending with
  | nil =>
    cases h
    rfl
  | cons name rest ih =>
    rw [outcome_holdPlaces_cons_eq_ok_iff]
    obtain ⟨b₁, hhold, hrest⟩ | ⟨b₁, i, more, hhold, hrest, rfl⟩ :=
      outcome_holdPlaces_cons_eq_ok_iff.mp h
    · exact .inl ⟨_, Names.holdPlace_moved hhold l, ih hrest⟩
    · exact .inr ⟨_, i, more, Names.holdPlace_moved hhold l, ih hrest, rfl⟩

/-- Contexts that differ in lines only. -/
structure Context.Alike (c c' : Context) : Prop where
  symbols : c'.symbols.unplaced = c.symbols.unplaced
  capacity : c'.capacity = c.capacity
  allowUnresolved : c'.allowUnresolved = c.allowUnresolved

theorem resolve_moved (hc : c.Alike c') (h : resolve c b address = .ok b') (l : Option Location) :
    resolve c' (b.moved l) address = .ok (b'.moved l) := by
  have hsymbols := congrArg SymbolTable.symbols hc.symbols
  change c'.symbols.symbols.map Symbol.unplaced = c.symbols.symbols.map Symbol.unplaced at hsymbols
  have hresolve : Names.resolve (b.moved l) c'.symbols address
      = Names.resolve (b.moved l) c.symbols address := by
    rw [Names.resolve, Names.resolve, ← Names.replaceSymbols_unplaced c'.symbols.symbols, hsymbols,
      Names.replaceSymbols_unplaced]
  rw [resolve] at h ⊢
  rw [hresolve]
  cases hfailure : (Names.resolve b c.symbols address).failure with
  | some e =>
    simp only [hfailure] at h
    cases h
  | none =>
    simp only [hfailure] at h
    cases h
    have hmoved : Names.resolve (b.moved l) c.symbols address
        = (Names.resolve b c.symbols address).moved l := Names.replaceSymbols_moved hfailure l
    simp only [hmoved, Names.Progress.moved, hfailure]

theorem unknownNames_of_alike (hc : c.Alike c') (line : Text) :
    unknownNames c' line = unknownNames c line := by
  simp only [unknownNames, SymbolTable.contains_of_unplaced hc.symbols]

theorem deferNames_moved (hc : c.Alike c') {pending : List Text}
    (h : (deferNames c number b).outcome = .ok (b', pending)) (l : Option Location) :
    (deferNames c' number' (b.moved l)).outcome = .ok (b'.moved l, pending) := by
  have htext : (b.moved l).text = b.text := rfl
  rw [outcome_deferNames_eq_ok_iff, htext, unknownNames_of_alike hc, hc.allowUnresolved]
  obtain ⟨hplain, rfl, rfl⟩ | ⟨hplain, hallow, hnames, held, folded, hhold, hfold⟩ :=
    outcome_deferNames_eq_ok_iff.mp h
  · exact .inl ⟨hplain, rfl, rfl⟩
  · exact .inr ⟨hplain, hallow, hnames, _, _, holdPlaces_moved hhold l,
      Arithmetic.fold_moved hfold l⟩

/-- An instruction is assembled to the same bytes whatever the lines are. -/
theorem outcome_assemble (hc : c.Alike c') {t : Text} {r : Encoded × List Text}
    (h : (assemble c t address number).outcome = .ok r) (number' : Nat) :
    (assemble c' t address number').outcome = .ok r := by
  let l : Option Location := some { file := c'.file, line := number' }
  have hbuffer : bufferFor c' t number' = (bufferFor c t number).moved l := by
    rw [bufferFor, bufferFor, hc.capacity]
    rfl
  obtain ⟨e, pending⟩ := r
  obtain ⟨b₁, b₂, folded, b₃, hresolve, hfold, hdefer, hline⟩ := outcome_assemble_eq_ok_iff.mp h
  rw [outcome_assemble_eq_ok_iff, hbuffer]
  exact ⟨_, _, _, _, resolve_moved hc hresolve l, Arithmetic.fold_moved hfold l,
    deferNames_moved hc hdefer l, hline⟩

end Statement

end Cross6502
