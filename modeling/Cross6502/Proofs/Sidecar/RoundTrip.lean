import Cross6502.Proofs.Numeral.Written
import Cross6502.Proofs.Outcome
import Cross6502.Proofs.Symbol.Table
import Cross6502.Proofs.Text.Cutting
import Cross6502.Sidecar.Reader

/-!
# Sidecars, written and read

A sidecar gives back what was written into it, provided that its entries can be taken
apart again: names have no blanks in them and do not look like a comment, and numbers
have no more digits than a numeral may have (`Writable`).

Reading goes line by line, so the proof does too.  `Describes` says that fields stand for
an entry in a section; a line of such fields adds the entry to what was read before
(`readLines_entry`), and a stretch of them adds all their entries (`readLines_entries`).
What the sections then hold is a matter of inserting entries into a sidecar, where only
symbols can be refused, and those only for a name that is there already.
-/

namespace Cross6502

namespace Sidecar

/-! ## Entries -/

/-- A text that can stand as a field. -/
def IsField (t : Text) : Prop := t ≠ [] ∧ ∀ c ∈ t, Text.isBlank c = false

/-- Fields that stand for an entry in a section. -/
structure Describes (current : Section) (fields : List Text) (entry : Entry) : Prop where
  field : ∀ f ∈ fields, IsField f
  several : 2 ≤ fields.length
  comment : ∀ f ∈ fields.head?, f.head? ≠ some '#'
  entry : Entry.ofFields? (some current) fields = some entry

theorem tight_entryText {fields : List Text} (h : ∀ f ∈ fields, IsField f) :
    Text.Tight (entryText fields) := by
  induction fields with
  | nil => exact Text.tight_of_forall fun c hc => absurd hc List.not_mem_nil
  | cons f fields ih =>
    have hf := h f List.mem_cons_self
    have hrest : ∀ g ∈ fields, IsField g := fun g hg => h g (List.mem_cons_of_mem f hg)
    cases fields with
    | nil => exact Text.tight_of_forall hf.2
    | cons g fields =>
      have hne : entryText (g :: fields) ≠ [] := by
        have hg := (hrest g List.mem_cons_self).1
        cases fields with
        | nil => exact hg
        | cons _ _ => simp [entryText, Text.joinWith, hg]
      have hlead : f ++ [' '] ≠ [] := by simp
      refine Text.tight_append hlead hne ?_ (ih hrest).2
      obtain ⟨c, t, rfl⟩ := List.exists_cons_of_ne_nil hf.1
      intro d hd
      cases hd
      exact hf.2 c List.mem_cons_self

theorem head?_entryText {f : Text} (hf : f ≠ []) (fields : List Text) :
    (entryText (f :: fields)).head? = f.head? := by
  obtain ⟨c, t, rfl⟩ := List.exists_cons_of_ne_nil hf
  cases fields <;> rfl

theorem space_mem_entryText {fields : List Text} (h : 2 ≤ fields.length) :
    ' ' ∈ entryText fields := by
  match fields, h with
  | f :: g :: rest, _ =>
    rw [entryText, Text.joinWith]
    simp

/-- A line with a blank in it is no header. -/
theorem ofLine?_of_mem_space {line : Text} (h : ' ' ∈ line) : Section.ofLine? line = none := by
  have hsegments : line ≠ segmentsHeader := by
    rintro rfl
    exact absurd h (by decide)
  have hsymbols : line ≠ symbolsHeader := by
    rintro rfl
    exact absurd h (by decide)
  have hreferences : line ≠ referencesHeader := by
    rintro rfl
    exact absurd h (by decide)
  rw [Section.ofLine?, if_neg hsegments, if_neg hsymbols, if_neg hreferences]

section Lines

variable {file : String} {number : Nat} {current : Section} {s : Sidecar}

/-- The line of an entry that can be put in. -/
theorem readLines_entry {fields : List Text} {entry : Entry} {s' : Sidecar}
    (h : Describes current fields entry) (hinsert : (insert s entry).outcome = .ok s')
    (rest : List Text) :
    (readLines file number (some current) s (entryText fields :: rest)).outcome
      = (readLines file (number + 1) (some current) s' rest).outcome := by
  have htrim : Text.trim (entryText fields) = entryText fields :=
    Text.trim_of_tight (tight_entryText h.field)
  have hspace := space_mem_entryText h.several
  have hwords : Text.words (entryText fields) = fields :=
    Text.words_joinWith (fun f hf => (h.field f hf).1) fun f hf => (h.field f hf).2
  have hskip : ((entryText fields).isEmpty || (entryText fields).head? == some '#') = false := by
    obtain ⟨f, more, rfl⟩ := List.exists_cons_of_length_pos
      (Nat.lt_of_lt_of_le (by decide) h.several)
    have hcomment := h.comment f rfl
    rw [head?_entryText (h.field f List.mem_cons_self).1, Bool.or_eq_false_iff,
      List.isEmpty_eq_false_iff]
    refine ⟨List.ne_nil_of_mem hspace, ?_⟩
    simpa using hcomment
  rw [readLines]
  simp only [htrim, hskip, Bool.false_eq_true, if_false, ofLine?_of_mem_space hspace, hwords,
    h.entry, Logged.outcome_bind, Logged.outcome_mapFailure_eq_ok_iff.mpr hinsert]
  rfl

/-- A header opens its section. -/
theorem readLines_header {line : Text} {opened : Section}
    (hline : Section.ofLine? line = some opened) (htrim : Text.trim line = line)
    (hcomment : (line.isEmpty || line.head? == some '#') = false) (before : Option Section)
    (rest : List Text) :
    readLines file number before s (line :: rest)
      = readLines file (number + 1) (some opened) s rest := by
  rw [readLines]
  simp only [htrim, hcomment, Bool.false_eq_true, if_false, hline]

/-- A line that begins like a comment, and one without anything, is passed over. -/
theorem readLines_skip {line : Text}
    (h : ((Text.trim line).isEmpty || (Text.trim line).head? == some '#') = true)
    (before : Option Section) (rest : List Text) :
    readLines file number before s (line :: rest) = readLines file (number + 1) before s rest := by
  rw [readLines]
  simp only [h, if_true]

/-- Put entries behind those read so far. -/
def insertAll (s : Sidecar) : List Entry → Except Failure Sidecar
  | [] => .ok s
  | e :: rest => (insert s e).outcome.bind fun s' => insertAll s' rest

theorem of_insertAll_cons {e : Entry} {rest : List Entry} {s' : Sidecar}
    (h : insertAll s (e :: rest) = .ok s') :
    ∃ s₁, (insert s e).outcome = .ok s₁ ∧ insertAll s₁ rest = .ok s' :=
  Outcome.bind_eq_ok_iff.mp h

/-- A stretch of lines with an entry in each. -/
theorem readLines_entries {α : Type} {fields : α → List Text} {entry : α → Entry} {xs : List α}
    {s' : Sidecar} (h : ∀ x ∈ xs, Describes current (fields x) (entry x))
    (hinsert : insertAll s (xs.map entry) = .ok s') (rest : List Text) :
    (readLines file number (some current) s
        (xs.map (fun x => entryText (fields x)) ++ rest)).outcome
      = (readLines file (number + xs.length) (some current) s' rest).outcome := by
  induction xs generalizing number s with
  | nil =>
    cases hinsert
    rfl
  | cons x xs ih =>
    obtain ⟨s₁, hfirst, hrest⟩ := of_insertAll_cons hinsert
    rw [List.map_cons, List.cons_append, readLines_entry (h x List.mem_cons_self) hfirst,
      ih (fun y hy => h y (List.mem_cons_of_mem x hy)) hrest, List.length_cons,
      Nat.add_right_comm, Nat.add_assoc]

end Lines

/-! ## Fields that were written -/

theorem isField_of_isDigits {base : Nat} {run : Text} (h : Numeral.IsDigits base run) :
    IsField run :=
  ⟨h.ne_nil, fun c hc => Numeral.isBlank_of_isAlphanum (h.plain c hc).1⟩

theorem isField_decimal (n : Int) : IsField (Text.decimal n) := by
  have hrun := isField_of_isDigits (Numeral.isDigits_decimal n.natAbs)
  rw [Text.decimal_natCast] at hrun
  rw [Text.decimal]
  split
  · refine ⟨List.cons_ne_nil _ _, fun c hc => ?_⟩
    rcases List.mem_cons.mp hc with rfl | hc
    · decide
    · exact hrun.2 c hc
  · exact hrun

theorem isField_addressText (n : Int) : IsField (addressText n) := by
  refine ⟨List.cons_ne_nil _ _, ?_⟩
  obtain ⟨run, hrun, ⟨htext, -⟩ | ⟨htext, -⟩⟩ := Numeral.upperHex_cases 4 n
  · rw [addressText, htext]
    intro c hc
    rcases List.mem_cons.mp hc with rfl | hc
    · decide
    · exact (isField_of_isDigits hrun).2 c hc
  · rw [addressText, htext]
    intro c hc
    rcases List.mem_cons.mp hc with rfl | hc
    · decide
    · rcases List.mem_cons.mp hc with rfl | hc
      · decide
      · exact (isField_of_isDigits hrun).2 c hc

theorem isField_kind (k : SymbolKind) : IsField k.name := by
  cases k <;> exact ⟨by decide, by decide⟩

theorem isField_mode (m : Mode) : IsField m.name := by
  cases m <;> exact ⟨by decide, by decide⟩

theorem decimal?_decimal {n : Int} (hn : n.natAbs < Numeral.decimalLimit) :
    decimal? (Text.decimal n) = some n := by
  rw [decimal?, Numeral.read_decimal hn]
  rfl

theorem address?_addressText (n : Int) : address? (addressText n) = some n := by
  have hdollar : (addressText n).dropWhile (· = '$') = Text.upperHex 4 n := by
    obtain ⟨run, hrun, ⟨htext, -⟩ | ⟨htext, -⟩⟩ := Numeral.upperHex_cases 4 n
    · obtain ⟨c, t, rfl⟩ := List.exists_cons_of_ne_nil hrun.ne_nil
      have hc : c ≠ '$' :=
        Numeral.ne_of_isAlphanum (hrun.plain c List.mem_cons_self).1 (by decide)
      rw [addressText, htext]
      simp [hc]
    · rw [addressText, htext]
      simp
  rw [address?, hdollar, Numeral.read_upperHex]
  rfl

/-- A name that can stand first in an entry. -/
structure IsEntryName (t : Text) : Prop where
  field : IsField t
  comment : t.head? ≠ some '#'

/-- The entry of a listed segment. -/
def segmentEntry (index : Nat) (s : Segment) : SegmentEntry := ⟨index, s.start, s.size⟩

theorem describes_segment {index : Nat} {g : Segment} (hindex : index < Numeral.decimalLimit)
    (hsize : g.size < Numeral.decimalLimit) :
    Describes .segments [Text.decimal index, addressText g.start, Text.decimal g.size]
      (.segment (segmentEntry index g)) where
  field f hf := by
    simp only [List.mem_cons, List.not_mem_nil, or_false] at hf
    rcases hf with rfl | rfl | rfl
    · exact isField_decimal index
    · exact isField_addressText g.start
    · exact isField_decimal g.size
  several := by simp
  comment f hf := by
    cases hf
    intro hhead
    have hmem := List.mem_of_mem_head? hhead
    exact Numeral.ne_of_isAlphanum ((Numeral.isDigits_decimal index).plain _ hmem).1
      (by decide : Char.isAlphanum '#' = false) rfl
  entry := by
    simp only [Entry.ofFields?, decimal?_decimal (n := index) hindex, address?_addressText,
      decimal?_decimal (n := g.size) hsize]
    rfl

/-- A symbol as it is read back: without the value it was declared with. -/
def bare (u : Symbol) : Symbol := { u with value := none }

theorem describes_symbol {u : Symbol} (hname : IsEntryName u.name)
    (hline : u.line.natAbs < Numeral.decimalLimit) :
    Describes .symbols [u.name, addressText u.address, u.kind.name, Text.decimal u.line]
      (.symbol (bare u)) where
  field f hf := by
    simp only [List.mem_cons, List.not_mem_nil, or_false] at hf
    rcases hf with rfl | rfl | rfl | rfl
    · exact hname.field
    · exact isField_addressText u.address
    · exact isField_kind u.kind
    · exact isField_decimal u.line
  several := by simp
  comment f hf := by
    cases hf
    exact hname.comment
  entry := by
    simp only [Entry.ofFields?, decimal?_decimal hline, address?_addressText,
      SymbolKind.ofName?_name]
    rfl

theorem describes_reference {r : Reference} (hname : IsEntryName r.name)
    (hsegment : r.segment.natAbs < Numeral.decimalLimit)
    (hoffset : r.offset.natAbs < Numeral.decimalLimit)
    (hline : r.line.natAbs < Numeral.decimalLimit) :
    Describes .references [r.name, Text.decimal r.segment, Text.decimal r.offset, r.mode.name,
      Text.decimal r.line] (.reference r) where
  field f hf := by
    simp only [List.mem_cons, List.not_mem_nil, or_false] at hf
    rcases hf with rfl | rfl | rfl | rfl | rfl
    · exact hname.field
    · exact isField_decimal r.segment
    · exact isField_decimal r.offset
    · exact isField_mode r.mode
    · exact isField_decimal r.line
  several := by simp
  comment f hf := by
    cases hf
    exact hname.comment
  entry := by
    simp only [Entry.ofFields?, decimal?_decimal hsegment, decimal?_decimal hoffset,
      decimal?_decimal hline, Mode.ofName?_name]
    rfl

/-! ## Inserting entries -/

theorem insertAll_segments (s : Sidecar) (es : List SegmentEntry) :
    insertAll s (es.map .segment) = .ok { s with segments := s.segments ++ es } := by
  induction es generalizing s with
  | nil => rw [List.append_nil]; rfl
  | cons e es ih =>
    rw [List.map_cons, insertAll]
    change insertAll { s with segments := s.segments ++ [e] } (es.map .segment) = _
    rw [ih, List.append_assoc, List.singleton_append]

theorem insertAll_references (s : Sidecar) (rs : List Reference) :
    insertAll s (rs.map .reference) = .ok { s with references := s.references ++ rs } := by
  induction rs generalizing s with
  | nil => rw [List.append_nil]; rfl
  | cons r rs ih =>
    rw [List.map_cons, insertAll]
    change insertAll { s with references := s.references ++ [r] } (rs.map .reference) = _
    rw [ih, List.append_assoc, List.singleton_append]

/-- Symbols with names of their own are all taken, if their lines can be told. -/
theorem insertAll_symbols (s : Sidecar) {us : List Symbol} (hnodup : (us.map Symbol.name).Nodup)
    (hlines : ∀ u ∈ us, Text.isWritable u.line = true)
    (hfresh : ∀ u ∈ us, s.symbols.find? u.name = none) :
    insertAll s (us.map .symbol) = .ok { s with
      symbols := { s.symbols with
        symbols := SymbolTable.insertAllByLength s.symbols.symbols us } } := by
  induction us generalizing s with
  | nil => rfl
  | cons u us ih =>
    obtain ⟨table, hadd⟩ := SymbolTable.insert_of_find?_eq_none (hfresh u List.mem_cons_self)
    rw [List.map_cons, List.nodup_cons] at hnodup
    have hfresh' : ∀ v ∈ us, table.find? v.name = none := by
      intro v hv
      rw [SymbolTable.find?_of_insert hadd, if_neg, hfresh v (List.mem_cons_of_mem u hv)]
      intro hname
      exact hnodup.1 (hname ▸ List.mem_map_of_mem hv)
    obtain ⟨hline, hlines⟩ := List.forall_mem_cons.mp hlines
    have hrest := ih { s with symbols := table } hnodup.2 hlines hfresh'
    have hinsert : (insert s (.symbol u)).outcome = .ok { s with symbols := table } := by
      rw [insert, SymbolTable.logged_add_of_insert hadd, if_pos hline]
      rfl
    rw [List.map_cons, insertAll, hinsert]
    rw [SymbolTable.insert, hfresh u List.mem_cons_self] at hadd
    cases hadd
    exact hrest

/-! ## Whole sidecars -/

/-- The symbols of an object in the order of its table. -/
def tableSymbols (o : Object) : List Symbol :=
  match o.symbols with
  | some t => t.symbols
  | none => []

theorem perm_listedSymbols (o : Object) : (listedSymbols o).Perm (tableSymbols o) := by
  rw [listedSymbols, tableSymbols]
  cases o.symbols with
  | none => exact .refl _
  | some t => exact List.mergeSort_perm t.symbols _

/-- An object whose sidecar can be taken apart again: its names are words that do not look
like comments, each is defined once, as in every table made by adding symbols, and all that
is written in decimal has no more digits than are read.  Addresses are not bounded. -/
structure Writable (o : Object) : Prop where
  count : o.segments.length < Numeral.decimalLimit
  size : ∀ g ∈ o.segments, g.size < Numeral.decimalLimit
  symbol : ∀ u ∈ tableSymbols o, IsEntryName u.name ∧ u.line.natAbs < Numeral.decimalLimit
  nodup : ((tableSymbols o).map Symbol.name).Nodup
  reference : ∀ r ∈ o.references, IsEntryName r.name
    ∧ r.segment.natAbs < Numeral.decimalLimit ∧ r.offset.natAbs < Numeral.decimalLimit
    ∧ r.line.natAbs < Numeral.decimalLimit

/-- Lines without line feeds, each ended by one, are found again. -/
theorem splitOnP_flatMap {ls : List Text} (h : ∀ l ∈ ls, ∀ c ∈ l, c ≠ '\n') :
    (ls.flatMap fun l => l ++ ['\n']).splitOnP (· = '\n') = ls ++ [[]] := by
  induction ls with
  | nil => rfl
  | cons l ls ih =>
    have hl : ∀ c ∈ l, decide (c = '\n') = false := fun c hc => by
      simpa using h l List.mem_cons_self c hc
    rw [List.flatMap_cons, List.append_assoc, List.singleton_append,
      List.splitOnP_append_cons_of_forall_mem hl '\n' (by decide),
      ih fun k hk => h k (List.mem_cons_of_mem l hk), List.cons_append]

theorem mem_entryText {fields : List Text} {c : Char} (hc : c ∈ entryText fields) :
    c = ' ' ∨ ∃ f ∈ fields, c ∈ f := by
  induction fields with
  | nil => cases hc
  | cons f fields ih =>
    cases fields with
    | nil => exact .inr ⟨f, List.mem_cons_self, hc⟩
    | cons g rest =>
      rw [entryText, Text.joinWith, List.append_assoc, List.singleton_append, List.mem_append,
        List.mem_cons] at hc
      rcases hc with hc | hc | hc
      · exact .inr ⟨f, List.mem_cons_self, hc⟩
      · exact .inl hc
      · rcases ih hc with h | ⟨k, hk, h⟩
        · exact .inl h
        · exact .inr ⟨k, List.mem_cons_of_mem f hk, h⟩

theorem Describes.plain {current : Section} {fields : List Text} {entry : Entry}
    (h : Describes current fields entry) :
    ∀ c ∈ entryText fields, c = ' ' ∨ Text.isBlank c = false := by
  intro c hc
  rcases mem_entryText hc with hspace | ⟨f, hf, hmem⟩
  · exact .inl hspace
  · exact .inr ((h.field f hf).2 c hmem)

section Whole

variable {o : Object}

theorem Writable.describes_segments (h : Writable o) : ∀ p ∈ o.segments.zipIdx,
    Describes .segments [Text.decimal p.2, addressText p.1.start, Text.decimal p.1.size]
      (.segment (segmentEntry p.2 p.1)) := by
  rintro ⟨g, i⟩ hp
  have hi : i < o.segments.length := List.snd_lt_of_mem_zipIdx hp
  exact describes_segment (Nat.lt_trans hi h.count) (h.size g (List.fst_mem_of_mem_zipIdx hp))

theorem Writable.describes_symbols (h : Writable o) : ∀ u ∈ listedSymbols o,
    Describes .symbols [u.name, addressText u.address, u.kind.name, Text.decimal u.line]
      (.symbol (bare u)) := by
  intro u hu
  obtain ⟨hname, hline⟩ := h.symbol u ((perm_listedSymbols o).mem_iff.mp hu)
  exact describes_symbol hname hline

theorem Writable.describes_references (h : Writable o) : ∀ r ∈ o.references,
    Describes .references [r.name, Text.decimal r.segment, Text.decimal r.offset, r.mode.name,
      Text.decimal r.line] (.reference r) := by
  intro r hr
  obtain ⟨hname, hsegment, hoffset, hline⟩ := h.reference r hr
  exact describes_reference hname hsegment hoffset hline

/-- The lines of the listed symbols can be told, as all numbers of the sidecar can be
written. -/
theorem Writable.line_listedSymbols (h : Writable o) :
    ∀ u ∈ (listedSymbols o).map bare, Text.isWritable u.line = true := by
  intro v hv
  obtain ⟨u, hu, rfl⟩ := List.mem_map.mp hv
  exact Numeral.isWritable_iff.mpr (h.symbol u ((perm_listedSymbols o).mem_iff.mp hu)).2

/-- That a reference is discarded can be told. -/
theorem Writable.canBeTold_discarded (h : Writable o) {r : Reference} (hr : r ∈ o.references)
    (format : Format) : (Event.discarded r format).canBeTold = true := by
  obtain ⟨-, hsegment, -, hline⟩ := h.reference r hr
  rw [Event.canBeTold, Event.numbers, List.all_cons, List.all_cons, List.all_nil,
    Numeral.isWritable_iff.mpr hline, Numeral.isWritable_iff.mpr hsegment]
  rfl

theorem Writable.write_eq (h : Writable o) : write o = .ok (text o) := by
  refine if_pos (List.all_eq_true.mpr fun n hn => Numeral.isWritable_iff.mpr ?_)
  rcases List.mem_append.mp hn with hn | hn
  · obtain ⟨u, hu, rfl⟩ := List.mem_map.mp hn
    exact (h.symbol u ((perm_listedSymbols o).mem_iff.mp hu)).2
  · obtain ⟨r, hr, hn⟩ := List.mem_flatMap.mp hn
    obtain ⟨-, hsegment, hoffset, hline⟩ := h.reference r hr
    simp only [List.mem_cons, List.not_mem_nil, or_false] at hn
    rcases hn with rfl | rfl | rfl
    · exact hsegment
    · exact hoffset
    · exact hline

theorem Writable.nodup_listedSymbols (h : Writable o) :
    (((listedSymbols o).map bare).map Symbol.name).Nodup := by
  rw [List.map_map]
  exact ((perm_listedSymbols o).map Symbol.name).nodup_iff.mpr h.nodup

theorem lines_eq (o : Object) :
    lines o = ["# Symbol table".toList, "# Generated by as6502".toList, segmentsHeader]
      ++ (o.segments.zipIdx.map (fun p =>
          entryText [Text.decimal p.2, addressText p.1.start, Text.decimal p.1.size])
      ++ symbolsHeader :: ((listedSymbols o).map (fun u =>
          entryText [u.name, addressText u.address, u.kind.name, Text.decimal u.line])
      ++ referencesHeader :: o.references.map (fun r =>
          entryText [r.name, Text.decimal r.segment, Text.decimal r.offset, r.mode.name,
            Text.decimal r.line]))) := by
  rw [lines, List.mapIdx_eq_zipIdx_map]
  simp only [List.append_assoc, List.singleton_append]
  rfl

/-- The lines of a sidecar that can be taken apart hold no blanks but spaces. -/
theorem Writable.plain (h : Writable o) :
    ∀ l ∈ lines o, ∀ c ∈ l, c = ' ' ∨ Text.isBlank c = false := by
  intro l hl
  rw [lines_eq] at hl
  rcases List.mem_append.mp hl with hl | hl
  · have hfront : ∀ k ∈ ["# Symbol table".toList, "# Generated by as6502".toList, segmentsHeader],
        ∀ c ∈ k, c = ' ' ∨ Text.isBlank c = false := by decide
    exact hfront l hl
  rcases List.mem_append.mp hl with hl | hl
  · obtain ⟨p, hp, rfl⟩ := List.mem_map.mp hl
    exact (h.describes_segments p hp).plain
  rcases List.mem_cons.mp hl with rfl | hl
  · decide
  rcases List.mem_append.mp hl with hl | hl
  · obtain ⟨u, hu, rfl⟩ := List.mem_map.mp hl
    exact (h.describes_symbols u hu).plain
  rcases List.mem_cons.mp hl with rfl | hl
  · decide
  · obtain ⟨r, hr, rfl⟩ := List.mem_map.mp hl
    exact (h.describes_references r hr).plain

theorem Writable.ne_newline (h : Writable o) : ∀ l ∈ lines o, ∀ c ∈ l, c ≠ '\n' := by
  rintro l hl c hc rfl
  exact absurd (h.plain l hl _ hc) (by decide)

/-- A sidecar has no carriage returns. -/
theorem Writable.ne_return (h : Writable o) : ∀ c ∈ text o, c ≠ '\r' := by
  rintro c hc rfl
  rw [text, List.mem_flatMap] at hc
  obtain ⟨l, hl, hc⟩ := hc
  rcases List.mem_append.mp hc with hc | hc
  · exact absurd (h.plain l hl _ hc) (by decide)
  · exact absurd hc (by decide)

/-- A sidecar gives back what was written into it, the values of variables apart.  Its
table is made by adding the symbols in the order they are listed. -/
theorem read_write_eq (h : Writable o) (file : String) :
    (read file (text o)).outcome = .ok
      { symbols := { file := file
                     symbols := SymbolTable.insertAllByLength [] ((listedSymbols o).map bare) }
        references := o.references
        segments := o.segments.mapIdx segmentEntry } := by
  have hinsert := insertAll_symbols
    { symbols := { file := file }, segments := [] ++ o.segments.mapIdx segmentEntry }
    h.nodup_listedSymbols h.line_listedSymbols (fun u hu => rfl)
  have hsegments : o.segments.zipIdx.map (fun p => Entry.segment (segmentEntry p.2 p.1))
      = (o.segments.mapIdx segmentEntry).map .segment := by
    rw [List.mapIdx_eq_zipIdx_map, List.map_map]
    rfl
  have hsymbols : (listedSymbols o).map (fun u => Entry.symbol (bare u))
      = ((listedSymbols o).map bare).map .symbol := by
    rw [List.map_map]
    rfl
  rw [read, text, splitOnP_flatMap h.ne_newline, lines_eq]
  simp only [List.append_assoc, List.cons_append, List.nil_append]
  rw [readLines_skip (by decide), readLines_skip (by decide),
    readLines_header (rfl : Section.ofLine? segmentsHeader = some .segments) (by decide)
      (by decide),
    readLines_entries h.describes_segments (hsegments ▸ insertAll_segments _ _),
    readLines_header (rfl : Section.ofLine? symbolsHeader = some .symbols) (by decide)
      (by decide),
    readLines_entries h.describes_symbols (hsymbols ▸ hinsert),
    readLines_header (rfl : Section.ofLine? referencesHeader = some .references) (by decide)
      (by decide),
    readLines_entries h.describes_references (insertAll_references _ _),
    readLines_skip (by decide)]
  rfl

/-- The symbols that are read back, as a set. -/
theorem read_write (h : Writable o) (file : String) :
    ∃ s, (read file (text o)).outcome = .ok s
      ∧ s.segments = o.segments.mapIdx segmentEntry ∧ s.references = o.references
      ∧ s.symbols.NamesNodup
      ∧ ∀ v, v ∈ s.symbols.symbols ↔ ∃ u ∈ listedSymbols o, v = bare u := by
  have hperm := SymbolTable.perm_insertAllByLength [] ((listedSymbols o).map bare)
  rw [List.append_nil] at hperm
  refine ⟨_, read_write_eq h file, rfl, rfl, ?_, fun v => ?_⟩
  · rw [SymbolTable.NamesNodup, (hperm.map Symbol.name).nodup_iff]
    exact h.nodup_listedSymbols
  · rw [hperm.mem_iff, List.mem_map]
    simp only [eq_comm]

end Whole

end Sidecar

end Cross6502
