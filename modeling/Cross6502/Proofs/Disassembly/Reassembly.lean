import Cross6502.Assembly.Run
import Cross6502.Proofs.Assembly.Steps
import Cross6502.Proofs.Disassembly.Reading
import Cross6502.Proofs.Disassembly.Shown

/-!
# Reassembly

The disassembly of an object is a source of that object.  The labels are the heart of
the matter: the first pass walks over the printed instructions and must come to every
label at the address that the label was made up for, since the second pass turns the
name back into an operand through that address.  So the first pass is shown to keep in
step with the instructions, one instruction at a time, and to leave a table with the
labels at their places (`defines_sites`); the second pass then puts out the bytes of one
instruction after another (`emits_sites`).
-/

namespace Cross6502

open Disassembler

/-! ## Objects of one segment -/

namespace Object

/-- An object whose only segment is the one given. -/
structure Single (o : Object) (s : Segment) : Prop where
  first : o.first = s
  later : o.later = []

theorem Single.segments {o : Object} {s : Segment} (h : o.Single s) : o.segments = [s] := by
  rw [Object.segments, h.first, h.later]

theorem Single.segmentAt? {o : Object} {s : Segment} (h : o.Single s) :
    o.segmentAt? 0 = some s := by
  rw [Object.segmentAt?, h.segments]
  rfl

/-- Bytes put behind the only segment. -/
theorem Single.extend {o : Object} {s : Segment} (h : o.Single s) (bytes : List UInt8) :
    ∃ o', o.extend 0 bytes = .ok o' ∧ o'.Single (s.append bytes)
      ∧ o'.references = o.references := by
  have hlength : o.segments.length = 1 := by rw [h.segments, List.length_singleton]
  rw [Object.extend, hlength]
  exact ⟨_, rfl, ⟨congrArg (fun t : Segment => t.append bytes) h.first, h.later⟩, rfl⟩

end Object

/-! ## Lines of an instruction -/

/-- The line of the label at an address, if it has one. -/
def labelLines (table : SymbolTable) (a : Int) : List Text :=
  match table.labelAt? a with
  | some name => [name ++ [':']]
  | none => []

theorem label_ofSite (table : SymbolTable) (s : Site) :
    (Disassembled.ofSite table s).label = table.labelAt? s.address := by
  rw [Disassembled.ofSite_eq]

theorem instructionLines_ofSite {table : SymbolTable} {sites : List Site}
    (hlabels : Labelling table sites) (s : Site) :
    instructionLines false (Disassembled.ofSite table s)
      = labelLines table s.address ++ ['\t' :: (Disassembled.ofSite table s).text] := by
  rw [instructionLines, label_ofSite, labelLines]
  cases h : table.labelAt? s.address with
  | none => rfl
  | some name =>
    obtain ⟨⟨k, -, rfl⟩, -⟩ := hlabels.shape s.address name h
    rfl

/-! ## The first pass -/

namespace Definitions

/-- A first pass that has set aside `n` bytes of one segment without complaint. -/
structure At (start : Int) (n : Nat) (d : Definitions) : Prop where
  layout : d.layout.Single ⟨start, List.replicate n 0⟩
  current : d.current = 0
  clean : d.report.hasErrors = false

section Step

variable {start : Int} {n : Nat} {d : Definitions} (settings : Settings) {raw : Text}

theorem At.here (h : At start n d) : d.here = start + n := by
  rw [Definitions.here, h.current, h.layout.segmentAt?]
  change start + ((List.replicate n (0 : UInt8)).length : Int) = _
  rw [List.length_replicate]

/-- The line of a new label. -/
theorem step_label {name : Text} (hread : LineReads raw (.statement (some name) []))
    (h : At start n d) (hfresh : d.symbols.find? name = none) (number : Nat) :
    ∃ d', step settings d number raw = (d', none) ∧ At start n d'
      ∧ d.symbols.insert (.ofLabel name (start + n) number) = .ok d'.symbols := by
  obtain ⟨table, hadd⟩ := SymbolTable.insert_of_find?_eq_none
    (s := .ofLabel name (start + n) number) hfresh
  have hhere : Definitions.here { d with report := d.report.atLine number } = start + n := h.here
  simp only [step, hread.ofClean, mark, define, hhere, hadd, reserve, layOut]
  exact ⟨_, rfl, ⟨h.layout, h.current, h.clean⟩, rfl⟩

/-- The line of an instruction. -/
theorem step_instruction {body : Text} (hread : LineReads raw (.statement none body))
    (hne : body ≠ []) (hdot : body.head? ≠ some '.') {mode : Mode}
    (hmode : Line.effectiveMode body = .ok mode) (h : At start n d) (number : Nat) :
    ∃ d', step settings d number raw = (d', none) ∧ At start (n + mode.length) d'
      ∧ d'.symbols = d.symbols := by
  obtain ⟨o, hextend, hsingle, -⟩ := h.layout.extend (List.replicate mode.length 0)
  have hempty : ¬ (body.isEmpty = true) := by simpa using hne
  have hlayOut : layOut { d with report := d.report.atLine number } body = .ok (o, d.current) := by
    simp only [layOut, if_neg hempty, if_neg hdot, hmode, bind, Except.bind]
    rw [h.current, hextend]
  simp only [step, hread.ofClean, mark, reserve, hlayOut]
  refine ⟨_, rfl, ⟨?_, h.current, h.clean⟩, rfl⟩
  rw [List.replicate_add]
  exact hsingle

end Step

/-! ### Labels at their places -/

/-- All names so far are labels of the disassembly, at addresses already passed. -/
def Named (table : SymbolTable) (limit : Int) (d : Definitions) : Prop :=
  ∀ u ∈ d.symbols.symbols, ∃ k, u.name = localName k
    ∧ table.labelAt? u.address = some (labelName k) ∧ u.address < limit

/-- The label printed at an address, if there is one, is in the table with it. -/
def HasLabel (table : SymbolTable) (a : Int) (d : Definitions) : Prop :=
  ∀ k, table.labelAt? a = some (labelName k) →
    ∃ u, d.symbols.find? (localName k) = some u ∧ u.address = a

/-- Whatever is found before is found after. -/
def Keeps (d d' : Definitions) : Prop :=
  ∀ name u, d.symbols.find? name = some u → d'.symbols.find? name = some u

theorem HasLabel.mono {table : SymbolTable} {a : Int} {d d' : Definitions}
    (h : HasLabel table a d) (hkeeps : Keeps d d') : HasLabel table a d' := by
  intro k hk
  obtain ⟨u, hfind, haddress⟩ := h k hk
  exact ⟨u, hkeeps _ u hfind, haddress⟩

section Site

variable {table : SymbolTable} {sites : List Site} (settings : Settings) {start : Int} {n : Nat}
  {d : Definitions}

/-- The label of the next instruction is not in the table. -/
theorem find?_eq_none_of_named (hlabels : Labelling table sites)
    {a : Int} (hnamed : Named table a d) {k : Nat}
    (hlabel : table.labelAt? a = some (labelName k)) :
    d.symbols.find? (localName k) = none := by
  rw [SymbolTable.find?, List.find?_eq_none]
  intro u hu hname
  obtain ⟨l, hl, hlabel', hlt⟩ := hnamed u hu
  have hname : u.name = localName k := by simpa using hname
  rw [localName_inj (hl.symm.trans hname)] at hlabel'
  have := hlabels.unique _ _ _ hlabel' hlabel
  omega

/-- The first pass over the label in front of an instruction. -/
theorem defines_label (hlabels : Labelling table sites) (hcount : sites.length ≤ 65536)
    (hrange : 0 ≤ start + n ∧ start + n < 65536) (h : At start n d)
    (hnamed : Named table (start + n) d) (number : Nat) :
    ∃ d', walkLines (step settings) number (labelLines table (start + n)) d = (d', none)
      ∧ At start n d' ∧ Named table (start + n + 1) d' ∧ HasLabel table (start + n) d'
      ∧ Keeps d d' := by
  rw [labelLines]
  cases hlabel : table.labelAt? (start + n) with
  | none =>
    refine ⟨d, rfl, h, ?_, ?_, fun name u hu => hu⟩
    · intro u hu
      obtain ⟨k, hk, hlabel', hlt⟩ := hnamed u hu
      exact ⟨k, hk, hlabel', by omega⟩
    · intro k hk
      rw [hlabel] at hk
      cases hk
  | some name =>
    obtain ⟨⟨k, hk, rfl⟩, -⟩ := hlabels.shape _ _ hlabel
    have hfresh := find?_eq_none_of_named hlabels hnamed hlabel
    obtain ⟨d', hstep, hat, hadd⟩ := step_label settings
      (reads_label (Nat.le_trans hk hcount)) h hfresh number
    have haddress : (Symbol.ofLabel (localName k) (start + n) number).address = start + n := by
      change (start + n) % 65536 = _
      omega
    refine ⟨d', ?_, hat, ?_, ?_, ?_⟩
    · simp only [walkLines, hstep]
    · intro u hu
      rcases (SymbolTable.mem_symbols_of_insert hadd).mp hu with rfl | hu
      · exact ⟨k, rfl, by rw [haddress]; exact hlabel, by omega⟩
      · obtain ⟨l, hl, hlabel', hlt⟩ := hnamed u hu
        exact ⟨l, hl, hlabel', by omega⟩
    · intro l hl
      rw [hlabel, Option.some.injEq] at hl
      rw [← labelName_inj hl, SymbolTable.find?_of_insert hadd]
      exact ⟨_, if_pos rfl, haddress⟩
    · intro name u hu
      rw [SymbolTable.find?_of_insert hadd, if_neg]
      · exact hu
      · rintro rfl
        exact absurd (hfresh.symm.trans hu) (by simp)

/-- The first pass over the lines of one instruction. -/
theorem defines_site (hlabels : Labelling table sites) (hcount : sites.length ≤ 65536)
    {s : Site} {body : Text} (hread : ReadsBack table s body) (haddress : s.address = start + n)
    (hrange : 0 ≤ s.address ∧ s.address < 65536) (h : At start n d)
    (hnamed : Named table s.address d) (number : Nat) :
    ∃ d', walkLines (step settings) number
        (instructionLines false (Disassembled.ofSite table s)) d = (d', none)
      ∧ At start (n + s.bytes.length) d' ∧ Named table (s.address + s.bytes.length) d'
      ∧ HasLabel table s.address d' ∧ Keeps d d' := by
  rw [haddress] at hrange hnamed
  obtain ⟨mode, hmode, hlength⟩ := hread.room
  obtain ⟨d₁, hwalk₁, hat₁, hnamed₁, hlabel₁, hkeeps₁⟩ :=
    defines_label settings hlabels hcount hrange h hnamed number
  obtain ⟨d₂, hstep₂, hat₂, hsymbols₂⟩ := step_instruction settings hread.line hread.code.1
    hread.code.2 hmode hat₁ (number + (labelLines table (start + n)).length)
  have hpos : 0 < s.bytes.length := Nat.succ_pos _
  refine ⟨d₂, ?_, hlength ▸ hat₂, ?_, ?_, ?_⟩
  · rw [instructionLines_ofSite hlabels, haddress, walkLines_append hwalk₁]
    simp only [walkLines, hstep₂]
  · intro u hu
    rw [hsymbols₂] at hu
    obtain ⟨k, hk, hlabel, hlt⟩ := hnamed₁ u hu
    exact ⟨k, hk, hlabel, by omega⟩
  · intro k hk
    rw [hsymbols₂, haddress]
    exact hlabel₁ k (haddress ▸ hk)
  · intro name u hu
    rw [hsymbols₂]
    exact hkeeps₁ name u hu

/-- The first pass over instructions that tile the bytes behind those set aside. -/
theorem defines_sites (hlabels : Labelling table sites) (hcount : sites.length ≤ 65536)
    {address : Int} {bytes : List UInt8} {rest : List Site} (htiled : Tiled address bytes rest)
    (hread : ∀ s ∈ rest, ∃ body, ReadsBack table s body) (haddress : address = start + n)
    (hrange : 0 ≤ address ∧ address + bytes.length ≤ 65536) (h : At start n d)
    (hnamed : Named table address d) (number : Nat) :
    ∃ d', walkLines (step settings) number
        (rest.flatMap fun s => instructionLines false (Disassembled.ofSite table s)) d = (d', none)
      ∧ At start (n + bytes.length) d' ∧ Named table (address + bytes.length) d'
      ∧ (∀ s ∈ rest, HasLabel table s.address d') ∧ Keeps d d' := by
  induction htiled generalizing n d number with
  | nil address =>
    refine ⟨d, rfl, h, ?_, fun s hs => absurd hs List.not_mem_nil, fun name u hu => hu⟩
    rw [List.length_nil, Int.natCast_zero, Int.add_zero]
    exact hnamed
  | @cons s more rest hcomplete htail ih =>
    have hpos : 0 < s.bytes.length := Nat.succ_pos _
    rw [List.length_append] at hrange
    obtain ⟨body, hbody⟩ := hread s List.mem_cons_self
    obtain ⟨d₁, hwalk₁, hat₁, hnamed₁, hlabel₁, hkeeps₁⟩ :=
      defines_site settings hlabels hcount hbody haddress (by omega) h hnamed number
    obtain ⟨d₂, hwalk₂, hat₂, hnamed₂, hlabel₂, hkeeps₂⟩ :=
      ih (fun t ht => hread t (List.mem_cons_of_mem s ht)) (by omega) (by omega) hat₁ hnamed₁
        (number + (instructionLines false (Disassembled.ofSite table s)).length)
    refine ⟨d₂, ?_, ?_, ?_, ?_, fun name u hu => hkeeps₂ name u (hkeeps₁ name u hu)⟩
    · rw [List.flatMap_cons, walkLines_append hwalk₁, hwalk₂]
    · rw [List.length_append, ← Nat.add_assoc]
      exact hat₂
    · rw [List.length_append, Int.natCast_add, ← Int.add_assoc]
      exact hnamed₂
    · intro t ht
      rcases List.mem_cons.mp ht with rfl | ht
      · exact hlabel₁.mono hkeeps₂
      · exact hlabel₂ t ht

end Site

end Definitions

/-! ## The second pass -/

namespace Emission

/-- A second pass that has put out the data of one segment without complaint. -/
structure At (start : Int) (data : List UInt8) (m : Emission) : Prop where
  object : m.object.Single ⟨start, data⟩
  current : m.current = 0
  clean : m.report.hasErrors = false

section Step

variable {start : Int} {data : List UInt8} {m : Emission} {c : Statement.Context} {raw : Text}

theorem At.segment (h : At start data m) : m.segment = ⟨start, data⟩ := by
  rw [Emission.segment, h.current, h.object.segmentAt?]
  rfl

theorem step_of_reads {label : Option Text} {body : Text} (hcapacity : 80 ≤ c.capacity)
    (hread : LineReads raw (.statement label body)) (number : Nat) :
    step c m number raw
      = (Emission.mark { m with report := m.report.atLine number } number label).bodyLine
          c number raw body := by
  have hshort := hread.short
  have hfits : ¬ (c.capacity - 1 < ((Line.clean raw).length : Int)) := by omega
  simp only [step, hread.ofClean, if_neg hfits]

theorem step_label {name : Text} (hcapacity : 80 ≤ c.capacity)
    (hread : LineReads raw (.statement (some name) [])) (h : At start data m) (number : Nat) :
    ∃ m', step c m number raw = (m', none) ∧ At start data m' := by
  rw [step_of_reads hcapacity hread]
  exact ⟨_, rfl, h.object, h.current, h.clean⟩

/-- An instruction without names left over is put out behind the data. -/
theorem instructionLine_of_assemble (h : At start data m) {number : Nat} {body : Text}
    {e : Encoded}
    (hassemble : (Statement.assemble c body (start + data.length) number).outcome = .ok (e, [])) :
    ∃ m', m.instructionLine c number raw body = (m', none) ∧ At start (data ++ e.bytes) m' := by
  have hfinish : m.segment.finish = start + data.length := by
    rw [h.segment]
    rfl
  obtain ⟨o, hextend, hsingle, -⟩ := h.object.extend e.bytes
  rw [← h.current] at hextend
  simp only [instructionLine, settle, hfinish, hassemble, emit, hextend, bind, Except.bind]
  exact ⟨_, rfl, ⟨hsingle.first, hsingle.later⟩, h.current, h.clean⟩

theorem step_instruction {body : Text} (hcapacity : 80 ≤ c.capacity)
    (hread : LineReads raw (.statement none body)) (hne : body ≠ [])
    (hdot : body.head? ≠ some '.') (h : At start data m) {number : Nat} {e : Encoded}
    (hassemble : (Statement.assemble c body (start + data.length) number).outcome = .ok (e, [])) :
    ∃ m', step c m number raw = (m', none) ∧ At start (data ++ e.bytes) m' := by
  have hempty : ¬ (body.isEmpty = true) := by simpa using hne
  have hat : At start data { m with report := m.report.atLine number } :=
    ⟨h.object, h.current, h.clean⟩
  rw [step_of_reads hcapacity hread, mark, bodyLine, if_neg hempty, if_neg hdot]
  exact instructionLine_of_assemble hat hassemble

/-- The second pass over the label in front of an instruction. -/
theorem emits_label {table : SymbolTable} {sites : List Site} (hlabels : Labelling table sites)
    (hcount : sites.length ≤ 65536) (hcapacity : 80 ≤ c.capacity) (h : At start data m) (a : Int)
    (number : Nat) :
    ∃ m', walkLines (step c) number (labelLines table a) m = (m', none) ∧ At start data m' := by
  rw [labelLines]
  cases hlabel : table.labelAt? a with
  | none => exact ⟨m, rfl, h⟩
  | some name =>
    obtain ⟨⟨k, hk, rfl⟩, -⟩ := hlabels.shape a name hlabel
    obtain ⟨m', hstep, hat⟩ :=
      step_label hcapacity (reads_label (Nat.le_trans hk hcount)) h number
    exact ⟨m', by simp only [walkLines, hstep], hat⟩

/-- The second pass over instructions that tile the bytes behind those put out. -/
theorem emits_sites {table : SymbolTable} {sites : List Site} (hlabels : Labelling table sites)
    (hcount : sites.length ≤ 65536) (hcapacity : 80 ≤ c.capacity)
    (hplaces : Places c.symbols table) {address : Int} {bytes : List UInt8} {rest : List Site}
    (htiled : Tiled address bytes rest) (hread : ∀ s ∈ rest, ∃ body, ReadsBack table s body)
    (haddress : address = start + data.length) (h : At start data m) (number : Nat) :
    ∃ m', walkLines (step c) number
        (rest.flatMap fun s => instructionLines false (Disassembled.ofSite table s)) m = (m', none)
      ∧ At start (data ++ bytes) m' := by
  induction htiled generalizing data m number with
  | nil address => exact ⟨m, rfl, by rwa [List.append_nil]⟩
  | @cons s more rest hcomplete htail ih =>
    obtain ⟨body, hbody⟩ := hread s List.mem_cons_self
    obtain ⟨m₁, hwalk₁, hat₁⟩ := emits_label hlabels hcount hcapacity h s.address number
    obtain ⟨e, hassemble, hbytes⟩ := hbody.bytes c hplaces (by omega)
      (number + (labelLines table s.address).length)
    rw [haddress] at hassemble
    obtain ⟨m₂, hstep₂, hat₂⟩ :=
      step_instruction hcapacity hbody.line hbody.code.1 hbody.code.2 hat₁ hassemble
    rw [hbytes] at hat₂
    have hwalk₂ : walkLines (step c) number
        (instructionLines false (Disassembled.ofSite table s)) m = (m₂, none) := by
      rw [instructionLines_ofSite hlabels, walkLines_append hwalk₁]
      simp only [walkLines, haddress, hstep₂]
    obtain ⟨m₃, hwalk₃, hat₃⟩ := ih (fun t ht => hread t (List.mem_cons_of_mem s ht))
      (by rw [List.length_append]; omega) hat₂
      (number + (instructionLines false (Disassembled.ofSite table s)).length)
    refine ⟨m₃, ?_, ?_⟩
    · rw [List.flatMap_cons, walkLines_append hwalk₂, hwalk₃]
    · rwa [← List.append_assoc]

end Step

end Emission

namespace Disassembler

theorem text_of_single {o : Object} {start : Int} {data : List UInt8}
    (hsegments : o.segments = [⟨start, data⟩]) (hfailure : (derive {} o).failure = none) :
    (text {} o false).2 = .ok (joinLines ((walk start data).flatMap fun s =>
      instructionLines false (Disassembled.ofSite (derive {} o).disassembler.symbols s))) := by
  have hlines : objectLines (derive {} o).disassembler.symbols o false
      = (walk start data).flatMap fun s =>
          instructionLines false (Disassembled.ofSite (derive {} o).disassembler.symbols s) := by
    rw [objectLines, hsegments, List.flatMap_singleton, disassemble_eq_map_walk,
      Option.elim_none, List.flatMap_map]
  simp only [text, lines, hfailure, hlines]
  rfl

end Disassembler

theorem Opcode.mem_branches_of_decode {b : UInt8} {m : Mnemonic} {mode : Mode}
    (h : Opcode.decode b = some (m, mode)) (hbranch : m.isBranch = true) :
    b ∈ Opcode.branches :=
  List.mem_flatMap.mpr ⟨m, List.mem_filter.mpr ⟨m.mem_all, hbranch⟩,
    List.mem_map.mpr ⟨(mode, b), Opcode.mem_opcodes_of_decode h, rfl⟩⟩

/-- No line of a disassembly breaks inside. -/
theorem isBreak_of_mem_lines {table : SymbolTable} {sites : List Site}
    (hlabels : Labelling table sites) (hcount : sites.length ≤ 65536)
    (hread : ∀ s ∈ sites, ∃ body, ReadsBack table s body) {line : Text}
    (hline : line ∈ sites.flatMap fun s => instructionLines false (Disassembled.ofSite table s)) :
    ∀ c ∈ line, Text.isBreak c = false := by
  obtain ⟨s, hs, hline⟩ := List.mem_flatMap.mp hline
  rw [instructionLines_ofSite hlabels, List.mem_append, List.mem_singleton] at hline
  rcases hline with hline | rfl
  · rw [labelLines] at hline
    split at hline
    · rename_i name hlabel
      obtain ⟨⟨k, hk, rfl⟩, -⟩ := hlabels.shape _ _ hlabel
      rw [List.mem_singleton.mp hline]
      exact (reads_label (Nat.le_trans hk hcount)).unbroken
    · cases hline
  · obtain ⟨body, hbody⟩ := hread s hs
    exact hbody.line.unbroken

/-- Both passes over the lines of a disassembly. -/
theorem exists_passes_of_tiled {table : SymbolTable} {start : Int} {data : List UInt8}
    {sites : List Site} (htiled : Tiled start data sites)
    (hrange : 0 ≤ start ∧ start + data.length ≤ 65536) (hlabels : Labelling table sites)
    (hread : ∀ s ∈ sites, ∃ body, ReadsBack table s body) (allow : Bool) (file : String)
    {lines : List Text} (hlines : lines
      = sites.flatMap fun s => instructionLines false (Disassembled.ofSite table s)) :
    ∃ d m, Definitions.run { programStart := start } file lines = (d, none)
      ∧ Emission.run { programStart := start } ⟨d.symbols, 80, allow, file⟩ d.report lines
        = (m, none)
      ∧ Emission.At start data m := by
  have hcount : sites.length ≤ 65536 := by
    have := htiled.length_le
    omega
  have hbefore : Definitions.At start 0 (.start { programStart := start } file) :=
    ⟨⟨rfl, rfl⟩, rfl, rfl⟩
  obtain ⟨d, hdefine, hat, hnamed, hhas, -⟩ := Definitions.defines_sites
    { programStart := start } hlabels hcount htiled hread (by omega) hrange hbefore
    (fun u hu => absurd hu List.not_mem_nil) 1
  have hplaces : Places d.symbols table := by
    refine ⟨fun u hu => ?_, fun a k hk => ?_⟩
    · obtain ⟨k, hk, -⟩ := hnamed u hu
      exact ⟨k, hk⟩
    · obtain ⟨-, s, hs, rfl⟩ := hlabels.shape a _ hk
      exact hhas s hs k hk
  have hbefore' : Emission.At start [] (.start { programStart := start } d.report) :=
    ⟨⟨rfl, rfl⟩, rfl, hat.clean⟩
  obtain ⟨m, hemit, hout⟩ := Emission.emits_sites (c := ⟨d.symbols, 80, allow, file⟩) hlabels
    hcount (Int.le_refl 80) hplaces htiled hread (by simp) hbefore' 1
  rw [hlines]
  exact ⟨d, m, hdefine, hemit, hout⟩

/-- The disassembly of an object with one segment inside the address space, made of
whole documented instructions whose branches stay inside it, is a source of the
object. -/
theorem assemble_disassembled {o : Object} {start : Int} {data : List UInt8}
    (hsegments : o.segments = [⟨start, data⟩]) (hstart : 0 ≤ start)
    (hend : start + data.length ≤ 0x10000)
    (hdocumented : ∀ s ∈ walk start data, Opcode.decode s.opcode ≠ none)
    (hwhole : ∀ s ∈ walk start data, s.isComplete = true)
    (hwrap : ∀ s ∈ walk start data, s.opcode ∈ Opcode.branches → StaysInside s)
    (allow : Bool) (file : String) :
    ∃ source o', (Disassembler.text {} o false).2 = .ok source
      ∧ (Assembly.assemble { programStart := start } allow file source).outcome = .ok o'
      ∧ o'.segments = [⟨start, data⟩] := by
  have htiled := tiled_walk hwhole
  have hsites : sites o = walk start data := by
    rw [sites, hsegments, List.flatMap_singleton]
  obtain ⟨hfailure, hlabels⟩ := labelling_derive (o := o) <| by
    intro s hs
    rw [hsites] at hs
    have := htiled.le_address hs
    omega
  rw [hsites] at hlabels
  have hcount : (walk start data).length ≤ 65536 := by
    have := htiled.length_le
    omega
  have hread : ∀ s ∈ walk start data,
      ∃ body, ReadsBack (derive {} o).disassembler.symbols s body := by
    intro s hs
    obtain ⟨⟨m, mode⟩, hdecode⟩ := Option.ne_none_iff_exists'.mp (hdocumented s hs)
    exact exists_readsBack hlabels hcount hdecode (hwhole s hs)
      fun hbranch => hwrap s hs (Opcode.mem_branches_of_decode hdecode hbranch)
  have htext := text_of_single hsegments hfailure
  cases data with
  | nil =>
    -- one blank line, which does nothing
    exact ⟨_, _, htext, rfl, rfl⟩
  | cons b rest =>
    have hlines : Text.lines (joinLines ((walk start (b :: rest)).flatMap fun s =>
          instructionLines false (Disassembled.ofSite (derive {} o).disassembler.symbols s)))
        = (walk start (b :: rest)).flatMap fun s =>
          instructionLines false (Disassembled.ofSite (derive {} o).disassembler.symbols s) := by
      refine Text.lines_joinWith ?_ fun l hl => isBreak_of_mem_lines hlabels hcount hread hl
      rw [walk, walkFrom, List.flatMap_cons, instructionLines_ofSite hlabels]
      simp
    obtain ⟨d, m, hdefine, hemit, hout⟩ :=
      exists_passes_of_tiled htiled ⟨hstart, hend⟩ hlabels hread allow file hlines
    exact ⟨_, _, htext, Assembly.assemble_of_passes hdefine hemit hout.clean,
      hout.object.segments⟩

/-- A countdown, an accumulator shift, an indexed store and two jumps, with labels in
front of three of the instructions. -/
theorem assemble_disassembled_countdown :
    ∃ source o', (Disassembler.text {} { first := ⟨0x600, [0xA2, 5, 0xCA, 0xD0, 0xFD, 0x0A, 0x9D, 0,
          2, 0x6C, 0, 6, 0x4C, 5, 6]⟩ } false).2 = .ok source
      ∧ (Assembly.assemble { programStart := 0x600 } false "loop.s" source).outcome = .ok o'
      ∧ o'.segments = [⟨0x600, [0xA2, 5, 0xCA, 0xD0, 0xFD, 0x0A, 0x9D, 0, 2, 0x6C, 0, 6,
          0x4C, 5, 6]⟩] :=
  assemble_disassembled rfl (by decide) (by decide) (by decide) (by decide)
    (by unfold StaysInside; decide) false "loop.s"

end Cross6502
