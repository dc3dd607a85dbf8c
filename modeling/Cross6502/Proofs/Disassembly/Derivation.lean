import Cross6502.Proofs.Disassembly.Partition

/-!
# Deriving labels

Labels are derived while the table grows: whether a target needs a label is looked up in the
table as it is after the labels before.  What the walk over an object does as a whole is read
off one step.  A step adds at most one label, with the next number, at a target that begins an
instruction and has no label, and leaves all other places alone.

So the numbers are handed out one after another, no place gets two labels, and in the end no
target lacks one (`Derives`).  The one thing that can go wrong is that the table has a label of
a coming number already, and a table where it has none is `Fresh`.  It stays so.
-/

namespace Cross6502

theorem SymbolTable.labelAt?_of_insert_self {t t' : SymbolTable} {s : Symbol}
    (h : t.insert s = .ok t') (hlabel : s.isLabel = true) (hnone : t.labelAt? s.address = none) :
    t'.labelAt? s.address = some s.name := by
  obtain ⟨above, below, hold, hnew⟩ := exists_append_of_insert h
  rw [labelAt?, hold, Option.map_eq_none_iff, List.find?_append, Option.or_eq_none_iff] at hnone
  rw [labelAt?, hnew, List.find?_append, hnone.1, Option.none_or, List.find?_cons, beq_self_eq_true,
    hlabel]
  rfl

namespace Disassembler

theorem labelName_ne_nil (k : Nat) : labelName k ≠ [] := List.cons_ne_nil _ _

/-! ## One step -/

/-- No symbol has the name of a label that is still to come. -/
def Fresh (d : Disassembler) : Prop :=
  ∀ u ∈ d.symbols.symbols, ∀ k, d.nextLabel ≤ k → u.name ≠ labelName k

/-- The disassembler after it has put its next label into the table. -/
def withNext (d : Disassembler) (table : SymbolTable) : Disassembler where
  symbols := table
  nextLabel := d.nextLabel + 1

/-- The label that a disassembler makes up next. -/
def next (d : Disassembler) (target : Int) : Symbol := .ofLabel (labelName d.nextLabel) target 0

section Step

variable {d : Disassembler} {starts : List Int} {s : Site} {target : Int} {table : SymbolTable}

theorem Fresh.exists_add (h : d.Fresh) (target : Int) :
    ∃ table, d.symbols.insert (d.next target) = .ok table := by
  refine SymbolTable.insert_of_find?_eq_none (List.find?_eq_none.mpr ?_)
  intro u hu hname
  have heq : u.name = (d.next target).name := by simpa using hname
  exact h u hu d.nextLabel (Nat.le_refl _) heq

theorem Fresh.withNext (h : d.Fresh) (hadd : d.symbols.insert (d.next target) = .ok table) :
    (d.withNext table).Fresh := by
  intro u hu k hk hname
  have hlt : d.nextLabel < k := hk
  rcases (SymbolTable.mem_symbols_of_insert hadd).mp hu with rfl | hu
  · exact absurd (labelName_inj hname) (Nat.ne_of_lt hlt)
  · exact h u hu k (Nat.le_of_lt hlt) hname

theorem deriveFrom_cons_of_none (hmissing : d.missingLabel? starts s = none) (rest : List Site) :
    deriveFrom starts d (s :: rest) = deriveFrom starts d rest := by
  rw [deriveFrom, hmissing]

theorem deriveFrom_cons_of_some (hmissing : d.missingLabel? starts s = some target)
    (hadd : d.symbols.insert (d.next target) = .ok table) (rest : List Site) :
    deriveFrom starts d (s :: rest) =
      { deriveFrom starts (d.withNext table) rest with
        added := d.next target :: (deriveFrom starts (d.withNext table) rest).added
        log := .added (d.next target) :: .synthesized (labelName d.nextLabel) target
          :: (deriveFrom starts (d.withNext table) rest).log } :=
  deriveFrom_of_missing hmissing hadd rfl

/-- A label is put where it is missing. -/
theorem address_next (hmissing : d.missingLabel? starts s = some target) :
    (d.next target).address = target := by
  have hbounds := target?_bounds (missingLabel?_eq_some_iff.mp hmissing).1
  change target % 65536 = target
  omega

theorem labelAt?_withNext (hmissing : d.missingLabel? starts s = some target)
    (hadd : d.symbols.insert (d.next target) = .ok table) :
    (d.withNext table).symbols.labelAt? target = some (labelName d.nextLabel) := by
  have hself := SymbolTable.labelAt?_of_insert_self hadd rfl (by
    rw [address_next hmissing]
    exact (missingLabel?_eq_some_iff.mp hmissing).2.2)
  rwa [address_next hmissing] at hself

end Step

/-- A place that has a label keeps it. -/
theorem Extends.labelAt?_eq_some {starts : List Int} {t t' : SymbolTable} (h : Extends starts t t')
    {a : Int} {name : Text} (ha : t.labelAt? a = some name) : t'.labelAt? a = some name := by
  rcases h.labelAt? a with heq | ⟨hnone, -⟩
  · rw [heq, ha]
  · rw [hnone] at ha
    cases ha

/-! ## A whole run -/

/-- What deriving labels for sites does, from a disassembler on. -/
structure Derives (starts : List Int) (d : Disassembler) (sites : List Site) (r : Derivation) :
    Prop where
  failure : r.failure = none
  /-- The labels are numbered one after another. -/
  names : r.added.map Symbol.name = (List.range' d.nextLabel r.added.length).map labelName
  /-- No place gets two labels. -/
  nodup : (r.added.map Symbol.address).Nodup
  /-- A label stands at the beginning of an instruction, to which control is passed and which
  had none. -/
  needed : ∀ u ∈ r.added, u.address ∈ starts ∧ d.symbols.labelAt? u.address = none
    ∧ ∃ s ∈ sites, target? s = some u.address
  /-- It is the label of its place. -/
  marked : ∀ u ∈ r.added, r.disassembler.symbols.labelAt? u.address = some u.name
  /-- There are no other new labels. -/
  only : ∀ a name, r.disassembler.symbols.labelAt? a = some name →
    d.symbols.labelAt? a = some name ∨ ∃ u ∈ r.added, u.address = a ∧ u.name = name
  /-- No target lacks a label. -/
  complete : ∀ s ∈ sites, r.disassembler.missingLabel? starts s = none

theorem Derives.exists_labelName {starts : List Int} {d : Disassembler} {sites : List Site}
    {r : Derivation} (h : Derives starts d sites r) {u : Symbol} (hu : u ∈ r.added) :
    ∃ k, u.name = labelName k := by
  have hname : u.name ∈ r.added.map Symbol.name := List.mem_map_of_mem hu
  rw [h.names] at hname
  obtain ⟨k, -, hk⟩ := List.mem_map.mp hname
  exact ⟨k, hk.symm⟩

theorem missingLabel?_eq_none_of_labelAt? {d : Disassembler} {s : Site} {a : Int} {name : Text}
    (htarget : target? s = some a) (ha : d.symbols.labelAt? a = some name) (starts : List Int) :
    d.missingLabel? starts s = none := by
  rw [missingLabel?, htarget]
  simp [ha]

/-- Once no label is missing at a site, none is missing there later. -/
theorem Extends.missingLabel?_eq_none {starts : List Int} {d d' : Disassembler}
    (h : Extends starts d.symbols d'.symbols) {s : Site} (hs : d.missingLabel? starts s = none) :
    d'.missingLabel? starts s = none := by
  by_contra hmissing
  obtain ⟨a, ha⟩ := Option.ne_none_iff_exists'.mp hmissing
  obtain ⟨htarget, hmem, hnone⟩ := missingLabel?_eq_some_iff.mp ha
  cases hlabel : d.symbols.labelAt? a with
  | none =>
    rw [missingLabel?_eq_some_iff.mpr ⟨htarget, hmem, hlabel⟩] at hs
    cases hs
  | some name =>
    rw [h.labelAt?_eq_some hlabel] at hnone
    cases hnone

theorem derives_deriveFrom (starts : List Int) {d : Disassembler} (hfresh : d.Fresh)
    (sites : List Site) : Derives starts d sites (deriveFrom starts d sites) := by
  induction sites generalizing d with
  | nil =>
    exact ⟨rfl, rfl, List.nodup_nil, by simp [deriveFrom], by simp [deriveFrom],
      fun a name h => .inl h, by simp⟩
  | cons s rest ih =>
    cases hmissing : d.missingLabel? starts s with
    | none =>
      rw [deriveFrom_cons_of_none hmissing]
      have hrest := ih hfresh
      refine { hrest with needed := fun u hu => ?_, complete := ?_ }
      · obtain ⟨hmem, hnone, p, hp, htarget⟩ := hrest.needed u hu
        exact ⟨hmem, hnone, p, List.mem_cons_of_mem s hp, htarget⟩
      · have hextends := extends_deriveFrom starts d rest
        exact List.forall_mem_cons.mpr ⟨hextends.missingLabel?_eq_none hmissing, hrest.complete⟩
    | some target =>
      obtain ⟨table, hadd⟩ := hfresh.exists_add target
      obtain ⟨htarget, hmem, hnone⟩ := missingLabel?_eq_some_iff.mp hmissing
      have hrest := ih (hfresh.withNext hadd)
      have hfirst : Extends starts d.symbols (d.withNext table).symbols :=
        extends_add hmissing hadd
      have hextends := extends_deriveFrom starts (d.withNext table) rest
      have haddress := address_next hmissing
      have hlabel := labelAt?_withNext hmissing hadd
      rw [deriveFrom_cons_of_some hmissing hadd]
      refine ⟨hrest.failure, ?_, ?_, ?_, ?_, ?_, ?_⟩
      · rw [List.map_cons, hrest.names, List.length_cons, List.range'_succ, List.map_cons]
        rfl
      · rw [List.map_cons, List.nodup_cons]
        refine ⟨fun hu => ?_, hrest.nodup⟩
        -- a later label stands where there was none, and here there is one
        obtain ⟨v, hv, heq⟩ := List.mem_map.mp hu
        have hlater := (hrest.needed v hv).2.1
        rw [heq, haddress, hlabel] at hlater
        cases hlater
      · refine List.forall_mem_cons.mpr ⟨?_, fun v hv => ?_⟩
        · rw [haddress]
          exact ⟨hmem, hnone, s, List.mem_cons_self, htarget⟩
        · obtain ⟨hstart, hlater, p, hp, hgoes⟩ := hrest.needed v hv
          refine ⟨hstart, ?_, p, List.mem_cons_of_mem s hp, hgoes⟩
          by_contra hold
          obtain ⟨name, hname⟩ := Option.ne_none_iff_exists'.mp hold
          rw [hfirst.labelAt?_eq_some hname] at hlater
          cases hlater
      · refine List.forall_mem_cons.mpr ⟨?_, hrest.marked⟩
        rw [haddress]
        exact hextends.labelAt?_eq_some hlabel
      · intro a name ha
        rcases hrest.only a name ha with hname | ⟨u, hu, hplace⟩
        · by_cases heq : a = target
          · subst heq
            rw [hlabel] at hname
            exact .inr ⟨_, List.mem_cons_self, haddress, Option.some_inj.mp hname⟩
          · rw [← haddress] at heq
            exact .inl ((SymbolTable.labelAt?_of_insert_of_ne hadd heq).symm.trans hname)
        · exact .inr ⟨u, List.mem_cons_of_mem _ hu, hplace⟩
      · refine List.forall_mem_cons.mpr ⟨?_, hrest.complete⟩
        exact missingLabel?_eq_none_of_labelAt? htarget (hextends.labelAt?_eq_some hlabel) starts

/-- Where no label is missing none is added. -/
theorem deriveFrom_of_no_missing {starts : List Int} {d : Disassembler} {sites : List Site}
    (h : ∀ s ∈ sites, d.missingLabel? starts s = none) :
    deriveFrom starts d sites = ⟨d, [], [], none⟩ := by
  induction sites with
  | nil => rfl
  | cons s rest ih =>
    obtain ⟨hs, hrest⟩ := List.forall_mem_cons.mp h
    rw [deriveFrom_cons_of_none hs, ih hrest]

/-! ## Showing the labels -/

theorem label_mem_shown {t : SymbolTable} {o : Object} {s : Site} {name : Text}
    (hs : s ∈ sites o) (h : t.labelAt? s.address = some name) (hne : name ≠ []) :
    Shown.label s.address name ∈ shown t o := by
  have hshown : shownLabel? t s.address = some name := by
    rw [shownLabel?, h, Option.filter_some, if_pos (by simpa using hne)]
  refine List.mem_flatMap.mpr ⟨s, hs, ?_⟩
  rw [siteShown, hshown]
  exact List.mem_cons_self

theorem lines_of_failure_eq_none {d : Disassembler} {o : Object}
    (h : (d.derive o).failure = none) (annotate : Bool) :
    (d.lines o annotate).2
      = .ok ((shown (d.derive o).disassembler.symbols o).map (Shown.text annotate)) := by
  unfold Disassembler.lines
  simp only [h, objectLines_eq]

/-- **Labels are derived completely, sparingly and once.**  From a table without the labels to
come, deriving does not fail.  The labels it adds are numbered one after another and stand at
different places, each the target of a branch, jump or call, the beginning of an instruction
and without a label before.  Afterwards every whole branch, jump or call to the beginning of an
instruction goes to a label, each label that was added has its line where the object is shown,
and deriving again changes nothing. -/
theorem derive_complete_minimal {d : Disassembler} (hfresh : d.Fresh) (o : Object) :
    (d.derive o).failure = none
      ∧ (d.derive o).added.map Symbol.name
        = (List.range' d.nextLabel (d.derive o).added.length).map labelName
      ∧ ((d.derive o).added.map Symbol.address).Nodup
      ∧ (∀ u ∈ (d.derive o).added, (∃ s ∈ sites o, s.address = u.address)
        ∧ d.symbols.labelAt? u.address = none ∧ ∃ s ∈ sites o, target? s = some u.address)
      ∧ (∀ s ∈ sites o, s.opcode ∈ Opcode.transfers → s.isComplete = true →
        ∃ a, transferTarget s.opcode.toNat s.operand s.address = .ok a
          ∧ ((∃ p ∈ sites o, p.address = a) →
            ∃ name, (d.derive o).disassembler.symbols.labelAt? a = some name))
      ∧ (∀ annotate, ∃ lines, (d.lines o annotate).2 = .ok lines
        ∧ ((d.derive o).disassembler.lines o annotate).2 = .ok lines
        ∧ ∀ u ∈ (d.derive o).added, Shown.text annotate (.label u.address u.name) ∈ lines)
      ∧ (d.derive o).disassembler.derive o = ⟨(d.derive o).disassembler, [], [], none⟩ := by
  have hderives := derives_deriveFrom ((sites o).map Site.address) hfresh (sites o)
  have hagain : (d.derive o).disassembler.derive o = ⟨(d.derive o).disassembler, [], [], none⟩ :=
    deriveFrom_of_no_missing hderives.complete
  refine ⟨hderives.failure, hderives.names, hderives.nodup, ?_, ?_, ?_, hagain⟩
  · intro u hu
    obtain ⟨hmem, hnone, htarget⟩ := hderives.needed u hu
    exact ⟨List.mem_map.mp hmem, hnone, htarget⟩
  · intro s hs hmem hcomplete
    obtain ⟨a, ha⟩ := s.exists_transferTarget hmem hcomplete
    refine ⟨a, ha, fun hstart => Option.ne_none_iff_exists'.mp fun hnone => ?_⟩
    have hmissing := missingLabel?_eq_some_iff.mpr
      ⟨target?_eq_some_iff.mpr ⟨hmem, hcomplete, ha⟩, List.mem_map.mpr hstart, hnone⟩
    have hpresent := hderives.complete s hs
    rw [← derive, hmissing] at hpresent
    cases hpresent
  · intro annotate
    have hlines := lines_of_failure_eq_none hderives.failure annotate
    refine ⟨_, hlines, ?_, fun u hu => List.mem_map_of_mem ?_⟩
    · rw [lines_of_failure_eq_none (by rw [hagain]), hagain]
    · obtain ⟨s, hs, haddress⟩ := List.mem_map.mp (hderives.needed u hu).1
      obtain ⟨k, hk⟩ := hderives.exists_labelName hu
      have hmarked := hderives.marked u hu
      rw [← haddress] at hmarked ⊢
      exact label_mem_shown hs hmarked (hk ▸ labelName_ne_nil k)

/-- A program in two segments that go to each other. -/
def twoSegments : Object where
  first := ⟨0x600, [0x4C, 0x00, 0x07, 0xD0, 0xFB, 0xF0, 0x00]⟩
  later := [⟨0x700, [0x20, 0x03, 0x06, 0x60]⟩]

/-- A disassembler that was given a label for the first segment and a variable for the
second. -/
def acquainted : Disassembler where
  symbols := ⟨"given", [.ofVariable "count".toList 0x700 1 none, .ofLabel "main".toList 0x600 2]⟩

theorem fresh_acquainted : acquainted.Fresh := by
  have hhead : ∀ u ∈ acquainted.symbols.symbols, u.name.head? ≠ some 'L' := by decide
  intro u hu k _ hname
  exact hhead u hu (by rw [hname]; rfl)

theorem derive_complete_minimal_twoSegments :
    acquainted.Fresh
      ∧ (acquainted.derive twoSegments).added
        = [.ofLabel "Label1".toList 0x700 0, .ofLabel "Label2".toList 0x603 0]
      ∧ (acquainted.lines twoSegments false).2 = .ok ["main:".toList, "\tjmp Label1".toList,
          "Label2:".toList, "\tbne main".toList, "\tbeq $00".toList, "Label1:".toList,
          "\tjsr Label2".toList, "\trts".toList]
      ∧ ((acquainted.derive twoSegments).disassembler.derive twoSegments).added = [] := by
  obtain ⟨-, -, -, -, -, -, hagain⟩ := derive_complete_minimal fresh_acquainted twoSegments
  exact ⟨fresh_acquainted, rfl, rfl, by rw [hagain]⟩

end Disassembler

end Cross6502
