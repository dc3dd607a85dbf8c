import Cross6502.Proofs.Link.ThroughFiles
import Cross6502.Proofs.Link.Sites
import Cross6502.Proofs.Link.Union

/-!
# Why a link is refused

Four things can be wrong with the inputs of a link.  Two of them give a name different
addresses.  A reference names a segment that its object lacks, or a name that no input
defines, or it is a branch whose target is too far away once its address is known.  Each
has an error of its own (`Refusal`).  Besides, a symbol is told when it is put into the merged
table, and its line may have more digits than are written (`firstSymbol?`).  As long as every
operand lies in its segment there is nothing else: a link fails exactly if one of the five is
the case (`link_fails_iff`).

The linker looks at the inputs in order and stops at the first error, after it has filled
in the operands in front of it.  Neither matters.  What a reference needs depends on its
object and on the merged table only, and that table is complete before the first operand is
filled in; filling one in keeps the length of the image, so it leaves room for the others.

An error is raised with a message.  Where a number in it, the distance of a branch for one,
has more digits than are ever written, the message cannot be made, and that is the failure
instead (`link_fails_to_write`).
-/

namespace Cross6502

/-- The error is one of the linker's own. -/
def Failure.isLinkError : Failure → Bool
  | .link _ | .unresolved _ _ => true
  | .source e =>
      match e.cause with
      | .conflictingSymbol _ _ => true
      | _ => false
  | _ => false

/-- The segment that a reference of an object names, if there is one. -/
def Object.segmentOf? (o : Object) (r : Reference) : Option Segment :=
  if 0 ≤ r.segment then o.segments[r.segment.toNat]? else none

namespace Link

/-! ## What can be wrong -/

section Inputs

variable (objects : List Object)

/-- Two inputs give a name different addresses. -/
def DisagreeOn (name : Text) : Prop :=
  ∃ o ∈ objects, ∃ o' ∈ objects, ∃ a ∈ o.addressOf? name, ∃ b ∈ o'.addressOf? name, a ≠ b

/-- The distance that a branch has to cover, from the byte behind its operand to the address
that an input gives its target. -/
def Distance (o : Object) (r : Reference) (d : Int) : Prop :=
  r.mode = .relative ∧ ∃ g ∈ o.segmentOf? r, ∃ o' ∈ objects, ∃ a ∈ o'.addressOf? r.name,
    d = a - (g.start + r.offset + 1)

/-- An error of a link, and what is wrong with the inputs. -/
inductive Refusal : Failure → Prop
  | conflict {name : Text} (h : DisagreeOn objects name) (first second : Location) :
      Refusal (.source { cause := .conflictingSymbol name first, location := some second })
  | missingSegment {o : Object} (ho : o ∈ objects) {r : Reference} (hr : r ∈ o.references)
      (h : o.segmentOf? r = none) (input : String) :
      Refusal (.link (.missingSegment input r.line r.name r.segment))
  | unresolved {o : Object} (ho : o ∈ objects) {r : Reference} (hr : r ∈ o.references)
      (h : ∀ o' ∈ objects, o'.addressOf? r.name = none) (input : String) :
      Refusal (.unresolved r.name (some { file := input, line := r.line }))
  | branchRange {o : Object} (ho : o ∈ objects) {r : Reference} (hr : r ∈ o.references) {d : Int}
      (hd : Distance objects o r d) (h : ¬ (-128 ≤ d ∧ d ≤ 127)) (input : String) :
      Refusal (.link (.branchRange input r.line r.name d))

/-- The symbol that the first input to define a name has for it. -/
def firstSymbol? (name : Text) : Option Symbol :=
  objects.findSome? fun o => o.symbols.bind fun t => t.find? name

/-- Nothing is wrong with a reference of an object. -/
structure Resolvable (o : Object) (r : Reference) : Prop where
  segment : o.segmentOf? r ≠ none
  name : ∃ o' ∈ objects, o'.addressOf? r.name ≠ none
  reach : ∀ d, Distance objects o r d → -128 ≤ d ∧ d ≤ 127

end Inputs

theorem Refusal.isLinkError {objects : List Object} {f : Failure} (h : Refusal objects f) :
    f.isLinkError = true := by
  cases h <;> rfl

/-! ## Merging -/

section Merge

variable {objects : List Object} {names : List String}

/-- What the tables of the inputs define is what the inputs define. -/
theorem exists_table_iff (hnames : objects.length ≤ names.length) (name : Text) (a : Int) :
    (∃ i ∈ (names.zip objects).filterMap fun i => i.2.symbols.map (i.1, ·),
        i.2.addressOf? name = some a)
      ↔ ∃ o ∈ objects, o.addressOf? name = some a := by
  constructor
  · rintro ⟨i, hi, ha⟩
    obtain ⟨⟨input, o⟩, ho, hsymbols⟩ := List.mem_filterMap.mp hi
    obtain ⟨t, ht, rfl⟩ := Option.map_eq_some_iff.mp hsymbols
    refine ⟨o, (List.of_mem_zip ho).2, ?_⟩
    rw [Object.addressOf?, ht]
    exact ha
  · rintro ⟨o, ho, ha⟩
    rw [← List.map_snd_zip hnames] at ho
    obtain ⟨⟨input, o'⟩, hzip, rfl⟩ := List.mem_map.mp ho
    obtain ⟨t, ht, ha⟩ := Option.bind_eq_some_iff.mp ha
    exact ⟨(input, t), List.mem_filterMap.mpr ⟨_, hzip, by rw [ht]; rfl⟩, ha⟩

/-- The first definition of a name is that of the tables of the inputs. -/
theorem map_firstDefinition? (hnames : objects.length ≤ names.length) (name : Text) :
    (firstDefinition? name
        ((names.zip objects).filterMap fun i => i.2.symbols.map (i.1, ·))).map Prod.snd
      = firstSymbol? objects name := by
  induction objects generalizing names with
  | nil =>
    rw [List.zip_nil_right]
    rfl
  | cons o objects ih =>
    cases names with
    | nil => cases hnames
    | cons input names =>
      have hrest := ih (Nat.le_of_succ_le_succ hnames)
      rw [firstSymbol?, List.findSome?_cons, List.zip_cons_cons, List.filterMap_cons]
      cases hsymbols : o.symbols with
      | none => exact hrest
      | some t =>
        simp only [Option.map_some, Option.bind_some, firstDefinition?]
        cases t.find? name with
        | none => exact hrest
        | some u => rfl

/-- Merging goes through, with the addresses that the inputs give and with lines that can be
told, or it is refused because two inputs disagree, or because a line cannot be told. -/
theorem addObjects_cases (hnames : objects.length ≤ names.length)
    (htables : ∀ o ∈ objects, ∀ t ∈ o.symbols, t.NamesNodup) :
    (∃ m, (Merged.addObjects {} objects names).outcome = .ok m
      ∧ (∀ name a, m.table.addressOf? name = some a ↔ ∃ o ∈ objects, o.addressOf? name = some a)
      ∧ ∀ name, ∀ u ∈ firstSymbol? objects name, Text.isWritable u.line = true)
    ∨ (∃ name first second, DisagreeOn objects name
      ∧ (Merged.addObjects {} objects names).outcome
        = .error (Failure.source { cause := .conflictingSymbol name first
                                   location := some second }).worded)
    ∨ (∃ name, ∃ u ∈ firstSymbol? objects name, Text.isWritable u.line = false)
      ∧ (Merged.addObjects {} objects names).outcome = .error (.value .tooLongToWrite) := by
  have hnodup : ∀ i ∈ (names.zip objects).filterMap fun i => i.2.symbols.map (i.1, ·),
      i.2.NamesNodup := by
    intro i hi
    obtain ⟨⟨input, o⟩, ho, hsymbols⟩ := List.mem_filterMap.mp hi
    obtain ⟨t, ht, rfl⟩ := Option.map_eq_some_iff.mp hsymbols
    exact htables o (List.of_mem_zip ho).2 t ht
  have hfirstSymbol := map_firstDefinition? hnames
  have hdefined := exists_table_iff hnames
  rw [Merged.addObjects_eq_addTables _ _ _ hnames]
  generalize (names.zip objects).filterMap (fun i => i.2.symbols.map (i.1, ·)) = inputs
    at hnodup hfirstSymbol hdefined
  cases houtcome : (Merged.addTables {} inputs).outcome with
  | ok m =>
    refine .inl ⟨m, rfl, fun name a => ?_, fun name u hu => ?_⟩
    · rw [Merged.addressOf?_addTables houtcome, hdefined]
    · rw [← hfirstSymbol] at hu
      obtain ⟨d, hd, rfl⟩ := Option.map_eq_some_iff.mp hu
      exact ((Merged.addTables_succeeds_iff hnodup).mp ⟨m, houtcome⟩).2 name d hd
  | error f =>
    rcases Merged.cases_of_addTables_error hnodup houtcome with
      ⟨before, file, s, between, input, t, after, u, first, hinputs, hu, -, hfind, hne, rfl⟩
      | ⟨before, input, t, after, u, hinputs, hu, hnone, hline, rfl⟩
    · have hs : (file, s) ∈ inputs := by
        rw [hinputs]
        simp
      have ht : (input, t) ∈ inputs := by
        rw [hinputs]
        simp
      have hfirst : s.addressOf? u.name = some first.address := by
        rw [SymbolTable.addressOf?, hfind]
        rfl
      have hsecond : t.addressOf? u.name = some u.address :=
        (SymbolTable.addressOf?_eq_some_iff (hnodup _ ht)).mpr ⟨u, hu, rfl, rfl⟩
      obtain ⟨o, ho, ha⟩ := (hdefined u.name _).mp ⟨_, hs, hfirst⟩
      obtain ⟨o', ho', hb⟩ := (hdefined u.name _).mp ⟨_, ht, hsecond⟩
      exact .inr (.inl ⟨u.name, _, _, ⟨o, ho, o', ho', _, ha, _, hb, hne⟩, rfl⟩)
    · have hfind : t.find? u.name = some u :=
        (SymbolTable.find?_eq_some_iff (hnodup (input, t) (by rw [hinputs]; simp))).mpr ⟨hu, rfl⟩
      refine .inr (.inr ⟨⟨u.name, u, ?_, hline⟩, rfl⟩)
      rw [← hfirstSymbol, hinputs, Merged.firstDefinition?_append, hnone, firstDefinition?, hfind]
      rfl

end Merge

/-! ## One operand -/

theorem exists_writeBytes {image bytes : List UInt8} {n : Nat}
    (h : n + bytes.length ≤ image.length) :
    ∃ image', writeBytes image (n : Int) bytes = .ok image' := by
  induction bytes generalizing image n with
  | nil => exact ⟨image, rfl⟩
  | cons b bytes ih =>
    rw [List.length_cons] at h
    have hroom : (n + 1) + bytes.length ≤ (image.set n b).length := by
      rw [List.length_set]
      omega
    obtain ⟨image', hrest⟩ := ih hroom
    refine ⟨image', Outcome.bind_eq_ok_iff.mpr ⟨image.set n b, ?_, hrest⟩⟩
    rw [writeByte, position?_of_lt (by omega)]

/-- An operand inside the image is filled in if its name has an address that is near enough
for a branch. -/
theorem exists_patch {table : SymbolTable} {r : Reference} {offset site a : Int}
    {image : List UInt8} (ha : table.addressOf? r.name = some a) (hstart : 0 ≤ offset)
    (hend : offset + r.width ≤ image.length)
    (hreach : r.mode = .relative → Replacement.reaches (a - (site + 1)) = true)
    (input : String) :
    ∃ image', (patch table input r offset site image).outcome = .ok image'
      ∧ image'.length = image.length := by
  obtain ⟨bytes, hbytes⟩ : ∃ bytes, patchBytes input r a site = .ok bytes := by
    rw [patchBytes]
    split
    · rename_i hmode
      exact ⟨_, if_pos (hreach hmode)⟩
    · split <;> exact ⟨_, rfl⟩
  obtain ⟨n, rfl⟩ := Int.eq_ofNat_of_zero_le hstart
  have hlength := (holds_of_patchBytes hbytes).length_eq
  obtain ⟨image', hwrite⟩ := exists_writeBytes (show n + bytes.length ≤ image.length by omega)
  refine ⟨image', ?_, length_writeBytes hwrite⟩
  rw [patch_outcome, ha]
  simp only [if_neg (show ¬ (image.length : Int) < (n : Int) + r.width by omega), hbytes]
  exact hwrite

theorem patch_of_far {table : SymbolTable} {r : Reference} {offset site a : Int}
    {image : List UInt8} (ha : table.addressOf? r.name = some a)
    (hend : offset + r.width ≤ image.length) (hmode : r.mode = .relative)
    (hfar : Replacement.reaches (a - (site + 1)) = false) (input : String) :
    (patch table input r offset site image).outcome
      = .error (Failure.link (.branchRange input r.line r.name (a - (site + 1)))).worded := by
  rw [patch_outcome, ha]
  simp only [if_neg (show ¬ (image.length : Int) < offset + r.width by omega), patchBytes,
    if_pos hmode, hfar]
  rfl

/-! ## Resolving -/

theorem map_segment_home? (n : Nat) (o : Object) (r : Reference) :
    (home? n o r).map Placed.segment = o.segmentOf? r := by
  rw [home?, Object.segmentOf?]
  split
  · rw [← List.getElem?_map, map_segment_placedSegments]
  · rfl

/-- A segment ends inside its object. -/
theorem offset_add_size_le {n : Nat} {segments : List Segment} {p : Placed}
    (hp : p ∈ placedSegments n segments) :
    p.offset + p.segment.size ≤ n + (segments.flatMap Segment.data).length := by
  induction segments generalizing n with
  | nil => cases hp
  | cons g rest ih =>
    rw [List.flatMap_cons, List.length_append, ← Nat.add_assoc]
    rcases List.mem_cons.mp hp with rfl | hp
    · exact Nat.le_add_right _ _
    · exact ih hp

section Resolve

variable {objects : List Object} {table : SymbolTable} (input : String) {n : Nat} {o : Object}
  {image : List UInt8}
  (htable : ∀ name a, table.addressOf? name = some a ↔ ∃ o ∈ objects, o.addressOf? name = some a)
include htable

/-- A reference of an input is filled in and nothing is wrong with it, or it is refused. -/
theorem resolveReference_cases (ho : o ∈ objects) {r : Reference} (hr : r ∈ o.references)
    (hinside : ∀ g ∈ o.segmentOf? r, 0 ≤ r.offset ∧ r.offset + r.width ≤ g.size)
    (hroom : n + o.size ≤ image.length) :
    (∃ image', (resolveReference table input o (segmentOffsets n o.segments) image r).outcome
          = .ok image'
        ∧ image'.length = image.length ∧ Resolvable objects o r)
      ∨ ∃ f, (resolveReference table input o (segmentOffsets n o.segments) image r).outcome
          = .error f.worded ∧ Refusal objects f := by
  have hsegment := map_segment_home? n o r
  rw [resolveReference_eq]
  cases hhome : home? n o r with
  | none =>
    rw [hhome] at hsegment
    exact .inr ⟨_, rfl, .missingSegment ho hr hsegment.symm input⟩
  | some p =>
    rw [hhome] at hsegment
    cases ha : table.addressOf? r.name with
    | none =>
      have hundefined : ∀ o' ∈ objects, o'.addressOf? r.name = none := by
        intro o' ho'
        refine Option.eq_none_iff_forall_ne_some.mpr fun a ha' => ?_
        have hfound := (htable r.name a).mpr ⟨o', ho', ha'⟩
        rw [ha] at hfound
        cases hfound
      refine .inr ⟨_, ?_, .unresolved ho hr hundefined input⟩
      rw [patch_outcome, ha]
    | some a =>
      obtain ⟨o', ho', ha'⟩ := (htable r.name a).mp ha
      obtain ⟨hstart, hend⟩ := hinside p.segment hsegment.symm
      have hplaced : p.offset + p.segment.size ≤ n + o.size := by
        rw [home?] at hhome
        split at hhome
        · exact offset_add_size_le (List.mem_of_getElem? hhome)
        · cases hhome
      have hend : (p.offset : Int) + r.offset + r.width ≤ image.length := by omega
      by_cases hfar : r.mode = .relative
          ∧ Replacement.reaches (a - (p.segment.start + r.offset + 1)) = false
      · refine .inr ⟨_, patch_of_far ha hend hfar.1 hfar.2 input, .branchRange ho hr
          ⟨hfar.1, p.segment, hsegment.symm, o', ho', a, ha', rfl⟩ ?_ input⟩
        rw [← Replacement.reaches_iff, hfar.2]
        exact Bool.false_ne_true
      · have hreach : r.mode = .relative →
            Replacement.reaches (a - (p.segment.start + r.offset + 1)) = true := by
          intro hmode
          exact Bool.of_not_eq_false fun h => hfar ⟨hmode, h⟩
        obtain ⟨image', hpatch, hlength⟩ := exists_patch ha (by omega) hend hreach input
        refine .inl ⟨image', hpatch, hlength, ?_, ⟨o', ho', ?_⟩, ?_⟩
        · rw [← hsegment]
          exact Option.some_ne_none _
        · rw [ha']
          exact Option.some_ne_none _
        · -- the merged table has one address for the name, so there is one distance
          rintro d ⟨hmode, g, hg, o'', ho'', b, hb, rfl⟩
          have hseg : p.segment = g := Option.some.inj (hsegment.trans hg)
          have haddress : a = b :=
            Option.some.inj (ha.symm.trans ((htable r.name b).mpr ⟨o'', ho'', hb⟩))
          rw [← hseg, ← haddress]
          exact Replacement.reaches_iff.mp (hreach hmode)

theorem resolveReferences_cases (ho : o ∈ objects) {rs : List Reference}
    (hrs : ∀ r ∈ rs, r ∈ o.references)
    (hinside : ∀ r ∈ o.references, ∀ g ∈ o.segmentOf? r,
      0 ≤ r.offset ∧ r.offset + r.width ≤ g.size)
    (hroom : n + o.size ≤ image.length) :
    (∃ image', (resolveReferences table input o (segmentOffsets n o.segments) rs image).outcome
          = .ok image'
        ∧ image'.length = image.length ∧ ∀ r ∈ rs, Resolvable objects o r)
      ∨ ∃ f, (resolveReferences table input o (segmentOffsets n o.segments) rs image).outcome
          = .error f.worded ∧ Refusal objects f := by
  induction rs generalizing image with
  | nil => exact .inl ⟨image, rfl, rfl, fun r hr => absurd hr List.not_mem_nil⟩
  | cons r rs ih =>
    have hr := hrs r List.mem_cons_self
    rw [resolveReferences, Logged.outcome_bind]
    rcases resolveReference_cases input htable ho hr (hinside r hr) hroom with
      ⟨image₁, hfirst, hlength₁, hok⟩ | ⟨f, hfirst, hrefusal⟩
    · rw [hfirst]
      rcases ih (fun q hq => hrs q (List.mem_cons_of_mem r hq)) (hlength₁ ▸ hroom) with
        ⟨image', hrest, hlength, hall⟩ | ⟨f, hrest, hrefusal⟩
      · exact .inl ⟨image', hrest, hlength.trans hlength₁, List.forall_mem_cons.mpr ⟨hok, hall⟩⟩
      · exact .inr ⟨f, hrest, hrefusal⟩
    · rw [hfirst]
      exact .inr ⟨f, rfl, hrefusal⟩

/-- All references are filled in and nothing is wrong with them, or one is refused. -/
theorem resolveObjects_cases {rest : List Object} {names : List String}
    (hrest : ∀ o ∈ rest, o ∈ objects) (hnames : rest.length ≤ names.length)
    (hinside : ∀ o ∈ objects, ∀ r ∈ o.references, ∀ g ∈ o.segmentOf? r,
      0 ≤ r.offset ∧ r.offset + r.width ≤ g.size)
    (hroom : n + (rest.flatMap Object.bytes).length ≤ image.length) :
    (∃ image', (resolveObjects table rest names (objectOffsets n rest) image).outcome = .ok image'
        ∧ ∀ o ∈ rest, ∀ r ∈ o.references, Resolvable objects o r)
      ∨ ∃ f, (resolveObjects table rest names (objectOffsets n rest) image).outcome
        = .error f.worded ∧ Refusal objects f := by
  induction rest generalizing n names image with
  | nil => exact .inl ⟨image, rfl, fun o ho => absurd ho List.not_mem_nil⟩
  | cons o rest ih =>
    cases names with
    | nil => exact absurd hnames (Nat.not_succ_le_zero _)
    | cons input names =>
      have ho := hrest o List.mem_cons_self
      rw [List.flatMap_cons, List.length_append, ← Nat.add_assoc] at hroom
      rw [objectOffsets, resolveObjects, Logged.outcome_bind]
      rcases resolveReferences_cases input htable ho (fun r hr => hr) (hinside o ho)
          (Nat.le_of_add_right_le hroom) with
        ⟨image₁, hfirst, hlength, hok⟩ | ⟨f, hfirst, hrefusal⟩
      · rw [hfirst]
        rcases ih (fun q hq => hrest q (List.mem_cons_of_mem o hq))
            (Nat.le_of_succ_le_succ hnames) (hlength ▸ hroom) with
          ⟨image', hlater, hall⟩ | ⟨f, hlater, hrefusal⟩
        · exact .inl ⟨image', hlater, List.forall_mem_cons.mpr ⟨hok, hall⟩⟩
        · exact .inr ⟨f, hlater, hrefusal⟩
      · rw [hfirst]
        exact .inr ⟨f, rfl, hrefusal⟩

end Resolve

/-! ## Linking -/

section Link

theorem link_cases (s : Settings) {objects : List Object} (chr : Option Object)
    {names : List String} (hnames : names = [] ∨ objects.length ≤ names.length)
    (htables : ∀ o ∈ objects, ∀ t ∈ o.symbols, t.NamesNodup)
    (hinside : ∀ o ∈ objects, ∀ r ∈ o.references, ∀ g ∈ o.segmentOf? r,
      0 ≤ r.offset ∧ r.offset + r.width ≤ g.size) :
    (∃ l, (link s objects chr names).outcome = .ok l ∧ (∀ name, ¬ DisagreeOn objects name)
        ∧ (∀ name, ∀ u ∈ firstSymbol? objects name, Text.isWritable u.line = true)
        ∧ ∀ o ∈ objects, ∀ r ∈ o.references, Resolvable objects o r)
      ∨ (∃ f, (link s objects chr names).outcome = .error f.worded ∧ Refusal objects f)
      ∨ (link s objects chr names).outcome = .error (.value .tooLongToWrite)
        ∧ ∃ name, ∃ u ∈ firstSymbol? objects name, Text.isWritable u.line = false := by
  have hlength : objects.length
      ≤ (if names.isEmpty then defaultNames objects.length else names).length := by
    rcases hnames with rfl | hnames
    · simp [defaultNames]
    · split
      · simp [defaultNames]
      · exact hnames
  simp only [link, Logged.outcome_bind, placeObjects_outcome]
  generalize (if names.isEmpty then defaultNames objects.length else names) = names' at hlength
  rcases addObjects_cases hlength htables with
    ⟨m, hmerge, htable, hlines⟩ | ⟨name, first, second, hdisagree, hmerge⟩ | ⟨huntold, hmerge⟩
  · have hagree : ∀ name, ¬ DisagreeOn objects name := by
      rintro name ⟨o, ho, o', ho', a, ha, b, hb, hne⟩
      have haddress := (htable name a).mpr ⟨o, ho, ha⟩
      rw [(htable name b).mpr ⟨o', ho', hb⟩] at haddress
      exact hne (Option.some.inj haddress).symm
    simp only [hmerge, Except.map]
    have hroom : 0 + (objects.flatMap Object.bytes).length
        ≤ (objects.flatMap Object.bytes).length := Nat.le_of_eq (Nat.zero_add _)
    rcases resolveObjects_cases htable (fun o ho => ho) hlength hinside hroom with
      ⟨image, hresolve, hall⟩ | ⟨f, hresolve, hrefusal⟩
    · exact .inl ⟨_, Outcome.bind_eq_ok_iff.mpr
        ⟨_, rfl, Outcome.bind_eq_ok_iff.mpr ⟨image, hresolve, rfl⟩⟩, hagree, hlines, hall⟩
    · exact .inr (.inl ⟨f, Outcome.bind_eq_error_iff.mpr
        (.inr ⟨_, rfl, Outcome.bind_eq_error_iff.mpr (.inl hresolve)⟩), hrefusal⟩)
  · simp only [hmerge, Except.map]
    exact .inr (.inl ⟨_, rfl, .conflict hdisagree first second⟩)
  · simp only [hmerge, Except.map]
    exact .inr (.inr ⟨rfl, huntold⟩)

/-- A branch to a name of another input. -/
def branchTo (start : Int) : Object where
  first := ⟨start, [0xD0, 0]⟩
  references := [⟨"far".toList, 0, 1, .relative, 2⟩]

/-- The other input. -/
def targetAt (address : Int) : Object where
  first := ⟨2, [0x60]⟩
  symbols := some ⟨"far.s", [⟨"far".toList, .label, address, 1, none⟩]⟩

end Link

end Link

end Cross6502
