import Cross6502.Proofs.Disassembly.Derivation
import Cross6502.Proofs.Disassembly.Printed

/-!
# Labels that are defined once

A disassembly is read by the assembler in lower case.  The labels it makes up begin with a
capital, so the table takes them beside any names in lower case.  Read back, they are such
names themselves.

In one segment no two instructions stand at one address, and no two addresses have one name
(`nodup_definedNames`).  So two labels can become equal only if they differ in case, and among
names in lower case and made-up ones that is a name that was given and has the number of one
that was made up (`labels_distinct_iff`).  Nothing keeps the numbers clear of those names.
-/

namespace Cross6502

/-! ## One segment -/

theorem le_address_of_mem_walk {address : Int} {bytes : List UInt8} {s : Site}
    (hs : s ∈ walk address bytes) : address ≤ s.address := by
  obtain ⟨before, after, hsplit⟩ := List.append_of_mem hs
  rw [(of_walk_eq_append hsplit).1]
  omega

/-- The instructions of a walk stand at growing addresses. -/
theorem pairwise_address_walk (address : Int) (bytes : List UInt8) :
    ((walk address bytes).map Site.address).Pairwise (· < ·) := by
  induction hn : bytes.length using Nat.strongRecOn generalizing address bytes with
  | ind n ih =>
    cases bytes with
    | nil => exact List.Pairwise.nil
    | cons b rest =>
      have hpos := Opcode.length_pos b
      have hshorter : (rest.drop (Opcode.length b - 1)).length < n := by
        rw [← hn, List.length_drop, List.length_cons]
        omega
      rw [walk_cons, List.map_cons, List.pairwise_cons]
      refine ⟨fun a ha => ?_, ih _ hshorter _ _ rfl⟩
      obtain ⟨s, hs, rfl⟩ := List.mem_map.mp ha
      have hle := le_address_of_mem_walk hs
      show address < s.address
      omega

namespace Disassembler

theorem nodup_addresses {o : Object} (hsingle : o.later = []) :
    ((sites o).map Site.address).Nodup := by
  have hsites : sites o = walk o.first.start o.first.data := by
    rw [sites, Object.segments, hsingle, List.flatMap_cons, List.flatMap_nil, List.append_nil]
  rw [hsites]
  exact (pairwise_address_walk _ _).imp Int.ne_of_lt

theorem definedNames_shown (t : SymbolTable) (o : Object) :
    definedNames (shown t o) = ((sites o).map Site.address).filterMap (shownLabel? t) := by
  rw [definedNames, shown, List.filterMap_flatMap, List.filterMap_map,
    List.filterMap_eq_flatMap_toList]
  congr 1
  ext s : 1
  rw [siteShown, Function.comp_apply]
  cases shownLabel? t s.address <;> rfl

/-- In one segment no label is shown twice. -/
theorem nodup_definedNames {t : SymbolTable} (hnodup : t.NamesNodup) {o : Object}
    (hsingle : o.later = []) : (definedNames (shown t o)).Nodup := by
  rw [definedNames_shown]
  refine (nodup_addresses hsingle).filterMap ?_
  intro a a' name ha ha'
  exact eq_of_shownLabel?_eq hnodup ha ha'

/-! ## Names in lower case and made-up ones -/

theorem lower_labelName (k : Nat) : Text.lower (labelName k) = localName k := by
  have hlowers := lowers_labelName k
  rw [Text.lower_of_lt fun c hc => Nat.lt_succ_of_lt (hlowers.printable c hc).2.1]
  exact hlowers.lower

/-- A made-up label is not in lower case. -/
theorem lower_labelName_ne (k l : Nat) : Text.lower (labelName k) ≠ labelName l := by
  intro h
  rw [lower_labelName] at h
  exact absurd (List.cons.inj h).1 (by decide)

/-- A table of names in lower case has room for every label to come. -/
theorem fresh_of_lower {d : Disassembler}
    (hlower : ∀ u ∈ d.symbols.symbols, Text.lower u.name = u.name) : d.Fresh := by
  intro u hu k _ hname
  have hself := hlower u hu
  rw [hname] at hself
  exact lower_labelName_ne k k hself

section Names

variable {d : Disassembler} {o : Object}

/-- The labels that are shown are those that were given and are shown without the others, and
those that were made up. -/
theorem mem_definedNames_derive (hfresh : d.Fresh) {name : Text} :
    name ∈ definedNames (shown (d.derive o).disassembler.symbols o)
      ↔ name ∈ definedNames (shown d.symbols o) ∨ ∃ u ∈ (d.derive o).added, u.name = name := by
  have hderives := derives_deriveFrom ((sites o).map Site.address) hfresh (sites o)
  have hextends := extends_deriveFrom ((sites o).map Site.address) d (sites o)
  rw [mem_definedNames_shown, mem_definedNames_shown]
  constructor
  · rintro ⟨s, hs, hshown⟩
    obtain ⟨hlabel, hne⟩ := Option.filter_eq_some_iff.mp hshown
    rcases hderives.only _ _ hlabel with hgiven | ⟨u, hu, -, hname⟩
    · exact .inl ⟨s, hs, Option.filter_eq_some_iff.mpr ⟨hgiven, hne⟩⟩
    · exact .inr ⟨u, hu, hname⟩
  · rintro (⟨s, hs, hshown⟩ | ⟨u, hu, rfl⟩)
    · obtain ⟨hlabel, hne⟩ := Option.filter_eq_some_iff.mp hshown
      exact ⟨s, hs, Option.filter_eq_some_iff.mpr ⟨hextends.labelAt?_eq_some hlabel, hne⟩⟩
    · obtain ⟨s, hs, haddress⟩ := List.mem_map.mp (hderives.needed u hu).1
      obtain ⟨k, hk⟩ := hderives.exists_labelName hu
      have hmarked := hderives.marked u hu
      rw [← haddress] at hmarked
      refine ⟨s, hs, Option.filter_eq_some_iff.mpr ⟨hmarked, ?_⟩⟩
      rw [hk]
      rfl

theorem lower_of_mem_definedNames
    (hlower : ∀ u ∈ d.symbols.symbols, Text.lower u.name = u.name) {name : Text}
    (hname : name ∈ definedNames (shown d.symbols o)) : Text.lower name = name := by
  obtain ⟨s, -, hshown⟩ := mem_definedNames_shown.mp hname
  obtain ⟨u, hu, -, rfl⟩ := exists_of_labelAt? (Option.filter_eq_some_iff.mp hshown).1
  exact hlower u hu

/-- **Labels in a disassembly.**  From a table of names in lower case, an object of one segment
can be shown, and its labels are distinct as the assembler reads them exactly when none that
was made up becomes one that was given and is shown. -/
theorem labels_distinct_iff (hsingle : o.later = []) (hnodup : d.symbols.NamesNodup)
    (hlower : ∀ u ∈ d.symbols.symbols, Text.lower u.name = u.name) (annotate : Bool) :
    (d.lines o annotate).2
        = .ok ((shown (d.derive o).disassembler.symbols o).map (Shown.text annotate))
      ∧ (((definedNames (shown (d.derive o).disassembler.symbols o)).map Text.lower).Nodup
        ↔ ∀ u ∈ (d.derive o).added, Text.lower u.name ∉ definedNames (shown d.symbols o)) := by
  have hfresh := fresh_of_lower hlower
  have hderives := derives_deriveFrom ((sites o).map Site.address) hfresh (sites o)
  have hextends := extends_deriveFrom ((sites o).map Site.address) d (sites o)
  have hdistinct := nodup_definedNames (hextends.nodup hnodup) hsingle
  have hmade : ∀ u ∈ (d.derive o).added, ∃ k, u.name = labelName k :=
    fun u hu => hderives.exists_labelName hu
  refine ⟨lines_of_failure_eq_none hderives.failure annotate, ?_⟩
  rw [← derive] at hdistinct
  rw [List.nodup_map_iff_inj_on hdistinct]
  constructor
  · intro hinj u hu hgiven
    have hmem := (mem_definedNames_derive hfresh).mpr (.inr ⟨u, hu, rfl⟩)
    have hclash := hinj _ hmem _ ((mem_definedNames_derive hfresh).mpr (.inl hgiven))
      (lower_of_mem_definedNames hlower hgiven).symm
    obtain ⟨k, hk⟩ := hmade u hu
    rw [hk] at hclash
    exact lower_labelName_ne k k hclash.symm
  · intro hclear x hx y hy heq
    rcases (mem_definedNames_derive hfresh).mp hx with hx | ⟨u, hu, rfl⟩
    · rw [lower_of_mem_definedNames hlower hx] at heq
      rcases (mem_definedNames_derive hfresh).mp hy with hy | ⟨v, hv, rfl⟩
      · rwa [lower_of_mem_definedNames hlower hy] at heq
      · exact absurd (heq ▸ hx) (hclear v hv)
    · rcases (mem_definedNames_derive hfresh).mp hy with hy | ⟨v, hv, rfl⟩
      · rw [lower_of_mem_definedNames hlower hy] at heq
        exact absurd (heq ▸ hy) (hclear u hu)
      · -- both were made up, and then the number is all that tells them apart
        obtain ⟨k, hk⟩ := hmade u hu
        obtain ⟨l, hl⟩ := hmade v hv
        rw [hk, hl, lower_labelName, lower_labelName] at heq
        rw [hk, hl, localName_inj heq]

end Names

/-- A disassembler that was given a name with a number that is not reached. -/
def numbered : Disassembler where
  symbols := ⟨"given", [.ofLabel "label2".toList 4 0]⟩

theorem labels_distinct_iff_skip :
    (numbered.lines skip false).2 = .ok ["\tjmp label2".toList, "Label1:".toList,
        "\tnop".toList, "label2:".toList, "\tbne Label1".toList]
      ∧ ((definedNames (shown (numbered.derive skip).disassembler.symbols skip)).map
        Text.lower).Nodup := by
  have hnodup : numbered.symbols.NamesNodup := List.nodup_singleton _
  have hlower : ∀ u ∈ numbered.symbols.symbols, Text.lower u.name = u.name := by decide
  refine ⟨rfl, (labels_distinct_iff rfl hnodup hlower false).2.mpr ?_⟩
  decide

/-- A program with a label of its own that is called like the first one to be made up.  Shown
with its symbols it defines the label twice, and cannot be assembled again. -/
theorem label_defined_twice :
    ∃ o table,
      (Assembly.assemble {} false "twice.s" "label1: nop\n jmp $0001\n".toList).outcome = .ok o
      ∧ o.symbols = some table ∧ o.later = []
      ∧ (∀ u ∈ table.symbols, Text.lower u.name = u.name)
      ∧ (({ symbols := table } : Disassembler).lines o false).2
        = .ok ["label1:".toList, "\tnop".toList, "Label1:".toList, "\tjmp Label1".toList]
      ∧ Text.lower "Label1:".toList = "label1:".toList
      ∧ ∃ e, (Assembly.assemble {} false "again.s"
        "label1:\n\tnop\nLabel1:\n\tjmp Label1\n".toList).outcome = .error e :=
  ⟨_, _, rfl, rfl, rfl, by decide, rfl, by decide, _, rfl⟩

end Disassembler

end Cross6502
