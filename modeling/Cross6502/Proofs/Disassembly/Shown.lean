import Cross6502.Assembly.Run
import Cross6502.Proofs.Disassembly.DerivedLabels
import Cross6502.Proofs.Disassembly.Tiling
import Cross6502.Proofs.Instruction.Opcode

/-!
# What a disassembly shows

The lines of a disassembly are of two kinds: labels, and instructions whose operand may be
the name of a label.  As texts they cannot be told apart for certain, since a name may be
anything.  So the lines are described before they are texts (`Shown`): a label is shown
with its name, and an instruction with the name its operand is shown by, if it is.  The
lines are the texts of these (`objectLines_eq`), since the instructions shown are those that
a walk meets (`disassemble_eq_map_walk`), and an instruction without a name has a text that
no symbol has a part in.

The names come from two sources.  Labels that the disassembler makes up stand at
beginnings of instructions only, so each gets a line of its own.  Labels that it is given
may be anywhere: behind the last instruction, inside one, or in another program.  Those
are shown as operands all the same, and `named_targets_defined_iff` says that they are the
only names that can lack a line.
-/

namespace Cross6502

namespace Disassembled

/-! ## Parts of an instruction -/

/-- Apart from its operand, an instruction is shown as its site has it, whether it is
documented and whole or not. -/
theorem ofSite_eq (t : SymbolTable) (s : Site) :
    ofSite t s =
      { address := s.address, opcode := s.opcode, mnemonic := Opcode.mnemonicText s.opcode
        mode := Opcode.mode s.opcode, operandBytes := s.operand, operand := (ofSite t s).operand
        size := s.bytes.length, bytes := s.bytes, label := t.labelAt? s.address } := by
  by_cases hdecode : Opcode.decode s.opcode = none
  · have hoperand : s.operand = [] := by
      rw [Site.operand, Opcode.length, Opcode.mode, hdecode]
      rfl
    rw [ofSite, if_pos hdecode, Site.bytes, hoperand]
    rfl
  · rw [ofSite, if_neg hdecode]
    cases hcomplete : s.isComplete with
    | false => rfl
    | true =>
      simp only [Bool.not_true, Bool.false_eq_true, if_false]
      rw [complete]
      cases operandText t s.opcode (Opcode.mode s.opcode) (s.bytes.drop 1) s.address with
      | error e => rfl
      | ok operand =>
        simp only [Except.map, Site.length_bytes hcomplete]
        rfl

theorem size_ofSite (t : SymbolTable) (s : Site) : (ofSite t s).size = s.bytes.length := by
  rw [ofSite_eq]

theorem operand_ofSite (t : SymbolTable) (s : Site) :
    (ofSite t s).operand =
      if Opcode.decode s.opcode = none then []
      else if s.isComplete then
        (operandText t s.opcode (Opcode.mode s.opcode) s.operand s.address).toOption.getD
          Opcode.undocumented
      else Opcode.undocumented := by
  rw [ofSite]
  split
  · rfl
  · cases hcomplete : s.isComplete with
    | false => rfl
    | true =>
      have hdrop : s.bytes.drop 1 = s.operand := rfl
      simp only [Bool.not_true, Bool.false_eq_true, if_false, if_true, complete, hdrop]
      cases operandText t s.opcode (Opcode.mode s.opcode) s.operand s.address <;> rfl

end Disassembled

/-! ## The instructions shown are those of the walk -/

/-- The bytes that still belong to the instruction shown are passed over. -/
theorem disassembleFrom_eq_drop (t : SymbolTable) (skip : Nat) (address : Int)
    (bytes : List UInt8) (count : Option Int) :
    disassembleFrom t skip address bytes count
      = disassemble t (address + skip) (bytes.drop skip) count := by
  induction skip generalizing address bytes with
  | zero =>
    rw [Int.natCast_zero, Int.add_zero, List.drop_zero]
    rfl
  | succ skip ih =>
    cases bytes with
    | nil => rfl
    | cons b rest =>
      rw [disassembleFrom, ih, List.drop_succ_cons]
      congr 1
      omega

/-- One step: the first instruction is shown, and what follows is shown from as far behind it
as it is shown to reach. -/
theorem disassemble_cons (t : SymbolTable) (address : Int) (b : UInt8) (rest : List UInt8)
    {count : Option Int} (hcount : count.any (· ≤ 0) = false) :
    disassemble t address (b :: rest) count
      = Disassembled.ofSite t ⟨address, b, rest⟩
        :: disassemble t (address + (Disassembled.ofSite t ⟨address, b, rest⟩).size)
          ((b :: rest).drop (Disassembled.ofSite t ⟨address, b, rest⟩).size)
          (count.map (· - 1)) := by
  have hsize : (Disassembled.ofSite t ⟨address, b, rest⟩).size
      = (Site.operand ⟨address, b, rest⟩).length + 1 := by
    rw [Disassembled.size_ofSite]
    rfl
  rw [disassemble, disassembleFrom, if_neg (by rw [hcount]; exact Bool.false_ne_true)]
  show _ :: disassembleFrom t _ (address + 1) rest _ = _
  rw [disassembleFrom_eq_drop, hsize, List.drop_succ_cons, Nat.add_sub_cancel]
  congr 2
  omega

/-- An instruction that is cut short ends the bytes, so what lies behind it is the same by the
bytes it has as by the bytes that its opcode asks for. -/
theorem Site.walk_behind (s : Site) :
    walk (s.address + s.bytes.length) (s.following.drop s.operand.length)
      = walk (s.address + Opcode.length s.opcode)
          (s.following.drop (Opcode.length s.opcode - 1)) := by
  by_cases hcomplete : s.isComplete = true
  · rw [length_bytes hcomplete, beq_iff_eq.mp hcomplete]
  · have hcut : s.following.length ≤ Opcode.length s.opcode - 1
        ∧ s.operand.length = s.following.length := by
      rw [isComplete, beq_iff_eq, operand, List.length_take] at hcomplete
      rw [operand, List.length_take]
      omega
    rw [List.drop_eq_nil_of_le hcut.1, List.drop_eq_nil_of_le (Nat.le_of_eq hcut.2.symm)]
    rfl

/-- **The instructions shown are those of the walk**, all or the first few.  The walk goes on
by the length of an opcode, and what is shown by the bytes that there are. -/
theorem disassemble_eq_map_walk (t : SymbolTable) (address : Int) (bytes : List UInt8)
    (count : Option Int) :
    disassemble t address bytes count
      = (count.elim (walk address bytes) fun n => (walk address bytes).take n.toNat).map
          (Disassembled.ofSite t) := by
  induction hn : bytes.length using Nat.strongRecOn generalizing address bytes count with
  | ind n ih =>
    cases bytes with
    | nil => cases count <;> simp [disassemble, disassembleFrom]
    | cons b rest =>
      have hshorter : (rest.drop (Site.operand ⟨address, b, rest⟩).length).length < n := by
        rw [← hn, List.length_drop, List.length_cons]
        omega
      have hbehind := Site.walk_behind ⟨address, b, rest⟩
      have hnext := ih _ hshorter (address + (Site.bytes ⟨address, b, rest⟩).length) _
        (count.map (· - 1)) rfl
      rw [hbehind] at hnext
      by_cases hcount : count.any (· ≤ 0) = true
      · -- as many as are asked for have been shown
        cases count with
        | none => cases hcount
        | some k =>
          have hk : k.toNat = 0 := Int.toNat_of_nonpos (of_decide_eq_true hcount)
          rw [disassemble, disassembleFrom, if_pos hcount]
          show [] = ((walk address (b :: rest)).take k.toNat).map (Disassembled.ofSite t)
          rw [hk]
          rfl
      · rw [disassemble_cons t address b rest (Bool.eq_false_iff.mpr hcount),
          Disassembled.size_ofSite, walk_cons]
        show _ :: disassemble t _ (rest.drop (Site.operand ⟨address, b, rest⟩).length) _ = _
        rw [hnext]
        cases count with
        | none => rfl
        | some k =>
          have hk : k.toNat = (k - 1).toNat + 1 := by
            have hpos : ¬ k ≤ 0 := fun h => hcount (decide_eq_true h)
            omega
          show _ :: List.map _ (List.take (k - 1).toNat _) = List.map _ (List.take k.toNat _)
          rw [hk, List.take_succ_cons, List.map_cons]

namespace Opcode

/-- Branches, jumps and calls are documented, and have an operand. -/
theorem mode_of_mem_transfers : ∀ b ∈ transfers, decode b ≠ none
    ∧ (mode b = .relative ∨ mode b = .absolute ∨ mode b = .indirect) := by
  decide

end Opcode

namespace Disassembler

/-! ## Names of targets -/

/-- The name that the operand of an instruction is shown by. -/
def operandName? (t : SymbolTable) (s : Site) : Option Text := (target? s).bind (shownLabel? t)

/-- A name as an operand. -/
def namedOperand (opcode : UInt8) (name : Text) : Text :=
  if Opcode.mode opcode = .indirect then '(' :: name ++ [')'] else name

theorem target?_eq_some_iff {s : Site} {a : Int} :
    target? s = some a ↔ s.opcode ∈ Opcode.transfers ∧ s.isComplete = true
      ∧ transferTarget s.opcode.toNat s.operand s.address = .ok a := by
  rw [target?]
  simp only [Bool.and_eq_true, decide_eq_true_eq, Option.ite_none_right_eq_some, and_assoc]
  cases transferTarget s.opcode.toNat s.operand s.address <;> simp [Except.toOption]

/-- Targets are addresses of sixteen bits. -/
theorem target?_bounds {s : Site} {a : Int} (h : target? s = some a) : 0 ≤ a ∧ a < 65536 := by
  have htarget := (target?_eq_some_iff.mp h).2.2
  unfold transferTarget at htarget
  split at htarget
  · split at htarget
    · cases htarget
      omega
    · cases htarget
  · split at htarget
    · rename_i low high _ _
      cases htarget
      have := word_lt low high
      omega
    · cases htarget

section Operand

variable (t : SymbolTable) (s : Site)

theorem operandText_of_mem_transfers (h : s.opcode ∈ Opcode.transfers) :
    operandText t s.opcode (Opcode.mode s.opcode) s.operand s.address
      = (transferTarget s.opcode.toNat s.operand s.address).map
          (targetText t (Opcode.mode s.opcode) s.operand) := by
  rcases (Opcode.mode_of_mem_transfers _ h).2 with hmode | hmode | hmode <;>
    exact hmode ▸ if_pos h

theorem operand_of_target {a : Int} (h : target? s = some a) :
    (Disassembled.ofSite t s).operand = targetText t (Opcode.mode s.opcode) s.operand a := by
  obtain ⟨hmem, hcomplete, htarget⟩ := target?_eq_some_iff.mp h
  rw [Disassembled.operand_ofSite, if_neg (Opcode.mode_of_mem_transfers _ hmem).1, if_pos hcomplete,
    operandText_of_mem_transfers t s hmem, htarget]
  rfl

/-- The operand of an instruction without a target is the same with every table. -/
theorem operand_of_no_target (t' : SymbolTable) (h : target? s = none) :
    (Disassembled.ofSite t s).operand = (Disassembled.ofSite t' s).operand := by
  rw [Disassembled.operand_ofSite, Disassembled.operand_ofSite]
  by_cases hcomplete : s.isComplete = true
  · rw [if_pos hcomplete, if_pos hcomplete]
    by_cases hmem : s.opcode ∈ Opcode.transfers
    · have htarget : ∃ e, transferTarget s.opcode.toNat s.operand s.address = .error e := by
        cases htarget : transferTarget s.opcode.toNat s.operand s.address with
        | error e => exact ⟨e, rfl⟩
        | ok a =>
          rw [target?_eq_some_iff.mpr ⟨hmem, hcomplete, htarget⟩] at h
          cases h
      obtain ⟨e, htarget⟩ := htarget
      rw [operandText_of_mem_transfers t s hmem, operandText_of_mem_transfers t' s hmem, htarget]
      rfl
    · unfold operandText
      simp only [if_neg hmem]
  · rw [if_neg hcomplete, if_neg hcomplete]

/-- An operand is a name, or it is what would be shown without any symbols. -/
theorem operand_eq : (Disassembled.ofSite t s).operand =
    match operandName? t s with
    | some name => namedOperand s.opcode name
    | none => (Disassembled.ofSite {} s).operand := by
  rw [operandName?]
  cases htarget : target? s with
  | none => exact operand_of_no_target t s {} htarget
  | some a =>
    have hmode := (Opcode.mode_of_mem_transfers _ (target?_eq_some_iff.mp htarget).1).2
    have hnone : shownLabel? {} a = none := rfl
    rw [operand_of_target t s htarget, operand_of_target {} s htarget, Option.bind_some]
    cases hshown : shownLabel? t a with
    | none => simp only [targetText, hshown, hnone]
    | some name =>
      rcases hmode with hmode | hmode | hmode <;> simp [targetText, namedOperand, hshown, hmode]

end Operand

/-! ## Lines -/

/-- A line of a disassembly: a label, or an instruction and the name its operand is shown
by, if it is. -/
inductive Shown where
  | label (address : Int) (name : Text)
  | code (site : Site) (name : Option Text)

/-- The instruction of a site whose operand is a name, or what it is without symbols. -/
def shownInstruction (s : Site) : Option Text → Disassembled
  | some name => { Disassembled.ofSite {} s with operand := namedOperand s.opcode name }
  | none => Disassembled.ofSite {} s

/-- The text of a line. -/
def Shown.text (annotate : Bool) : Shown → Text
  | .label address name =>
      if annotate then Disassembled.annotate address [] (name ++ [':']) else name ++ [':']
  | .code s name =>
      if annotate then (shownInstruction s name).annotated
      else '\t' :: (shownInstruction s name).text

/-- The lines of a site: the label at its address, if it has one, and the instruction. -/
def siteShown (t : SymbolTable) (s : Site) : List Shown :=
  match shownLabel? t s.address with
  | some name => [.label s.address name, .code s (operandName? t s)]
  | none => [.code s (operandName? t s)]

/-- The lines of an object. -/
def shown (t : SymbolTable) (o : Object) : List Shown := (sites o).flatMap (siteShown t)

theorem address_shownInstruction (s : Site) (name : Option Text) :
    (shownInstruction s name).address = s.address := by
  cases name <;> rw [shownInstruction, Disassembled.ofSite_eq]

theorem ofSite_eq_shownInstruction (t : SymbolTable) (s : Site) :
    Disassembled.ofSite t s
      = { shownInstruction s (operandName? t s) with label := t.labelAt? s.address } := by
  rw [Disassembled.ofSite_eq t s, operand_eq t s]
  cases operandName? t s <;> rw [shownInstruction, Disassembled.ofSite_eq {} s]

theorem instructionLines_eq (t : SymbolTable) (s : Site) (annotate : Bool) :
    instructionLines annotate (Disassembled.ofSite t s)
      = (siteShown t s).map (Shown.text annotate) := by
  rw [ofSite_eq_shownInstruction, instructionLines, siteShown, shownLabel?]
  cases (t.labelAt? s.address).filter (fun name => !name.isEmpty) with
  | none => rfl
  | some name =>
    rw [List.map_cons, Shown.text, ← address_shownInstruction s (operandName? t s)]
    rfl

/-- The lines of an object are the texts of what is shown of it. -/
theorem objectLines_eq (t : SymbolTable) (o : Object) (annotate : Bool) :
    objectLines t o annotate = (shown t o).map (Shown.text annotate) := by
  have hsegment : ∀ g : Segment,
      (disassemble t g.start g.data none).flatMap (instructionLines annotate)
        = ((walk g.start g.data).flatMap (siteShown t)).map (Shown.text annotate) := by
    intro g
    rw [disassemble_eq_map_walk, Option.elim_none, List.flatMap_map, List.map_flatMap]
    congr 1
    funext s
    exact instructionLines_eq t s annotate
  rw [objectLines, shown, sites, List.flatMap_assoc, List.map_flatMap]
  simp only [hsegment]

/-! ## Names defined and names referred to -/

/-- The name a line defines. -/
def Shown.defines : Shown → Option Text
  | .label _ name => some name
  | .code _ _ => none

/-- The name a line refers to. -/
def Shown.refersTo : Shown → Option Text
  | .label _ _ => none
  | .code _ name => name

/-- The names that lines define. -/
def definedNames (lines : List Shown) : List Text := lines.filterMap Shown.defines

/-- The names that lines refer to. -/
def referredNames (lines : List Shown) : List Text := lines.filterMap Shown.refersTo

theorem mem_definedNames_shown {t : SymbolTable} {o : Object} {name : Text} :
    name ∈ definedNames (shown t o) ↔ ∃ s ∈ sites o, shownLabel? t s.address = some name := by
  have hsite : ∀ s : Site, (siteShown t s).filterMap Shown.defines
      = (shownLabel? t s.address).toList := by
    intro s
    rw [siteShown]
    cases shownLabel? t s.address <;> rfl
  rw [definedNames, shown, List.filterMap_flatMap]
  simp only [hsite, List.mem_flatMap, Option.mem_toList]

theorem mem_referredNames_shown {t : SymbolTable} {o : Object} {name : Text} :
    name ∈ referredNames (shown t o) ↔ ∃ s ∈ sites o, operandName? t s = some name := by
  have hsite : ∀ s : Site, (siteShown t s).filterMap Shown.refersTo
      = (operandName? t s).toList := by
    intro s
    rw [siteShown]
    cases shownLabel? t s.address <;> cases operandName? t s <;> rfl
  rw [referredNames, shown, List.filterMap_flatMap]
  simp only [hsite, List.mem_flatMap, Option.mem_toList]

/-! ## Labels after deriving -/

/-- What deriving labels does to a table: a place keeps the label it has, one without a
label gets none unless an instruction begins there, and names stay distinct. -/
structure Extends (starts : List Int) (t t' : SymbolTable) : Prop where
  labelAt? : ∀ a, t'.labelAt? a = t.labelAt? a ∨ t.labelAt? a = none ∧ a ∈ starts
  nodup : t.NamesNodup → t'.NamesNodup

section Extends

variable {starts : List Int} {t t' t'' : SymbolTable}

theorem Extends.refl : Extends starts t t where
  labelAt? _ := .inl rfl
  nodup h := h

theorem Extends.trans (h : Extends starts t t') (h' : Extends starts t' t'') :
    Extends starts t t'' where
  labelAt? a := by
    rcases h'.labelAt? a with heq | ⟨hnone, hmem⟩
    · rw [heq]
      exact h.labelAt? a
    · rcases h.labelAt? a with heq | hnew
      · exact .inr ⟨heq ▸ hnone, hmem⟩
      · exact .inr hnew
  nodup hnodup := h'.nodup (h.nodup hnodup)

/-- One more label, at a place that needs it. -/
theorem extends_add {d : Disassembler} {s : Site} {target : Int} {name : Text}
    (hmissing : d.missingLabel? starts s = some target)
    (hadd : d.symbols.insert (.ofLabel name target 0) = .ok t') : Extends starts d.symbols t' where
  labelAt? a := by
    obtain ⟨htarget, hmem, hnone⟩ := missingLabel?_eq_some_iff.mp hmissing
    have hwrap : Symbol.wrapAddress target = target := by
      have := target?_bounds htarget
      rw [Symbol.wrapAddress]
      omega
    by_cases ha : a = target
    · subst ha
      exact .inr ⟨hnone, hmem⟩
    · exact .inl (SymbolTable.labelAt?_of_insert_of_ne hadd (by rwa [Symbol.ofLabel, hwrap]))
  nodup := SymbolTable.namesNodup_of_insert hadd

theorem extends_deriveFrom (starts : List Int) (d : Disassembler) (sites : List Site) :
    Extends starts d.symbols (deriveFrom starts d sites).disassembler.symbols := by
  induction sites generalizing d with
  | nil => exact .refl
  | cons s rest ih =>
    cases hmissing : d.missingLabel? starts s with
    | none =>
      rw [deriveFrom, hmissing]
      exact ih d
    | some target =>
      cases hadd : d.symbols.insert (.ofLabel (labelName d.nextLabel) target 0) with
      | error e =>
        rw [deriveFrom, hmissing]
        simp only [SymbolTable.add, hadd]
        exact .refl
      | ok table =>
        rw [deriveFrom_of_missing hmissing hadd rfl]
        exact (extends_add hmissing hadd).trans
          (ih { d with nextLabel := d.nextLabel + 1, symbols := table })

/-- A name that is shown was given or stands where an instruction begins. -/
theorem Extends.shownLabel? (h : Extends starts t t') (a : Int) :
    shownLabel? t' a = shownLabel? t a ∨ shownLabel? t a = none ∧ a ∈ starts := by
  rw [Cross6502.shownLabel?, Cross6502.shownLabel?]
  rcases h.labelAt? a with heq | ⟨hnone, hmem⟩
  · exact .inl (by rw [heq])
  · exact .inr ⟨by rw [hnone]; rfl, hmem⟩

end Extends

theorem eq_of_shownLabel?_eq {t : SymbolTable} (hnodup : t.NamesNodup) {a b : Int} {name : Text}
    (ha : shownLabel? t a = some name) (hb : shownLabel? t b = some name) : a = b := by
  obtain ⟨u, hu, rfl, hname⟩ := exists_of_labelAt? (Option.filter_eq_some_iff.mp ha).1
  obtain ⟨v, hv, rfl, hname'⟩ := exists_of_labelAt? (Option.filter_eq_some_iff.mp hb).1
  rw [SymbolTable.eq_of_mem_of_name_eq hnodup hu hv (hname.trans hname'.symm)]

/-- The addresses of labels that were given, where control goes but no instruction of the
object begins. -/
def strayTargets (t : SymbolTable) (o : Object) : List Int :=
  ((sites o).filterMap target?).filter fun a =>
    (shownLabel? t a).isSome && !((sites o).map Site.address).contains a

theorem mem_strayTargets {t : SymbolTable} {o : Object} {a : Int} :
    a ∈ strayTargets t o ↔ (∃ s ∈ sites o, target? s = some a)
      ∧ (∃ name, shownLabel? t a = some name) ∧ a ∉ (sites o).map Site.address := by
  simp only [strayTargets, List.mem_filter, List.mem_filterMap, Bool.and_eq_true,
    Option.isSome_iff_exists, Bool.not_eq_true', List.contains_eq_mem, decide_eq_false_iff_not]

section Names

variable {t t' : SymbolTable} {o : Object}

/-- A name without a definition was given for a stray target. -/
theorem exists_strayTarget (h : Extends ((sites o).map Site.address) t t') {name : Text}
    (hreferred : name ∈ referredNames (shown t' o)) (hdefined : name ∉ definedNames (shown t' o)) :
    ∃ a, a ∈ strayTargets t o := by
  obtain ⟨s, hs, hname⟩ := mem_referredNames_shown.mp hreferred
  obtain ⟨a, htarget, hshown⟩ := Option.bind_eq_some_iff.mp hname
  have hstart : a ∉ (sites o).map Site.address := by
    intro hmem
    obtain ⟨site, hsite, rfl⟩ := List.mem_map.mp hmem
    exact hdefined (mem_definedNames_shown.mpr ⟨site, hsite, hshown⟩)
  rcases h.shownLabel? a with heq | ⟨-, hmem⟩
  · exact ⟨a, mem_strayTargets.mpr ⟨⟨s, hs, htarget⟩, ⟨name, heq ▸ hshown⟩, hstart⟩⟩
  · exact absurd hmem hstart

/-- A stray target is referred to by its name, and the name has no definition. -/
theorem exists_name_of_strayTarget (h : Extends ((sites o).map Site.address) t t')
    (hnodup : t'.NamesNodup) {a : Int} (ha : a ∈ strayTargets t o) :
    ∃ name, name ∈ referredNames (shown t' o) ∧ name ∉ definedNames (shown t' o) := by
  obtain ⟨⟨s, hs, htarget⟩, ⟨name, hgiven⟩, hstart⟩ := mem_strayTargets.mp ha
  have hshown : shownLabel? t' a = some name := by
    rcases h.shownLabel? a with heq | ⟨hnone, -⟩
    · rw [heq, hgiven]
    · rw [hnone] at hgiven
      cases hgiven
  refine ⟨name, mem_referredNames_shown.mpr ⟨s, hs, ?_⟩, ?_⟩
  · rw [operandName?, htarget]
    exact hshown
  · intro hdefined
    obtain ⟨site, hsite, hlabel⟩ := mem_definedNames_shown.mp hdefined
    rw [eq_of_shownLabel?_eq hnodup hshown hlabel] at hstart
    exact hstart (List.mem_map.mpr ⟨site, hsite, rfl⟩)

end Names

theorem lines_eq_ok {d : Disassembler} {o : Object} {annotate : Bool} {lines : List Text}
    (h : (d.lines o annotate).2 = .ok lines) :
    lines = (shown (d.derive o).disassembler.symbols o).map (Shown.text annotate) := by
  rw [Disassembler.lines] at h
  cases hfailure : (d.derive o).failure with
  | some e =>
    simp only [hfailure] at h
    cases h
  | none =>
    simp only [hfailure] at h
    cases h
    exact objectLines_eq _ o annotate

/-- **Names in a disassembly.**  The lines of an object define every name that they refer
to, exactly when no branch, jump or call goes to a label that was given for a place where
no instruction of the object begins. -/
theorem named_targets_defined_iff {d : Disassembler} {o : Object} {annotate : Bool}
    {lines : List Text} (hnodup : d.symbols.NamesNodup)
    (hlines : (d.lines o annotate).2 = .ok lines) :
    lines = (shown (d.derive o).disassembler.symbols o).map (Shown.text annotate)
      ∧ (referredNames (shown (d.derive o).disassembler.symbols o)
            ⊆ definedNames (shown (d.derive o).disassembler.symbols o)
          ↔ strayTargets d.symbols o = []) := by
  have hextends := extends_deriveFrom ((sites o).map Site.address) d (sites o)
  refine ⟨lines_eq_ok hlines, ?_, ?_⟩
  · intro hsubset
    rw [List.eq_nil_iff_forall_not_mem]
    intro a ha
    obtain ⟨name, hreferred, hdefined⟩ :=
      exists_name_of_strayTarget hextends (hextends.nodup hnodup) ha
    exact hdefined (hsubset hreferred)
  · intro hstray name hreferred
    by_contra hdefined
    obtain ⟨a, ha⟩ := exists_strayTarget hextends hreferred hdefined
    rw [hstray] at ha
    cases ha

/-- A jump over one instruction, and a branch back to it. -/
def skip : Object where
  first := ⟨0, [0x4C, 4, 0, 0xEA, 0xD0, 0xFD]⟩

/-- A disassembler that was given a name for where the jump goes. -/
def skipper : Disassembler where
  symbols := ⟨"given", [.ofLabel "done".toList 4 0]⟩

theorem named_targets_defined_iff_skip :
    (skipper.lines skip false).2 = .ok ["\tjmp done".toList, "Label1:".toList, "\tnop".toList,
        "done:".toList, "\tbne Label1".toList]
      ∧ referredNames (shown (skipper.derive skip).disassembler.symbols skip)
        ⊆ definedNames (shown (skipper.derive skip).disassembler.symbols skip) := by
  have hlines : (skipper.lines skip false).2 = .ok ["\tjmp done".toList, "Label1:".toList,
      "\tnop".toList, "done:".toList, "\tbne Label1".toList] := rfl
  have hnodup : skipper.symbols.NamesNodup := List.nodup_singleton _
  exact ⟨hlines, (named_targets_defined_iff hnodup hlines).2.mpr (by decide)⟩

/-- A program that jumps behind its last instruction.  Shown with its own symbols it
refers to a label that it does not define, and cannot be assembled again. -/
theorem label_behind_code_undefined :
    ∃ o table, (Assembly.assemble {} true "end.s" " jmp end\nend:\n".toList).outcome = .ok o
      ∧ o.symbols = some table
      ∧ (({ symbols := table } : Disassembler).lines o false).2 = .ok ["\tjmp end".toList]
      ∧ ∃ e, (Assembly.assemble {} false "again.s" "\tjmp end\n".toList).outcome = .error e :=
  ⟨_, _, rfl, rfl, rfl, _, rfl⟩

end Disassembler

end Cross6502
