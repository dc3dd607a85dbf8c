import Cross6502.Proofs.Assembly.SumLine
import Cross6502.Proofs.Link.Deferral

/-!
# Addends behind a name that is left to the linker

A name with an addend, as in `lda table+1`, can be left to the linker like a name alone.
The reference that is left behind holds the name and the mode, but not the addend: the
addend was folded into the zero that holds the place of the name, and the linker writes the
address of the name over both.  So the linked operand is that of the name without its addend
(`patchedImage_of_not_branch`), and it is the operand of the sum only if the operand has no
room for the addend.

A name that ends in a digit does not get so far.  Sums are folded before names are looked
for, and the digits of the name make a sum with the addend.

The two together say exactly when the addend survives.
-/

namespace Cross6502

open OperandForm Token Replacement Arithmetic

namespace Link

variable {m : Mnemonic} {gap : Text} {f : OperandForm} {x n : Text} {minus : Bool}

/-- The line is assembled with the name `x` left to the linker, and once the one reference
is resolved the image holds the instruction `e`. -/
def LinksTo (c : Statement.Context) (line : Text) (em : Emission) (number : Nat) (x : Text)
    (merged : SymbolTable) (input : String) (before after : List UInt8) (e : Encoded) : Prop :=
  ∃ e' r, (Statement.assemble { c with allowUnresolved := true } line em.segment.finish
      number).outcome = .ok (e', [x])
    ∧ em.referencesOf number e' [x] = [r]
    ∧ patchedImage em merged input before after e' r = .ok (imageWith em before after e)

/-- Outside branches the linker writes the address of the name, whatever operand it finds. -/
theorem patchedImage_of_not_branch {opcode : UInt8}
    (hop : Opcode.encode m.name (f.mode (takesWord m.name (beforeCore gap f))) = .ok opcode)
    (hbranch : Mnemonic.isBranchText m.name = false) {merged : SymbolTable} {sym : Symbol}
    (hmerged : merged.find? x = some sym) (em : Emission) (number : Nat) (input : String)
    (before after : List UInt8) (k : Int) :
    patchedImage em merged input before after (instruction m gap f opcode k)
        (referenceTo em number x (f.mode (takesWord m.name (beforeCore gap f))))
      = .ok (imageWith em before after (instruction m gap f opcode sym.address)) :=
  patchedImage_of_patchBytes hmerged
    (patchBytes_of_not_branch
      (r := referenceTo em number x (f.mode (takesWord m.name (beforeCore gap f)))) hop rfl hbranch
      input sym.address em.segment.finish)
    k before after

theorem imageWith_instruction_inj {em : Emission} {before after : List UInt8} {opcode : UInt8}
    {a b : Int} :
    imageWith em before after (instruction m gap f opcode a)
        = imageWith em before after (instruction m gap f opcode b)
      ↔ operandOf (f.mode (takesWord m.name (beforeCore gap f))) a
        = operandOf (f.mode (takesWord m.name (beforeCore gap f))) b := by
  rw [imageWith_eq, imageWith_eq]
  simp only [instruction, List.append_cancel_right_eq, List.append_cancel_left_eq]

section Survival

variable {c : Statement.Context} (hg : IsGap gap) (hx : IsName x) (hn : IsLiteral n)
  (hbranch : Mnemonic.isBranchText m.name = false) {s : Symbol} (hs : s.name = x)
  {table : SymbolTable} (htable : c.symbols.insert s = .ok table)
  (habsent : Names.Absent c.symbols.symbols (line m gap f (x ++ signOf minus :: n)))
  (hliteral : Names.Absent c.symbols.symbols (line m gap f
    (literal (takesWord m.name (beforeCore gap f)) s.address ++ signOf minus :: n)))
include hg hx hn hbranch hs htable habsent hliteral

/-- Where the sum could be resolved, it can be left to the linker, unless the name ends in
a digit; but what is left of it is the addend. -/
theorem deferred_sum_of_direct {address : Int} {number : Nat} {e : Encoded} {pending : List Text}
    (h : (Statement.assemble { c with symbols := table } (line m gap f (x ++ signOf minus :: n))
      address number).outcome = .ok (e, pending)) :
    ∃ opcode l, Opcode.encode m.name (f.mode (takesWord m.name (beforeCore gap f))) = .ok opcode
      ∧ Literal.read n = .ok l
      ∧ e = instruction m gap f opcode (summed minus s.address l.value)
      ∧ (¬ EndsInDigit x →
        (Statement.assemble { c with allowUnresolved := true }
            (line m gap f (x ++ signOf minus :: n)) address number).outcome
          = .ok (instruction m gap f opcode (summed minus 0 l.value), [x])) := by
  obtain ⟨above, below, hold, hnew⟩ := SymbolTable.exists_append_of_insert htable
  rw [Statement.assemble_known_sum (c := { c with symbols := table }) hg
    (hx.isWord.beginsOutside hg f) hn hbranch hnew hs
    (fun u hu => habsent u (hold ▸ List.mem_append_left below hu))
    (fun u hu => hliteral u (hold ▸ List.mem_append_right above hu))] at h
  obtain ⟨b, hb, h⟩ := Outcome.bind_eq_ok_iff.mp h
  obtain ⟨l, hl, h⟩ := Outcome.bind_eq_ok_iff.mp h
  obtain ⟨opcode, hop, heq⟩ := Outcome.map_eq_ok_iff.mp h
  cases heq
  refine ⟨opcode, l, hop, hl, rfl, fun hdigit => ?_⟩
  -- A zero is as long as any other literal, so it fits where the literal did.
  have hzero := splice_line_append_of_length_eq
    (b := Statement.bufferFor c (line m gap f (x ++ signOf minus :: n)) number) rfl
    (u := literal (takesWord m.name (beforeCore gap f)) 0) (by simp only [length_literal]) hb
  have hfind : c.symbols.find? x = none := hs ▸ SymbolTable.find?_eq_none_of_insert htable
  rw [Statement.assemble_unknown_sum (c := { c with allowUnresolved := true }) hg hx hdigit hn
    hbranch rfl hfind habsent, hl, hop]
  exact Outcome.bind_eq_ok_iff.mpr ⟨_, hzero, rfl⟩

end Survival

/-- Let a line with a sum assemble while its name is known.  With the name left to the linker
it is refused if the name ends in a digit, and links to the address without the addend if
not.  So the addend survives exactly if the name does not end in a digit and the operand has
no room for the addend. -/
theorem addend_survives_iff {c : Statement.Context} (hg : IsGap gap) (hx : IsName x)
    (hn : IsLiteral n) (hbranch : Mnemonic.isBranchText m.name = false) {s : Symbol}
    (hs : s.name = x) {table : SymbolTable} (htable : c.symbols.insert s = .ok table)
    (habsent : Names.Absent c.symbols.symbols (line m gap f (x ++ signOf minus :: n)))
    (hliteral : Names.Absent c.symbols.symbols (line m gap f
      (literal (takesWord m.name (beforeCore gap f)) s.address ++ signOf minus :: n)))
    (em : Emission) (number : Nat) {merged : SymbolTable} {sym : Symbol}
    (hmerged : merged.find? x = some sym) (hvalue : sym.address = s.address) (input : String)
    (before after : List UInt8) {e : Encoded} {pending : List Text}
    (hdirect : (Statement.assemble { c with symbols := table }
      (line m gap f (x ++ signOf minus :: n)) em.segment.finish number).outcome
        = .ok (e, pending)) :
    ∃ l, Literal.read n = .ok l
      ∧ e.operand = operandOf e.mode (summed minus s.address l.value)
      ∧ (EndsInDigit x →
        ∃ failure, (Statement.assemble { c with allowUnresolved := true }
          (line m gap f (x ++ signOf minus :: n)) em.segment.finish number).outcome
            = .error failure)
      ∧ (¬ EndsInDigit x →
        LinksTo c (line m gap f (x ++ signOf minus :: n)) em number x merged input before after
          { e with operand := operandOf e.mode s.address })
      ∧ (LinksTo c (line m gap f (x ++ signOf minus :: n)) em number x merged input before after e
        ↔ ¬ EndsInDigit x ∧ e.mode.modulus ∣ l.value) := by
  obtain ⟨opcode, l, hop, hl, rfl, hdeferred⟩ :=
    deferred_sum_of_direct hg hx hn hbranch hs htable habsent hliteral hdirect
  have hpatched := patchedImage_of_not_branch hop hbranch hmerged em number input before after
    (summed minus 0 l.value)
  rw [hvalue] at hpatched
  have hrefused : EndsInDigit x →
      ∃ failure, (Statement.assemble { c with allowUnresolved := true }
        (line m gap f (x ++ signOf minus :: n)) em.segment.finish number).outcome
          = .error failure := fun hdigit =>
    Statement.assemble_unknown_digit_sum (c := { c with allowUnresolved := true }) hg hx hdigit hn
      habsent em.segment.finish number
  have hsame :
      imageWith em before after (instruction m gap f opcode (summed minus s.address l.value))
          = imageWith em before after (instruction m gap f opcode s.address)
        ↔ (f.mode (takesWord m.name (beforeCore gap f))).modulus ∣ l.value :=
    imageWith_instruction_inj.trans (operandOf_summed_iff _ minus s.address l.value)
  refine ⟨l, hl, rfl, hrefused, fun hdigit => ⟨_, _, hdeferred hdigit, rfl, hpatched⟩, ?_, ?_⟩
  · rintro ⟨e', r, he', hr, himage⟩
    have hdigit : ¬ EndsInDigit x := by
      intro hdigit
      obtain ⟨failure, hfailure⟩ := hrefused hdigit
      rw [hfailure] at he'
      cases he'
    rw [hdeferred hdigit] at he'
    cases he'
    cases hr
    exact ⟨hdigit, hsame.mp (Except.ok.inj (himage.symm.trans hpatched))⟩
  · rintro ⟨hdigit, hdvd⟩
    exact ⟨_, _, hdeferred hdigit, rfl, hpatched.trans (congrArg Except.ok (hsame.mpr hdvd).symm)⟩

/-- The low byte of an address with a whole page added is that of the address, so an
immediate operand keeps its addend. -/
theorem addend_survives_iff_page :
    LinksTo ⟨⟨"<input>", [⟨"start".toList, .label, 0xC000, 0, none⟩]⟩, 80, false, "<input>"⟩
      (line .lda [' '] .immediate "vector+$0100".toList) ⟨.starting 0, 0, default, [], []⟩ 1
      "vector".toList ⟨"<input>", [⟨"vector".toList, .label, 0x1234, 0, none⟩]⟩ "<input>" [0xEA] []
      ⟨"lda".toList, .immediate, 0xA9, [0x34]⟩ := by
  have hname : IsName "vector".toList :=
    ⟨⟨by decide, by decide⟩, by decide, ⟨'v', by decide, by decide⟩⟩
  have hgap : IsGap [' '] := ⟨by decide, by decide⟩
  have hdigits : IsHexRun "0100".toList := ⟨by decide, by decide⟩
  have hn : IsLiteral "$0100".toList := .hexadecimal hdigits
  have habsent : Names.Absent [⟨"start".toList, .label, 0xC000, 0, none⟩]
      (line .lda [' '] .immediate "vector+$0100".toList) := by
    unfold Names.Absent
    decide
  have hliteral : Names.Absent [⟨"start".toList, .label, 0xC000, 0, none⟩]
      (line .lda [' '] .immediate "$34+$0100".toList) := by
    unfold Names.Absent
    decide
  have h := @addend_survives_iff .lda [' '] .immediate "vector".toList "$0100".toList false
    ⟨⟨"<input>", [⟨"start".toList, .label, 0xC000, 0, none⟩]⟩, 80, false, "<input>"⟩ hgap hname hn
    rfl ⟨"vector".toList, .label, 0x1234, 0, none⟩ rfl _ rfl habsent hliteral
    ⟨.starting 0, 0, default, [], []⟩ 1
    ⟨"<input>", [⟨"vector".toList, .label, 0x1234, 0, none⟩]⟩ _ rfl rfl "<input>" [0xEA] []
    ⟨"lda".toList, .immediate, 0xA9, [0x34]⟩ [] rfl
  obtain ⟨l, hl, -, -, -, hiff⟩ := h
  have hvalue : (⟨0x0100, true⟩ : Literal) = l := Except.ok.inj hl
  refine hiff.mpr ⟨not_endsInDigit_iff.mpr (by decide), ?_⟩
  rw [← hvalue]
  decide

/-- A context without symbols. -/
def bare : Statement.Context := ⟨⟨"<input>", []⟩, 80, true, "<input>"⟩

/-- A table of one label. -/
def labelled (x : Text) : SymbolTable := ⟨"<input>", [⟨x, .label, 3, 0, none⟩]⟩

/-- The address of a name takes the place of its sum with an addend, and a name that ends
in a digit is lost when its digits are folded. -/
theorem linked_sum_loses_addend :
    (Statement.assemble { bare with symbols := labelled "foo".toList } "lda foo+1".toList 0
        1).outcome = .ok (⟨"lda".toList, .absolute, 0xAD, [4, 0]⟩, [])
      ∧ LinksTo bare "lda foo+1".toList ⟨.starting 0, 0, default, [], []⟩ 1 "foo".toList
        (labelled "foo".toList) "<input>" [] [] ⟨"lda".toList, .absolute, 0xAD, [3, 0]⟩
      ∧ ¬ LinksTo bare "lda foo+1".toList ⟨.starting 0, 0, default, [], []⟩ 1 "foo".toList
        (labelled "foo".toList) "<input>" [] [] ⟨"lda".toList, .absolute, 0xAD, [4, 0]⟩
      ∧ (Statement.assemble { bare with symbols := labelled "foo1".toList } "lda foo1+1".toList 0
          1).outcome = .ok (⟨"lda".toList, .absolute, 0xAD, [4, 0]⟩, [])
      ∧ (Statement.assemble bare "lda foo1+1".toList 0 1).outcome
        = .error (.reading (.badOperand "foo$02".toList)) := by
  have hdeferred : (Statement.assemble { bare with allowUnresolved := true } "lda foo+1".toList 0
      1).outcome = .ok (⟨"lda".toList, .absolute, 0xAD, [1, 0]⟩, ["foo".toList]) := rfl
  have hpatched : patchedImage ⟨.starting 0, 0, default, [], []⟩ (labelled "foo".toList) "<input>"
      [] [] ⟨"lda".toList, .absolute, 0xAD, [1, 0]⟩
      (referenceTo ⟨.starting 0, 0, default, [], []⟩ 1 "foo".toList .absolute)
        = .ok [0xAD, 3, 0] := rfl
  refine ⟨rfl, ⟨_, _, hdeferred, rfl, hpatched⟩, ?_, rfl, rfl⟩
  rintro ⟨e', r, he', hr, himage⟩
  cases hdeferred.symm.trans he'
  cases hr
  exact absurd (Except.ok.inj (hpatched.symm.trans himage)) (by decide)

end Link

end Cross6502
