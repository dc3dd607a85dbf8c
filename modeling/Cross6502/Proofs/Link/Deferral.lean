import Cross6502.Assembly.Emission
import Cross6502.Link.Patch
import Cross6502.Proofs.Assembly.NamedLine
import Cross6502.Proofs.Outcome
import Cross6502.Proofs.Symbol.Table

/-!
# Leaving a name to the linker

A name that is unknown when a line is assembled can be left to the linker: the line
is encoded with a zero in its place, and the linker writes the operand once the name
is known.  The two ways to the operand share no code.  One puts digits into a line
that is then read, the other puts bytes into an image.

They agree.  The literal of an address has the width of the zero that held its place,
so both lines have one mode and one opcode; the mode in turn tells the linker how
many bytes to write, and whether to write a displacement; and the displacement, which
the assembler counts from the address of the instruction and the linker from that of
the operand, is the same number (`patchBytes_of_text_ok`, `patchBytes_of_text_error`).

The agreement asks that no name of the table stands in the line, neither as it was
written nor with the literal in place of the name.  The second half matters: a symbol
whose name is spelt like a literal captures the literal that was just written, and
the linker, which works on bytes, cannot follow.
-/

namespace Cross6502

open OperandForm Token Replacement

/-! ## Bytes of an image -/

namespace Link

theorem writeByte_middle (s : List UInt8) (old new : UInt8) (t : List UInt8) :
    writeByte (s ++ old :: t) (s.length : Int) new = .ok (s ++ new :: t) := by
  have hlt : s.length < (s ++ old :: t).length := by
    rw [List.length_append, List.length_cons]
    omega
  rw [writeByte, position?_of_lt hlt]
  simp only [List.set_append_right _ _ (Nat.le_refl s.length), Nat.sub_self, List.set_cons_zero]

/-- Writing over the middle of an image. -/
theorem writeBytes_middle {old new : List UInt8} (hlen : old.length = new.length)
    (s t : List UInt8) :
    writeBytes (s ++ old ++ t) (s.length : Int) new = .ok (s ++ new ++ t) := by
  induction new generalizing old s with
  | nil =>
    rw [List.length_eq_zero_iff.mp hlen]
    rfl
  | cons b new ih =>
    obtain ⟨a, old, rfl⟩ := List.exists_cons_of_length_pos (by rw [hlen]; exact Nat.succ_pos _)
    have hlen' : old.length = new.length := by simpa using hlen
    have hstep := ih hlen' (s ++ [b])
    rw [List.length_append, List.length_singleton, Int.natCast_add] at hstep
    simp only [List.append_assoc, List.cons_append, List.nil_append] at hstep ⊢
    rw [writeBytes, writeByte_middle]
    exact hstep

end Link

/-! ## The operand of a line and the operand the linker writes -/

section Operand

variable {m : Mnemonic} {gap : Text} {f : OperandForm} {opcode : UInt8}

section Patch

variable {r : Reference}
  (hop : Opcode.encode m.name (f.mode (takesWord m.name (beforeCore gap f))) = .ok opcode)
  (hmode : r.mode = f.mode (takesWord m.name (beforeCore gap f)))
include hop hmode

theorem mode_eq_relative_iff : r.mode = .relative ↔ Mnemonic.isBranchText m.name = true := by
  rw [Opcode.isBranchText_name, hmode]
  exact Opcode.relative_iff_isBranch m _ (Opcode.mem_opcodes_of_encode hop)

theorem Link.patchBytes_of_branch (hbranch : Mnemonic.isBranchText m.name = true)
    (input : String) (value address : Int) :
    patchBytes input r value (address + 1) =
      if reaches (displacement value address) then .ok [lowByte (displacement value address)]
      else .error (Failure.link
        (.branchRange input r.line r.name (displacement value address))).worded := by
  have hdistance : value - (address + 1 + 1) = displacement value address := by
    rw [displacement]
    omega
  rw [patchBytes, if_pos ((mode_eq_relative_iff hop hmode).mpr hbranch), hdistance]

theorem Link.patchBytes_of_not_branch (hbranch : Mnemonic.isBranchText m.name = false)
    (input : String) (value address : Int) :
    patchBytes input r value (address + 1) = .ok (operandOf r.mode value) := by
  have hmode' : r.mode ≠ .relative := by
    intro h
    rw [(mode_eq_relative_iff hop hmode).mp h] at hbranch
    exact absurd hbranch (by decide)
  rw [patchBytes, if_neg hmode', Reference.width, operandOf]
  cases r.mode.isWide <;> rfl

/-- Where the line gets a literal, the linker writes the operand of the line. -/
theorem Link.patchBytes_of_text_ok {value address : Int} {name t : Text}
    (ht : text m.name (beforeCore gap f) value address name = .ok t) (input : String) :
    ∃ n, t = literal (takesWord m.name (beforeCore gap f)) n ∧
      patchBytes input r value (address + 1) = .ok (operandOf r.mode n) := by
  cases hb : Mnemonic.isBranchText m.name with
  | true =>
    have hnarrow : ∀ n, operandOf r.mode n = [lowByte n] := by
      intro n
      rw [(mode_eq_relative_iff hop hmode).mpr hb]
      rfl
    rw [text_of_branch hb] at ht
    split at ht
    · rename_i hreach
      refine ⟨displacement value address, (Except.ok.inj ht).symm, ?_⟩
      rw [patchBytes_of_branch hop hmode hb, if_pos hreach, hnarrow]
    · cases ht
  | false =>
    rw [text_of_not_branch hb] at ht
    exact ⟨value, (Except.ok.inj ht).symm,
      patchBytes_of_not_branch hop hmode hb input value address⟩

/-- Where the line gets none, the linker refuses the same distance. -/
theorem Link.patchBytes_of_text_error {value address : Int} {name : Text} {e : Failure}
    (ht : text m.name (beforeCore gap f) value address name = .error e) (input : String) :
    ∃ d, e = (Failure.ofCause (.branchRange name d)).worded ∧
      patchBytes input r value (address + 1)
        = .error (Failure.link (.branchRange input r.line r.name d)).worded := by
  cases hb : Mnemonic.isBranchText m.name with
  | true =>
    rw [text_of_branch hb] at ht
    split at ht
    · cases ht
    · rename_i hreach
      refine ⟨displacement value address, (Except.error.inj ht).symm, ?_⟩
      rw [patchBytes_of_branch hop hmode hb, if_neg hreach]
  | false =>
    rw [text_of_not_branch hb] at ht
    cases ht

end Patch

end Operand

namespace Link

/-! ## Patching an image -/

section Image

variable {table : SymbolTable} {sym : Symbol} {r : Reference} {input : String} {site : Int}

theorem patch_middle (hfind : table.find? r.name = some sym) {bytes old : List UInt8}
    (hbytes : patchBytes input r sym.address site = .ok bytes) (hlen : bytes.length = r.width)
    (hold : old.length = r.width) (s t : List UInt8) :
    (patch table input r (s.length : Int) site (s ++ old ++ t)).outcome
      = .ok (s ++ bytes ++ t) := by
  have hroom : ¬ ((s ++ old ++ t).length : Int) < (s.length : Int) + r.width := by
    rw [List.length_append, List.length_append, hold]
    omega
  rw [patch, hfind]
  simp only [if_neg hroom, hbytes, writeBytes_middle (hold.trans hlen.symm), Logged.ofExcept,
    Logged.bind_ok, Logged.say, Logged.pure_eq]

theorem patch_refused (hfind : table.find? r.name = some sym) {e : Failure} {old : List UInt8}
    (hbytes : patchBytes input r sym.address site = .error e)
    (hold : old.length = r.width) (s t : List UInt8) :
    (patch table input r (s.length : Int) site (s ++ old ++ t)).outcome = .error e := by
  have hroom : ¬ ((s ++ old ++ t).length : Int) < (s.length : Int) + r.width := by
    rw [List.length_append, List.length_append, hold]
    omega
  rw [patch, hfind]
  simp only [if_neg hroom, hbytes, Logged.ofExcept, Logged.bind_error]

end Image

/-! ## Both ways -/

section Reference

variable {m : Mnemonic} {gap : Text} {f : OperandForm} {x : Text} {opcode : UInt8}
  {em : Emission} {number : Nat} {merged : SymbolTable} {sym : Symbol} {value : Int}
  (hop : Opcode.encode m.name (f.mode (takesWord m.name (beforeCore gap f))) = .ok opcode)
  (hmerged : merged.find? x = some sym) (hvalue : sym.address = value)

/-- The reference of an instruction that is about to be put out. -/
def referenceTo (em : Emission) (number : Nat) (x : Text) (mode : Mode) : Reference :=
  { name := x, segment := em.current, offset := (em.segment.size : Int) + 1
    mode := mode, line := number }

/-- An image in which the current segment holds one more instruction. -/
def imageWith (em : Emission) (before after : List UInt8) (e : Encoded) : List UInt8 :=
  before ++ (em.segment.append e.bytes).data ++ after

/-- The outcome of resolving the reference of an instruction in an image. -/
def patchedImage (em : Emission) (merged : SymbolTable) (input : String)
    (before after : List UInt8) (e : Encoded) (r : Reference) : Except Failure (List UInt8) :=
  (patch merged input r (before.length + r.offset) (em.segment.start + r.offset)
    (imageWith em before after e)).outcome

theorem imageWith_eq (before after : List UInt8) (e : Encoded) :
    imageWith em before after e
      = (before ++ em.segment.data ++ [e.opcode]) ++ e.operand ++ after := by
  simp [imageWith, Encoded.bytes]

theorem offset_referenceTo (before : List UInt8) (opcode : UInt8) (mode : Mode) :
    (before.length : Int) + (referenceTo em number x mode).offset
      = ((before ++ em.segment.data ++ [opcode]).length : Int) := by
  simp only [referenceTo, Segment.size, List.length_append, List.length_singleton]
  omega

theorem site_referenceTo (mode : Mode) :
    em.segment.start + (referenceTo em number x mode).offset = em.segment.finish + 1 := by
  simp only [referenceTo, Segment.size, Segment.finish]
  omega

include hmerged in
/-- Resolving the reference of an instruction replaces its operand, whatever that was. -/
theorem patchedImage_of_patchBytes {input : String} {n : Int}
    (hbytes : patchBytes input
        (referenceTo em number x (f.mode (takesWord m.name (beforeCore gap f)))) sym.address
        (em.segment.finish + 1)
      = .ok (operandOf (f.mode (takesWord m.name (beforeCore gap f))) n)) (k : Int)
    (before after : List UInt8) :
    patchedImage em merged input before after (instruction m gap f opcode k)
        (referenceTo em number x (f.mode (takesWord m.name (beforeCore gap f))))
      = .ok (imageWith em before after (instruction m gap f opcode n)) := by
  rw [patchedImage, imageWith_eq, imageWith_eq, offset_referenceTo before opcode, site_referenceTo]
  exact patch_middle hmerged hbytes (length_operandOf _ n) (length_operandOf _ k) _ after

include hop hmerged hvalue

theorem patchedImage_of_text_ok {t : Text}
    (ht : text m.name (beforeCore gap f) value em.segment.finish x = .ok t) (number : Nat)
    (input : String) (before after : List UInt8) :
    ∃ n, t = literal (takesWord m.name (beforeCore gap f)) n ∧
      patchedImage em merged input before after (instruction m gap f opcode 0)
          (referenceTo em number x (f.mode (takesWord m.name (beforeCore gap f))))
        = .ok (imageWith em before after (instruction m gap f opcode n)) := by
  obtain ⟨n, hn, hbytes⟩ := patchBytes_of_text_ok
    (r := referenceTo em number x (f.mode (takesWord m.name (beforeCore gap f)))) hop rfl ht input
  refine ⟨n, hn, ?_⟩
  rw [← hvalue] at hbytes
  exact patchedImage_of_patchBytes hmerged hbytes 0 before after

theorem patchedImage_of_text_error {e : Failure}
    (ht : text m.name (beforeCore gap f) value em.segment.finish x = .error e) (number : Nat)
    (input : String) (before after : List UInt8) :
    ∃ d, e = (Failure.ofCause (.branchRange x d)).worded ∧
      patchedImage em merged input before after (instruction m gap f opcode 0)
          (referenceTo em number x (f.mode (takesWord m.name (beforeCore gap f))))
        = .error (Failure.link (.branchRange input number x d)).worded := by
  obtain ⟨d, hd, hbytes⟩ := patchBytes_of_text_error
    (r := referenceTo em number x (f.mode (takesWord m.name (beforeCore gap f)))) hop rfl ht input
  refine ⟨d, hd, ?_⟩
  rw [← hvalue] at hbytes
  rw [patchedImage, imageWith_eq, offset_referenceTo before opcode, site_referenceTo]
  exact patch_refused hmerged hbytes (length_operandOf _ 0) _ after

end Reference

section Agreement

variable {m : Mnemonic} {gap : Text} {f : OperandForm} {x : Text} {c : Statement.Context}

section Direct

variable (hg : IsGap gap) (hx : IsName x) {s : Symbol} (hs : s.name = x) {table : SymbolTable}
  (htable : c.symbols.insert s = .ok table)
  (habsent : Names.Absent c.symbols.symbols (line m gap f x)) {address : Int} {number : Nat}
  (hliteral : ∀ t, text m.name (beforeCore gap f) s.address address x = .ok t →
    Names.Absent c.symbols.symbols (line m gap f t))
include hg hx hs htable habsent hliteral

/-- A line whose name is in the table is read with a literal in place of the name. -/
theorem assemble_direct :
    (Statement.assemble { c with symbols := table } (line m gap f x) address number).outcome =
      (text m.name (beforeCore gap f) s.address address x).bind fun t =>
        ((Statement.bufferFor c (line m gap f x) number).splice
          (corePosition gap f) x.length t).bind
            fun _ => (Encoded.ofLine (line m gap f t)).map fun e => (e, []) := by
  obtain ⟨above, below, hold, hnew⟩ := SymbolTable.exists_append_of_insert htable
  rw [hold] at habsent hliteral
  exact Statement.assemble_known_line (c := { c with symbols := table }) hg
    (hx.isWord.beginsOutside hg f) hnew hs
    (fun u hu => habsent u (List.mem_append_left below hu))
    (fun t ht u hu => hliteral t ht u (List.mem_append_right above hu)) number

/-- Where the name could be resolved, it can be left to the linker. -/
theorem deferred_of_direct {e : Encoded} {pending : List Text}
    (h : (Statement.assemble { c with symbols := table } (line m gap f x) address number).outcome
      = .ok (e, pending)) :
    ∃ opcode t, Opcode.encode m.name (f.mode (takesWord m.name (beforeCore gap f))) = .ok opcode
      ∧ text m.name (beforeCore gap f) s.address address x = .ok t
      ∧ (∀ n, t = literal (takesWord m.name (beforeCore gap f)) n →
        e = instruction m gap f opcode n)
      ∧ (Statement.assemble { c with allowUnresolved := true } (line m gap f x) address
          number).outcome = .ok (instruction m gap f opcode 0, [x]) := by
  rw [assemble_direct hg hx hs htable habsent hliteral] at h
  obtain ⟨t, ht, h⟩ := Outcome.bind_eq_ok_iff.mp h
  obtain ⟨b, hb, h⟩ := Outcome.bind_eq_ok_iff.mp h
  obtain ⟨e₀, he₀, heq⟩ := Outcome.map_eq_ok_iff.mp h
  cases heq
  obtain ⟨n, rfl⟩ := exists_literal_of_text ht
  obtain ⟨opcode, hop, -⟩ := ofLine_eq_ok hg he₀
  -- A zero is as long as any other literal, so it fits where the literal did.
  have hzero := splice_line_of_length_eq (b := Statement.bufferFor c (line m gap f x) number) rfl
    (u := literal (takesWord m.name (beforeCore gap f)) 0) (by simp only [length_literal]) hb
  have hfind : c.symbols.find? x = none := hs ▸ SymbolTable.find?_eq_none_of_insert htable
  refine ⟨opcode, _, hop, ht, fun k hk => ?_, ?_⟩
  · rw [hk, ofLine_of_encode hg hop] at he₀
    exact (Except.ok.inj he₀).symm
  · rw [Statement.assemble_unknown_line (c := { c with allowUnresolved := true }) hg hx rfl hfind
      habsent, ofLine_of_encode hg hop]
    exact Outcome.bind_eq_ok_iff.mpr ⟨_, hzero, rfl⟩

/-- Where the name was left to the linker, it could have been resolved, unless it had no
literal. -/
theorem direct_of_deferred {e : Encoded} {pending : List Text}
    (h : (Statement.assemble { c with allowUnresolved := true } (line m gap f x) address
      number).outcome = .ok (e, pending)) :
    ∃ opcode, Opcode.encode m.name (f.mode (takesWord m.name (beforeCore gap f))) = .ok opcode
      ∧ e = instruction m gap f opcode 0 ∧ pending = [x]
      ∧ ∀ n, text m.name (beforeCore gap f) s.address address x
          = .ok (literal (takesWord m.name (beforeCore gap f)) n) →
        (Statement.assemble { c with symbols := table } (line m gap f x) address number).outcome
          = .ok (instruction m gap f opcode n, []) := by
  have hfind : c.symbols.find? x = none := hs ▸ SymbolTable.find?_eq_none_of_insert htable
  rw [Statement.assemble_unknown_line (c := { c with allowUnresolved := true }) hg hx rfl hfind
    habsent] at h
  obtain ⟨b, hb, h⟩ := Outcome.bind_eq_ok_iff.mp h
  obtain ⟨e₀, he₀, heq⟩ := Outcome.map_eq_ok_iff.mp h
  obtain ⟨opcode, hop, rfl⟩ := ofLine_eq_ok hg he₀
  cases heq
  refine ⟨opcode, hop, rfl, rfl, fun n ht => ?_⟩
  have hfits := splice_line_of_length_eq (b := Statement.bufferFor c (line m gap f x) number) rfl
    (u := literal (takesWord m.name (beforeCore gap f)) n) (by simp only [length_literal]) hb
  rw [assemble_direct hg hx hs htable habsent hliteral, ht, Except.bind, hfits, Except.bind,
    ofLine_of_encode hg hop]
  rfl

end Direct

/-- Deferring a name to the linker agrees with resolving it.  Where the branch to it is refused
as out of range, the linker refuses it as well, unless the number of the line, which the
linker cites, is too long to be written. -/
theorem deferred_agrees_with_direct (hg : IsGap gap) (hx : IsName x) {s : Symbol} (hs : s.name = x)
    {table : SymbolTable} (htable : c.symbols.insert s = .ok table)
    (habsent : Names.Absent c.symbols.symbols (line m gap f x)) (em : Emission) (number : Nat)
    (hliteral : ∀ t, text m.name (beforeCore gap f) s.address em.segment.finish x = .ok t →
      Names.Absent c.symbols.symbols (line m gap f t))
    {merged : SymbolTable} {sym : Symbol} (hmerged : merged.find? x = some sym)
    (hvalue : sym.address = s.address) (input : String) (before after : List UInt8) :
    let direct := (Statement.assemble { c with symbols := table } (line m gap f x)
      em.segment.finish number).outcome
    let deferred := (Statement.assemble { c with allowUnresolved := true } (line m gap f x)
      em.segment.finish number).outcome
    (∀ e pending, direct = .ok (e, pending) →
      ∃ e' r, deferred = .ok (e', [x]) ∧ e'.opcode = e.opcode ∧ e'.mode = e.mode
        ∧ e'.size = e.size ∧ em.referencesOf number e' [x] = [r]
        ∧ patchedImage em merged input before after e' r
          = .ok (imageWith em before after e)) ∧
    (∀ e' pending, deferred = .ok (e', pending) →
      ∃ r, em.referencesOf number e' pending = [r] ∧
        ∀ d, patchedImage em merged input before after e' r
            = .error (.link (.branchRange input number x d))
          ↔ direct = .error (.ofCause (.branchRange x d)) ∧ Text.isWritable number = true) := by
  intro direct deferred
  constructor
  · intro e pending he
    obtain ⟨opcode, t, hop, ht, hinstruction, hdeferred⟩ :=
      deferred_of_direct hg hx hs htable habsent hliteral he
    obtain ⟨n, hn, hpatched⟩ :=
      patchedImage_of_text_ok hop hmerged hvalue ht number input before after
    rw [hinstruction n hn]
    refine ⟨instruction m gap f opcode 0, _, hdeferred, rfl, rfl, ?_, rfl, hpatched⟩
    simp only [Encoded.size, instruction, length_operandOf]
  · intro e' pending he'
    obtain ⟨opcode, hop, rfl, rfl, hdirect⟩ :=
      direct_of_deferred hg hx hs htable habsent hliteral he'
    refine ⟨referenceTo em number x (f.mode (takesWord m.name (beforeCore gap f))), rfl, ?_⟩
    intro d
    cases ht : text m.name (beforeCore gap f) s.address em.segment.finish x with
    | error e =>
      obtain ⟨d', rfl, hpatched⟩ :=
        patchedImage_of_text_error hop hmerged hvalue ht number input before after
      have herror : direct = .error (Failure.ofCause (.branchRange x d')).worded := by
        change (Statement.assemble _ _ _ _).outcome = _
        rw [assemble_direct hg hx hs htable habsent hliteral, ht]
        rfl
      -- The linker's message cites the line, too.
      rw [herror, hpatched, Except.error.injEq, Except.error.injEq,
        Failure.worded_eq_iff Failure.noConfusion, Failure.worded_eq_iff Failure.noConfusion]
      have hlink : (Failure.link (.branchRange input number x d')).numbers
          = [(number : Int), d'] := rfl
      have hsource : (Failure.ofCause (.branchRange x d')).numbers = [d'] := rfl
      rw [hlink, hsource, List.all_cons, Bool.and_eq_true, and_assoc,
        and_comm (a := Text.isWritable number = true)]
      refine and_congr_left fun _ => ⟨?_, ?_⟩
      · rintro ⟨⟩
        rfl
      · rintro ⟨⟩
        rfl
    | ok t =>
      obtain ⟨n, rfl, hpatched⟩ :=
        patchedImage_of_text_ok hop hmerged hvalue ht number input before after
      have hok : direct = .ok (instruction m gap f opcode n, []) := hdirect n ht
      rw [hok, hpatched]
      simp only [reduceCtorEq, false_and]

/-- The load of a vector in a program of one other label: the linker puts the address
where the zeros are. -/
theorem deferred_agrees_with_direct_vector :
    ∃ e' r,
      (Statement.assemble
          ⟨⟨"<input>", [⟨"start".toList, .label, 0xC000, 0, none⟩]⟩, 80, true, "<input>"⟩
          (line .lda [' '] .plain "vector".toList) 0 1).outcome = .ok (e', ["vector".toList])
        ∧ (⟨.starting 0, 0, default, [], []⟩ : Emission).referencesOf 1 e' ["vector".toList] = [r]
        ∧ patchedImage ⟨.starting 0, 0, default, [], []⟩
            ⟨"<input>", [⟨"vector".toList, .label, 0x1234, 0, none⟩]⟩ "<input>" [0xEA] [] e' r
          = .ok [0xEA, 0xAD, 0x34, 0x12] := by
  have hname : IsName "vector".toList :=
    ⟨⟨by decide, by decide⟩, by decide, ⟨'v', by decide, by decide⟩⟩
  have hgap : IsGap [' '] := ⟨by decide, by decide⟩
  have habsent : Names.Absent [⟨"start".toList, .label, 0xC000, 0, none⟩]
      (line .lda [' '] .plain "vector".toList) := by
    unfold Names.Absent
    decide
  have hliteral : ∀ t, text Mnemonic.lda.name (beforeCore [' '] .plain) 0x1234 0 "vector".toList
      = .ok t → Names.Absent [⟨"start".toList, .label, 0xC000, 0, none⟩]
        (line .lda [' '] .plain t) := by
    intro t ht
    have hdigits : t = "$1234".toList := (Except.ok.inj ht).symm
    rw [hdigits]
    unfold Names.Absent
    decide
  have h := @deferred_agrees_with_direct .lda [' '] .plain "vector".toList
    ⟨⟨"<input>", [⟨"start".toList, .label, 0xC000, 0, none⟩]⟩, 80, false, "<input>"⟩ hgap hname
    ⟨"vector".toList, .label, 0x1234, 0, none⟩ rfl _ rfl habsent
    ⟨.starting 0, 0, default, [], []⟩ 1 hliteral
    ⟨"<input>", [⟨"vector".toList, .label, 0x1234, 0, none⟩]⟩ _ rfl rfl "<input>" [0xEA] []
  obtain ⟨e', r, hdeferred, -, -, -, hr, hpatched⟩ :=
    h.1 ⟨"lda".toList, .absolute, 0xAD, [0x34, 0x12]⟩ [] rfl
  exact ⟨e', r, hdeferred, hr, hpatched⟩

end Agreement

/-- A symbol that is spelt like the literal of a name captures the literal.  The line
is assembled with the address of that symbol, and the linker writes the address of the
name. -/
theorem direct_differs_from_patched :
    ∃ (c : Statement.Context) (s : Symbol) (table : SymbolTable) (em : Emission)
      (e e' : Encoded) (r : Reference) (image : List UInt8),
      IsName s.name ∧ c.symbols.insert s = .ok table
      ∧ Names.Absent c.symbols.symbols (line .lda [' '] .plain s.name)
      ∧ (Statement.assemble { c with symbols := table } (line .lda [' '] .plain s.name)
          em.segment.finish 1).outcome = .ok (e, [])
      ∧ (Statement.assemble { c with allowUnresolved := true } (line .lda [' '] .plain s.name)
          em.segment.finish 1).outcome = .ok (e', [s.name])
      ∧ em.referencesOf 1 e' [s.name] = [r]
      ∧ patchedImage em table "<input>" [] [] e' r = .ok image
      ∧ image ≠ imageWith em [] [] e := by
  refine ⟨⟨⟨"<input>", [⟨"$1234".toList, .label, 0x5678, 0, none⟩]⟩, 80, false, "<input>"⟩,
    ⟨"vector".toList, .label, 0x1234, 0, none⟩, _, ⟨.starting 0, 0, default, [], []⟩,
    ⟨"lda".toList, .absolute, 0xAD, [0x78, 0x56]⟩, ⟨"lda".toList, .absolute, 0xAD, [0, 0]⟩,
    _, [0xAD, 0x34, 0x12], ?_, rfl, ?_, ?_, ?_, rfl, ?_, ?_⟩
  · exact ⟨⟨by decide, by decide⟩, by decide, ⟨'v', by decide, by decide⟩⟩
  · unfold Names.Absent
    decide
  · rfl
  · rfl
  · rfl
  · decide

end Link

end Cross6502
