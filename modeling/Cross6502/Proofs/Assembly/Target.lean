import Cross6502.Disassembly.Line
import Cross6502.Proofs.Assembly.SoleName

/-!
# Where assembled branches, jumps and calls go

The assembler writes the distance to a label into a branch, in two's complement, and its
address into a jump or a call.  `transferTarget` takes the target out of the bytes again.  The
two were not written for one another, but agree on every label that can be reached
(`Statement.transfer_goes_to_label`).

They do not agree on a label with an addend.  Whether a branch can reach its label is asked
before the addend is folded in, and folding adds the bytes as they are written.  What comes out
is the distance to the sum, modulo 256: the branch goes to the sum exactly if that is in reach,
and else to a place that is a multiple of 256 bytes away from it
(`Statement.branch_sum_goes_to_sum_iff`).
-/

namespace Cross6502

open OperandForm Token Replacement Arithmetic

/-! ## Targets of encoded instructions -/

theorem signed_lowByte_eq_bmod (n : Int) : signed (lowByte n) = n.bmod 256 := by
  have hbyte := toNat_lowByte n
  rw [signed, Int.bmod_def]
  split <;> split <;> omega

section Encoded

variable {m : Mnemonic} {mode : Mode} {opcode : UInt8}

theorem isNumberOf_branches_of_encode (hop : Opcode.encode m.name mode = .ok opcode) :
    Opcode.isNumberOf Opcode.branches opcode.toNat = m.isBranch :=
  Opcode.isNumberOf_branches m _ (Opcode.mem_opcodes_of_encode hop)

/-- A branch goes by the distance that its byte stands for. -/
theorem transferTarget_branch (hop : Opcode.encode m.name mode = .ok opcode)
    (hm : m.isBranch = true) (distance address : Int) :
    transferTarget opcode.toNat [lowByte distance] address
      = .ok ((address + 2 + distance.bmod 256) % 65536) := by
  rw [transferTarget, isNumberOf_branches_of_encode hop, hm, if_pos rfl, signed_lowByte_eq_bmod]

/-- A jump or a call goes to the address in its operand. -/
theorem transferTarget_jump (hop : Opcode.encode m.name mode = .ok opcode)
    (hm : m.isBranch = false) (target address : Int) :
    transferTarget opcode.toNat [lowByte target, highByte target] address
      = .ok (target % 65536) := by
  rw [transferTarget, isNumberOf_branches_of_encode hop, hm, if_neg (by decide)]
  exact congrArg Except.ok (word_lowByte_highByte target)

end Encoded

theorem bmod_of_reaches {distance : Int} (h : reaches distance = true) :
    distance.bmod 256 = distance := by
  obtain ⟨hleast, hmost⟩ := reaches_iff.mp h
  rw [← signed_lowByte_eq_bmod, signed_lowByte hleast hmost]

/-- Up to half the address space away, only what is in reach is where a distance modulo 256
leads. -/
theorem emod_add_bmod_eq_iff {origin target : Int} (h : (target - origin).natAbs ≤ 32768) :
    (origin + (target - origin).bmod 256) % 65536 = target % 65536
      ↔ -128 ≤ target - origin ∧ target - origin ≤ 127 := by
  rw [Int.bmod_def]
  split <;> omega

/-! ## Sums in branches -/

theorem Literal.value_le_of_read {t : Text} {l : Literal} (h : Literal.read t = .ok l)
    (hnarrow : l.wide = false) : l.value ≤ 255 := by
  rw [Literal.read] at h
  split at h
  · cases h
    exact Nat.zero_le 255
  · dsimp only at h
    split at h
    · cases h
    · cases h
      rw [Bool.or_eq_false_iff, decide_eq_false_iff_not, decide_eq_false_iff_not] at hnarrow
      exact Nat.le_of_not_lt hnarrow.2

/-- A branch takes a folded sum only if the sum is written as one byte, and then that is the
low byte of the sum. -/
theorem ofLine_folded_branch {m : Mnemonic} {gap : Text} (hg : IsGap gap) (hm : m.isBranch = true)
    {minus : Bool} {v : Int} {l : Literal} {e : Encoded}
    (h : Encoded.ofLine (line m gap .plain (folded minus false v l)) = .ok e) :
    l.wide = false ∧ Opcode.encode m.name .relative = .ok e.opcode
      ∧ e.operand = [lowByte (summed minus v l.value)] := by
  rw [folded, ofLine_literal hg] at h
  obtain ⟨opcode, hop, rfl⟩ := Outcome.map_eq_ok_iff.mp h
  cases hwide : (false || l.wide || decide (255 < total minus (kept false v) l.value)) with
  | true =>
    -- a branch has no mode for an operand of two bytes
    rw [hwide] at hop
    have hmode := (Opcode.relative_iff_isBranch m _ (Opcode.mem_opcodes_of_encode hop)).mpr hm
    cases hmode
  | false =>
    rw [hwide] at hop
    have hrelative : (OperandForm.plain.mode false).isWide = true → false = true :=
      fun h => absurd h (by decide)
    have hbytes := operandBytes_kept hrelative (total minus (kept false v) l.value)
    rw [operandOf_total hrelative] at hbytes
    rw [Bool.false_or, Bool.or_eq_false_iff] at hwide
    exact ⟨hwide.1, hop, hbytes⟩

/-! ## Instructions that hold a label -/

/-- Jumps, calls and branches have an opcode for a number that stands alone. -/
theorem exists_encode_transfer {m : Mnemonic} (hm : m = .jmp ∨ m = .jsr ∨ m.isBranch = true) :
    ∃ opcode, Opcode.encode m.name (OperandForm.plain.mode (!m.isBranch)) = .ok opcode := by
  have hall : ∀ m : Mnemonic, m = .jmp ∨ m = .jsr ∨ m.isBranch = true →
      (Opcode.encode m.name (OperandForm.plain.mode (!m.isBranch))).isOk = true := by
    intro m
    cases m <;> decide
  have hok := hall m hm
  cases hop : Opcode.encode m.name (OperandForm.plain.mode (!m.isBranch)) with
  | ok opcode => exact ⟨opcode, rfl⟩
  | error e =>
    rw [hop] at hok
    cases hok

section Instruction

variable {m : Mnemonic} {gap : Text} {opcode : UInt8}

/-- An instruction with the distance or the address of a label in it goes to the label. -/
theorem transferTarget_instruction (hg : IsGap gap)
    (hop : Opcode.encode m.name (OperandForm.plain.mode (!m.isBranch)) = .ok opcode)
    {value address : Int}
    (hreach : m.isBranch = true → reaches (displacement value address) = true) :
    transferTarget opcode.toNat (instruction m gap .plain opcode
        (if m.isBranch then displacement value address else value)).operand address
      = .ok (value % 65536) := by
  rw [instruction, takesWord_of_opening_eq_nil hg rfl]
  cases hm : m.isBranch with
  | true =>
    have horigin : address + 2 + displacement value address = value := by
      rw [displacement]
      omega
    have htarget := transferTarget_branch hop hm (displacement value address) address
    rw [bmod_of_reaches (hreach hm), horigin] at htarget
    exact htarget
  | false => exact transferTarget_jump hop hm value address

end Instruction

namespace Statement

section Sole

variable {c : Context} {s : Symbol} {m : Mnemonic} {gap : Text} {address : Int} {number : Nat}
  {n : Text} {minus : Bool} {e : Encoded} {pending : List Text}

/-- A branch with a sum that assembles holds the low byte of the distance to the sum.  The
label is in reach and the addend is a byte, so the sum is not far away. -/
theorem exists_of_assemble_branch_sum (hg : IsGap gap) (hm : m.isBranch = true)
    (hn : IsLiteral n) (hsole : SoleName c.symbols s m gap .plain (signOf minus :: n) address)
    (h : (assemble c (line m gap .plain (s.name ++ signOf minus :: n)) address number).outcome
      = .ok (e, pending)) :
    ∃ l, Literal.read n = .ok l ∧ Opcode.encode m.name .relative = .ok e.opcode
      ∧ e.operand = [lowByte (summed minus s.address l.value - (address + 2))]
      ∧ (summed minus s.address l.value - (address + 2)).natAbs ≤ 383 := by
  have hbranch : Mnemonic.isBranchText m.name = true := by rw [Opcode.isBranchText_name, hm]
  have htext := text_of_branch hbranch (beforeCore gap .plain) s.address address s.name
  by_cases hreach : reaches (displacement s.address address) = true
  · rw [if_pos hreach, takesWord_of_opening_eq_nil hg rfl, hm] at htext
    obtain ⟨b, l, -, hl, he, -⟩ := exists_of_assemble_sole_sum hg hn hsole htext h
    obtain ⟨hnarrow, hop, hoperand⟩ := ofLine_folded_branch hg hm he
    have hdistance : summed minus (displacement s.address address) l.value
        = summed minus s.address l.value - (address + 2) := by
      rw [summed, summed, displacement]
      split <;> omega
    rw [hdistance] at hoperand
    refine ⟨l, hl, hop, hoperand, ?_⟩
    have hvalue := Literal.value_le_of_read hl hnarrow
    have hlabel := reaches_iff.mp hreach
    rw [← hdistance, summed]
    split <;> omega
  · rw [if_neg hreach] at htext
    rw [assemble_sole_error hg (isAddend_of_isLiteral hn minus) hsole htext] at h
    cases h

/-- Let a branch to a label with an addend assemble.  It goes to the sum with the distance
taken modulo 256.  So it goes to the sum exactly if the sum is in reach. -/
theorem branch_sum_goes_to_sum_iff (hg : IsGap gap) (hm : m.isBranch = true) (hn : IsLiteral n)
    (hsole : SoleName c.symbols s m gap .plain (signOf minus :: n) address)
    (h : (assemble c (line m gap .plain (s.name ++ signOf minus :: n)) address number).outcome
      = .ok (e, pending)) :
    ∃ l, Literal.read n = .ok l
      ∧ transferTarget e.opcode.toNat e.operand address
        = .ok ((address + 2 + (summed minus s.address l.value - (address + 2)).bmod 256) % 65536)
      ∧ (transferTarget e.opcode.toNat e.operand address
          = .ok (summed minus s.address l.value % 65536)
        ↔ -128 ≤ summed minus s.address l.value - (address + 2)
          ∧ summed minus s.address l.value - (address + 2) ≤ 127) := by
  obtain ⟨l, hl, hop, hoperand, hnear⟩ := exists_of_assemble_branch_sum hg hm hn hsole h
  have htarget := transferTarget_branch hop hm
    (summed minus s.address l.value - (address + 2)) address
  rw [← hoperand] at htarget
  refine ⟨l, hl, htarget, ?_⟩
  rw [htarget, Except.ok.injEq]
  exact emod_add_bmod_eq_iff (Nat.le_trans hnear (by decide))

/-- A label right behind a branch at address zero. -/
def ahead : Context :=
  ⟨⟨"<input>", [⟨"next".toList, .label, 2, 2, none⟩]⟩, 80, false, "<input>"⟩

theorem branch_sum_goes_to_sum_iff_ahead :
    (assemble ahead "bne next+%1111111".toList 0 1).outcome
      = .ok (⟨"bne".toList, .relative, 0xD0, [0x7F]⟩, [])
    ∧ transferTarget 0xD0 [0x7F] 0 = .ok ((2 + 127) % 65536) := by
  have hgap : IsGap [' '] := ⟨by decide, by decide⟩
  have hn : IsLiteral "%1111111".toList := .binary (by decide) (by decide)
  have hnodup : ahead.symbols.NamesNodup := List.nodup_singleton _
  have hplain : ∀ u ∈ ahead.symbols.symbols, IsPlainName u.name := by
    intro u hu
    rw [List.mem_singleton.mp hu]
    exact ⟨by decide, by decide⟩
  have hsole : SoleName ahead.symbols ⟨"next".toList, .label, 2, 2, none⟩ .bne [' '] .plain
      (signOf false :: "%1111111".toList) 0 :=
    .of_isPlainName hgap (isAddend_of_isLiteral hn false) hnodup hplain List.mem_cons_self
  obtain ⟨l, hl, -, hiff⟩ := @branch_sum_goes_to_sum_iff ahead
    ⟨"next".toList, .label, 2, 2, none⟩ .bne [' '] 0 1 "%1111111".toList false
    ⟨"bne".toList, .relative, 0xD0, [0x7F]⟩ [] hgap rfl hn hsole rfl
  have hvalue : (⟨127, false⟩ : Literal) = l := Except.ok.inj hl
  rw [← hvalue] at hiff
  exact ⟨rfl, hiff.mpr (by decide)⟩

/-- The label is in reach and the sum is not.  The branch is not refused, and goes backwards. -/
theorem branch_sum_goes_astray :
    (assemble ahead "bne next+200".toList 0 1).outcome
      = .ok (⟨"bne".toList, .relative, 0xD0, [0xC8]⟩, [])
    ∧ transferTarget 0xD0 [0xC8] 0 = .ok 0xFFCA ∧ (0xFFCA : Int) ≠ (2 + 200) % 65536 :=
  ⟨rfl, rfl, by decide⟩

end Sole

/-! ## Labels that stand alone -/

/-- A buffer has room for the literal of a name in the place of the name.  A literal that is
no longer than the name always has room. -/
def HasRoom (capacity : Int) (m : Mnemonic) (gap : Text) (f : OperandForm) (x : Text) : Prop :=
  x.length < (placeholder m.name (beforeCore gap f)).length →
    ((line m gap f (placeholder m.name (beforeCore gap f))).length : Int) < capacity

/-- All literals of a name are as long as the placeholder. -/
theorem HasRoom.exists_splice {c : Context} {m : Mnemonic} {gap : Text} {f : OperandForm}
    {x : Text} (h : HasRoom c.capacity m gap f x) (number : Nat) (v : Int) :
    ∃ b, (bufferFor c (line m gap f x) number).splice (corePosition gap f) x.length
      (literal (takesWord m.name (beforeCore gap f)) v) = .ok b := by
  have hlength : (placeholder m.name (beforeCore gap f)).length
      = (literal (takesWord m.name (beforeCore gap f)) v).length := by
    rw [placeholder_eq, length_literal, length_literal]
  have hlimit : (bufferFor c (line m gap f x) number).limit = c.capacity - 1 := rfl
  rw [splice_line rfl, if_neg]
  · exact ⟨_, rfl⟩
  · rintro ⟨hlonger, hneeded⟩
    have hfits := h (hlength ▸ hlonger)
    rw [line_eq_append, List.length_append, List.length_append, length_lead, hlength] at hfits
    omega

section Label

variable {c : Context} {s : Symbol} {m : Mnemonic} {gap : Text} {address : Int}
  (hg : IsGap gap) (hsole : SoleName c.symbols s m gap .plain [] address)
include hg hsole

/-- A branch to a label out of reach is refused. -/
theorem assemble_of_not_reaches (hm : m.isBranch = true)
    (hfar : ¬ reaches (displacement s.address address) = true) (number : Nat) :
    (assemble c (line m gap .plain s.name) address number).outcome
      = .error (Failure.ofCause
        (.branchRange s.name (displacement s.address address))).worded := by
  have hbranch : Mnemonic.isBranchText m.name = true := by rw [Opcode.isBranchText_name, hm]
  rw [assemble_sole_line hg hsole, text_of_branch hbranch, if_neg hfar]
  rfl

/-- Any other instruction that transfers control to a label is assembled, and goes there. -/
theorem exists_transfer_of_reaches (hm : m = .jmp ∨ m = .jsr ∨ m.isBranch = true)
    (hroom : HasRoom c.capacity m gap .plain s.name)
    (hreach : m.isBranch = true → reaches (displacement s.address address) = true)
    (number : Nat) :
    ∃ e, (assemble c (line m gap .plain s.name) address number).outcome = .ok (e, [])
      ∧ transferTarget e.opcode.toNat e.operand address = .ok (s.address % 65536) := by
  obtain ⟨opcode, hop⟩ := exists_encode_transfer hm
  refine ⟨instruction m gap .plain opcode
    (if m.isBranch then displacement s.address address else s.address), ?_,
    transferTarget_instruction hg hop hreach⟩
  have hword : takesWord m.name (beforeCore gap .plain) = !m.isBranch :=
    takesWord_of_opening_eq_nil hg rfl
  obtain ⟨b, hb⟩ := hroom.exists_splice number
    (if m.isBranch then displacement s.address address else s.address)
  rw [← hword] at hop
  rw [assemble_sole_line hg hsole, text_of_reaches hreach]
  simp only [Except.bind, hb, ofLine_of_encode hg hop]
  rfl

end Label

/-- A branch, a jump or a call to a label, in a buffer that has room for it.  It is refused
exactly if it is a branch and the label is out of reach: as out of range, or, if the distance
has more digits than are written, for that.  In all other cases it is assembled, and goes to
the label. -/
theorem transfer_goes_to_label {c : Context} {s : Symbol} {m : Mnemonic} {gap : Text}
    {address : Int} {number : Nat} (hg : IsGap gap)
    (hm : m = .jmp ∨ m = .jsr ∨ m.isBranch = true)
    (hsole : SoleName c.symbols s m gap .plain [] address) (hleast : 0 ≤ s.address)
    (hmost : s.address ≤ 0xFFFF) (hroom : HasRoom c.capacity m gap .plain s.name) :
    let outcome := (assemble c (line m gap .plain s.name) address number).outcome
    let distance := s.address - (address + 2)
    (outcome = .error (.ofCause (.branchRange s.name distance))
      ↔ m.isBranch = true ∧ ¬ (-128 ≤ distance ∧ distance ≤ 127)
        ∧ Text.isWritable distance = true)
    ∧ (outcome = .error (.value .tooLongToWrite)
      ↔ m.isBranch = true ∧ ¬ (-128 ≤ distance ∧ distance ≤ 127)
        ∧ Text.isWritable distance = false)
    ∧ (outcome ≠ .error (.ofCause (.branchRange s.name distance)) →
      outcome ≠ .error (.value .tooLongToWrite) →
      ∃ e, outcome = .ok (e, [])
        ∧ transferTarget e.opcode.toNat e.operand address = .ok s.address) := by
  intro outcome distance
  have hreaches : reaches distance = true ↔ -128 ≤ distance ∧ distance ≤ 127 := reaches_iff
  rw [← hreaches]
  by_cases hreach : m.isBranch = true → reaches distance = true
  · obtain ⟨e, he, htarget⟩ := exists_transfer_of_reaches hg hsole hm hroom hreach number
    rw [Int.emod_eq_of_lt hleast (by omega)] at htarget
    have hok : outcome = .ok (e, []) := he
    have hnever : ∀ f, outcome ≠ .error f := fun f hf => by cases hok.symm.trans hf
    exact ⟨⟨fun h => absurd h (hnever _), fun h => absurd (hreach h.1) h.2.1⟩,
      ⟨fun h => absurd h (hnever _), fun h => absurd (hreach h.1) h.2.1⟩,
      fun _ _ => ⟨e, hok, htarget⟩⟩
  · obtain ⟨hbranch, hfar⟩ := Classical.not_imp.mp hreach
    have herror : outcome
        = .error (Failure.ofCause (.branchRange s.name distance)).worded :=
      assemble_of_not_reaches hg hsole hbranch hfar number
    have hnumbers : (Failure.ofCause (.branchRange s.name distance)).numbers.all Text.isWritable
        = Text.isWritable distance := Bool.and_true _
    have hother : Failure.value .tooLongToWrite ≠ .ofCause (.branchRange s.name distance) :=
      Failure.noConfusion
    cases hwritable : Text.isWritable distance with
    | true =>
      rw [Failure.worded_of_writable (hnumbers.trans hwritable)] at herror
      rw [herror]
      exact ⟨⟨fun _ => ⟨hbranch, hfar, rfl⟩, fun _ => rfl⟩,
        ⟨fun h => absurd (Except.error.inj h).symm hother, fun h => absurd h.2.2 (by decide)⟩,
        fun h => absurd rfl h⟩
    | false =>
      rw [Failure.worded_of_not_writable (by rw [hnumbers, hwritable]; decide)] at herror
      rw [herror]
      exact ⟨⟨fun h => absurd (Except.error.inj h) hother, fun h => absurd h.2.2 (by decide)⟩,
        ⟨fun _ => ⟨hbranch, hfar, rfl⟩, fun _ => rfl⟩, fun _ h => absurd rfl h⟩

/-- A label as far ahead as a branch can reach, with a name that is also a number and the
accumulator. -/
def farthest : Context :=
  ⟨⟨"<input>", [⟨"a".toList, .label, 0x1081, 2, none⟩]⟩, 80, false, "<input>"⟩

theorem transfer_goes_to_label_farthest :
    ∃ e, (assemble farthest "bpl a".toList 0x1000 1).outcome = .ok (e, [])
      ∧ transferTarget e.opcode.toNat e.operand 0x1000 = .ok 0x1081 := by
  have hgap : IsGap [' '] := ⟨by decide, by decide⟩
  have hnodup : farthest.symbols.NamesNodup := List.nodup_singleton _
  have hplain : ∀ u ∈ farthest.symbols.symbols, IsPlainName u.name := by
    intro u hu
    rw [List.mem_singleton.mp hu]
    exact ⟨by decide, by decide⟩
  have hsole : SoleName farthest.symbols ⟨"a".toList, .label, 0x1081, 2, none⟩ .bpl [' '] .plain
      [] 0x1000 :=
    .of_isPlainName hgap isAddend_nil hnodup hplain List.mem_cons_self
  have hroom : HasRoom farthest.capacity .bpl [' '] .plain "a".toList := fun _ => by decide
  have h := @transfer_goes_to_label farthest ⟨"a".toList, .label, 0x1081, 2, none⟩ .bpl [' ']
    0x1000 1 hgap (.inr (.inr rfl)) hsole (by decide) (by decide) hroom
  exact h.2.2 (fun herror => absurd (h.1.mp herror).2.1 (by decide))
    fun herror => absurd (h.2.1.mp herror).2.1 (by decide)

/-- The last label there can be. -/
def last : Context :=
  ⟨⟨"<input>", [⟨"far".toList, .label, 0xFFFF, 0, none⟩]⟩, 80, false, "<input>"⟩

/-- Two ways for a transfer to end otherwise.  A symbol that is spelt like the literal of a
label captures the literal, and a jump goes to its address.  A branch that starts far enough
below a label is out of range, and is not refused as such, since the distance is too long to
be written. -/
theorem transfer_misses_label :
    (∃ (c : Context) (s : Symbol) (e : Encoded), s ∈ c.symbols.symbols ∧ IsPlainName s.name
      ∧ Names.Absent (c.symbols.symbols.erase s) (line .jmp [' '] .plain s.name)
      ∧ (assemble c (line .jmp [' '] .plain s.name) 0 1).outcome = .ok (e, [])
      ∧ transferTarget e.opcode.toNat e.operand 0 ≠ .ok s.address)
    ∧ (assemble last (line .bne [' '] .plain "far".toList) (1 - Numeral.decimalLimit) 1).outcome
      = .error (.value .tooLongToWrite) := by
  constructor
  · refine ⟨⟨⟨"<input>", [⟨"vector".toList, .label, 0x1234, 0, none⟩,
        ⟨"$1234".toList, .label, 0x5678, 0, none⟩]⟩, 80, false, "<input>"⟩,
      ⟨"vector".toList, .label, 0x1234, 0, none⟩,
      ⟨"jmp".toList, .absolute, 0x4C, [0x78, 0x56]⟩, List.mem_cons_self, ?_, ?_, rfl, ?_⟩
    · exact ⟨by decide, by decide⟩
    · unfold Names.Absent
      decide
    · intro htarget
      have hcaptured : transferTarget 0x4C [0x78, 0x56] 0 = .ok 0x5678 := rfl
      cases hcaptured.symm.trans htarget
  · have hgap : IsGap [' '] := ⟨by decide, by decide⟩
    have hplain : ∀ u ∈ last.symbols.symbols, IsPlainName u.name := by
      intro u hu
      rw [List.mem_singleton.mp hu]
      exact ⟨by decide, by decide⟩
    have hsole : SoleName last.symbols ⟨"far".toList, .label, 0xFFFF, 0, none⟩ .bne [' '] .plain
        [] (1 - Numeral.decimalLimit) :=
      .of_isPlainName hgap isAddend_nil (List.nodup_singleton _) hplain List.mem_cons_self
    have hdistance : displacement 0xFFFF (1 - Numeral.decimalLimit)
        = Numeral.decimalLimit + 65532 := by
      rw [displacement]
      omega
    have hfar : ¬ reaches (displacement 0xFFFF (1 - Numeral.decimalLimit)) = true := by
      rw [hdistance, reaches_iff]
      omega
    have hlong : ¬ Text.isWritable (displacement 0xFFFF (1 - Numeral.decimalLimit)) = true := by
      rw [hdistance, Numeral.isWritable_iff]
      omega
    refine (assemble_of_not_reaches hgap hsole rfl hfar 1).trans ?_
    rw [Failure.worded_of_not_writable]
    intro hnumbers
    exact hlong (List.all_eq_true.mp hnumbers _ List.mem_cons_self)

end Statement

end Cross6502
