import Cross6502.Proofs.Assembly.Produced
import Cross6502.Proofs.Disassembly.Partition
import Cross6502.Proofs.Disassembly.Reading

/-!
# Encoded lines, shown again

One instruction can be written in many ways: in capitals, in any base, with more digits or
fewer, with blanks and stray decoration in its operand.  The bytes keep nothing of this.  What
they keep is the operation, the mode and the operand bytes, and these three are all that the
disassembler goes by.

So the instruction that is shown for encoded bytes is the one that was encoded
(`decode_of_ofLine`), written in the one way in which the disassembler writes its mode.  That
way of writing is read back to the mode and the bytes (`exists_ofLine_shown`), wherever the
instruction is said to stand: without a label, a branch is shown by its displacement, and the
address plays no part.
-/

namespace Cross6502

open Disassembler

/-! ## From a line to its instruction -/

namespace Encoded

variable {line : Text} {e : Encoded}

theorem mnemonic_of_ofLine (h : ofLine line = .ok e) :
    e.mnemonic = Line.mnemonic (Text.trim line) := by
  rw [ofLine] at h
  split at h
  · cases h
  · obtain ⟨mode, -, h⟩ := Outcome.bind_eq_ok_iff.mp h
    split at h
    · cases h
    · obtain ⟨opcode, -, h⟩ := Outcome.bind_eq_ok_iff.mp h
      obtain ⟨literal, -, h⟩ := Outcome.bind_eq_ok_iff.mp h
      cases h
      rfl

/-- The opcode of an encoded line decodes to the mnemonic in lower case and to the mode. -/
theorem decode_of_ofLine (h : ofLine line = .ok e) :
    ∃ m, m.name = Text.lower e.mnemonic ∧ Opcode.decode e.opcode = some (m, e.mode) := by
  obtain ⟨m, hspelt, hmem, -, -⟩ := of_ofLine h
  have hname : m.name = Text.lower (Line.mnemonic (Text.trim line)) := by
    simpa using List.find?_some hspelt
  exact ⟨m, by rw [hname, mnemonic_of_ofLine h], Opcode.decode_of_mem m _ hmem⟩

/-- An encoded instruction as it is found at an address. -/
def siteAt (e : Encoded) (address : Int) : Site := ⟨address, e.opcode, e.operand⟩

/-- The operand bytes are as many as the opcode asks for. -/
theorem operand_siteAt (h : ofLine line = .ok e) (address : Int) :
    (e.siteAt address).operand = e.operand ∧ (e.siteAt address).isComplete = true := by
  obtain ⟨m, -, -, -, hsize⟩ := of_ofLine h
  obtain ⟨m, -, hdecode⟩ := decode_of_ofLine h
  have hlength : Opcode.length e.opcode - 1 = e.operand.length := by
    rw [Opcode.length_of_decode hdecode, ← hsize]
    rfl
  have hoperand : (e.siteAt address).operand = e.operand := by
    show e.operand.take (Opcode.length e.opcode - 1) = e.operand
    rw [hlength, List.take_length]
  refine ⟨hoperand, ?_⟩
  rw [Site.isComplete, hoperand, beq_iff_eq]
  exact hlength.symm

end Encoded

/-! ## From an instruction back to a line -/

section Unnamed

variable {file : String} {s : Site} {m : Mnemonic} {mode : Mode}

/-- A table without symbols labels nothing. -/
theorem labelling_empty (file : String) (sites : List Site) : Labelling { file := file } sites where
  shape a name h := by cases h
  unique a b name h := by cases h

/-- What is shown without labels is encoded to the bytes it was shown for. -/
theorem exists_ofLine_of_printedBody {body : Text}
    (hdecode : Opcode.decode s.opcode = some (m, mode)) (hcomplete : s.isComplete = true)
    (hbody : PrintedBody { file := file } s m mode body) :
    ∃ e, Encoded.ofLine body = .ok e ∧ e.bytes = s.bytes := by
  cases hbody with
  | implied hmode =>
    subst hmode
    exact ⟨_, ofLine_name hdecode, (bytes_of_standsAlone hdecode hcomplete (.inl rfl)).symm⟩
  | accumulator hmode =>
    subst hmode
    exact ⟨_, ofLine_accumulator hdecode,
      (bytes_of_standsAlone hdecode hcomplete (.inr rfl)).symm⟩
  | operand halone hcore =>
    cases hcore with
    | number n hoperand =>
      exact ⟨_, ofLine_number hdecode halone n, bytes_instruction hdecode halone hoperand⟩
    | target a k hlabel => cases hlabel

/-- A whole documented instruction, at whatever address it is shown, reads back to its
bytes. -/
theorem exists_ofLine_shown (hdecode : Opcode.decode s.opcode = some (m, mode))
    (hcomplete : s.isComplete = true) :
    ∃ e, Encoded.ofLine (Text.lower (Disassembled.ofSite { file := file } s).text) = .ok e
      ∧ e.bytes = s.bytes := by
  obtain ⟨body, hbody, hlowers⟩ := exists_printedBody (labelling_empty file []) hdecode hcomplete
    fun _ d _ hshown => absurd rfl hshown
  have hlower : Text.lower (Disassembled.ofSite { file := file } s).text = body := by
    rw [Text.lower_of_lt, hlowers.lower]
    intro c hc
    have := (hlowers.printable c hc).2.1
    omega
  rw [hlower]
  exact exists_ofLine_of_printedBody hdecode hcomplete hbody

end Unnamed

/-! ## Both ways -/

/-- **Encoder and decoder agree.**  The bytes of an encoded line are as many as its mode says.
Shown at any address without labels, they are the instruction of the line: its mnemonic in
lower case, its mode, its operand bytes, its size.  And what is shown, in lower case, is
encoded to the same bytes again. -/
theorem encoded_line_reads_back {line : Text} {e : Encoded} (h : Encoded.ofLine line = .ok e)
    (file : String) (address : Int) :
    e.bytes.length = e.mode.length ∧ e.size = e.mode.length
      ∧ ∃ d, Disassembled.atOffset { file := file } e.bytes address 0 = .ok d
        ∧ d.mnemonic = Text.lower e.mnemonic ∧ d.mode = e.mode ∧ d.operandBytes = e.operand
        ∧ d.size = e.bytes.length
        ∧ ∃ e', Encoded.ofLine (Text.lower d.text) = .ok e' ∧ e'.bytes = e.bytes := by
  obtain ⟨-, -, -, -, hsize⟩ := Encoded.of_ofLine h
  obtain ⟨m, hname, hdecode⟩ := Encoded.decode_of_ofLine h
  obtain ⟨hoperand, hcomplete⟩ := Encoded.operand_siteAt h address
  have hbytes : (e.siteAt address).bytes = e.bytes := by
    rw [Site.bytes, hoperand]
    rfl
  have hfirst := Disassembled.atOffset_length { file := file } [] e.opcode e.operand address
  refine ⟨hsize, hsize, _, hfirst, ?_, ?_, ?_, ?_, ?_⟩
  · rw [Disassembled.ofSite_eq, ← hname]
    exact Opcode.mnemonicText_of_decode hdecode
  · rw [Disassembled.ofSite_eq]
    exact Opcode.mode_of_decode hdecode
  · rw [Disassembled.ofSite_eq]
    exact hoperand
  · rw [Disassembled.size_ofSite]
    exact congrArg List.length hbytes
  · rw [← hbytes]
    exact exists_ofLine_shown (s := e.siteAt address) hdecode hcomplete

/-- A branch in capitals with an octal displacement, said to stand behind the end of the address
space. -/
theorem encoded_line_reads_back_branch :
    Encoded.ofLine " BNE\t 0376;".toList = .ok ⟨"BNE".toList, .relative, 0xD0, [0xFE]⟩
      ∧ ∃ d, Disassembled.atOffset { file := "<input>" } [0xD0, 0xFE] 70000 0 = .ok d
        ∧ d.mnemonic = "bne".toList ∧ d.mode = .relative ∧ d.operandBytes = [0xFE]
        ∧ d.size = 2
        ∧ ∃ e', Encoded.ofLine (Text.lower d.text) = .ok e' ∧ e'.bytes = [0xD0, 0xFE] := by
  have h : Encoded.ofLine " BNE\t 0376;".toList
      = .ok ⟨"BNE".toList, .relative, 0xD0, [0xFE]⟩ := by decide
  exact ⟨h, (encoded_line_reads_back h "<input>" 70000).2.2⟩

end Cross6502
