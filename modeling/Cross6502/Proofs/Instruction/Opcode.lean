import Cross6502.Instruction.Opcode
import Mathlib.Data.List.Nodup

/-!
# The table of opcodes

What the table of the instruction set says as a whole.  Each fact is checked row by
row: the table is finite, and a row is short.
-/

namespace Cross6502

/-- No instruction is longer than three bytes. -/
theorem Mode.length_le (mode : Mode) : mode.length ≤ 3 := by
  cases mode <;> decide

namespace Opcode

/-! ## Which modes a mnemonic has -/

theorem ofText?_name (m : Mnemonic) : Mnemonic.ofText? m.name = some m := by
  cases m <;> decide

/-- Branches, and no other instructions, have the relative mode. -/
theorem relative_iff_isBranch (m : Mnemonic) :
    ∀ p ∈ m.opcodes, p.1 = .relative ↔ m.isBranch = true := by
  cases m <;> decide

/-- The indirect mode belongs to one instruction. -/
theorem eq_jmp_of_indirect (m : Mnemonic) : ∀ p ∈ m.opcodes, p.1 = .indirect → m = .jmp := by
  cases m <;> decide

/-- An opcode that a written mnemonic is encoded to is in the table. -/
theorem exists_of_encode {t : Text} {mode : Mode} {opcode : UInt8}
    (h : encode t mode = .ok opcode) :
    ∃ m, Mnemonic.ofText? t = some m ∧ (mode, opcode) ∈ m.opcodes := by
  rw [encode] at h
  split at h
  · cases h
  · rename_i m hm
    refine ⟨m, hm, ?_⟩
    split at h
    · cases h
    · split at h
      · rename_i opcode' hfind
        cases h
        rw [find?, Option.map_eq_some_iff] at hfind
        obtain ⟨⟨mode', opcode'⟩, hmem, heq⟩ := hfind
        have hmode : mode' = mode := by
          simpa using List.find?_some hmem
        subst hmode
        subst heq
        exact List.mem_of_find?_eq_some hmem
      · cases h

theorem mem_opcodes_of_encode {m : Mnemonic} {mode : Mode} {opcode : UInt8}
    (h : encode m.name mode = .ok opcode) : (mode, opcode) ∈ m.opcodes := by
  obtain ⟨m', hm', hmem⟩ := exists_of_encode h
  rw [ofText?_name] at hm'
  cases hm'
  exact hmem

/-! ## Decoding -/

theorem mem_opcodes_of_decode {b : UInt8} {m : Mnemonic} {mode : Mode}
    (h : decode b = some (m, mode)) : (mode, b) ∈ m.opcodes := by
  obtain ⟨m', -, h⟩ := List.exists_of_findSome?_eq_some h
  obtain ⟨⟨mode', b'⟩, hfind, heq⟩ := Option.map_eq_some_iff.mp h
  have hb : b' = b := by
    simpa using List.find?_some hfind
  cases heq
  subst hb
  exact List.mem_of_find?_eq_some hfind

/-- No opcode stands for two instructions. -/
theorem decode_of_mem (m : Mnemonic) : ∀ p ∈ m.opcodes, decode p.2 = some (m, p.1) := by
  cases m <;> decide

theorem nodup_modes (m : Mnemonic) : (m.opcodes.map Prod.fst).Nodup := by
  cases m <;> decide

theorem mode_ne_symbol_of_mem (m : Mnemonic) : ∀ p ∈ m.opcodes, p.1 ≠ .symbol := by
  cases m <;> decide

/-- Every documented opcode is the encoding of what it decodes to. -/
theorem encode_of_decode {b : UInt8} {m : Mnemonic} {mode : Mode}
    (h : decode b = some (m, mode)) : encode m.name mode = .ok b := by
  have hmem := mem_opcodes_of_decode h
  have hfind : find? m mode = some b := by
    rw [find?, Option.map_eq_some_iff]
    refine ⟨(mode, b), ?_, rfl⟩
    obtain ⟨p, hp⟩ : ∃ p, (m.opcodes.find? fun e => e.1 == mode) = some p := by
      rw [← Option.isSome_iff_exists, List.find?_isSome]
      exact ⟨(mode, b), hmem, by simp⟩
    have hmode : p.1 = mode := by
      simpa using List.find?_some hp
    rw [hp]
    have heq := List.inj_on_of_nodup_map (nodup_modes m) (List.mem_of_find?_eq_some hp) hmem hmode
    rw [heq]
  rw [encode, ofText?_name]
  simp only [if_neg (mode_ne_symbol_of_mem m _ hmem), hfind]

theorem mode_of_decode {b : UInt8} {m : Mnemonic} {mode : Mode} (h : decode b = some (m, mode)) :
    Opcode.mode b = mode := by
  rw [Opcode.mode, h]

theorem mnemonicText_of_decode {b : UInt8} {m : Mnemonic} {mode : Mode}
    (h : decode b = some (m, mode)) : mnemonicText b = m.name := by
  rw [mnemonicText, h]

theorem length_pos_of_mem (m : Mnemonic) : ∀ p ∈ m.opcodes, 0 < p.1.length := by
  cases m <;> decide

theorem length_of_decode {b : UInt8} {m : Mnemonic} {mode : Mode}
    (h : decode b = some (m, mode)) : length b = mode.length := by
  have hpos : 0 < mode.length := length_pos_of_mem m _ (mem_opcodes_of_decode h)
  rw [length, mode_of_decode h]
  omega

/-! ## Branches, jumps and calls -/

/-- The opcodes that pass control elsewhere are those of three kinds of instructions. -/
theorem mem_transfers_iff (m : Mnemonic) : ∀ p ∈ m.opcodes,
    p.2 ∈ transfers ↔ m = .jmp ∨ m = .jsr ∨ m.isBranch = true := by
  cases m <;> decide

theorem isNumberOf_branches (m : Mnemonic) : ∀ p ∈ m.opcodes,
    isNumberOf branches p.2.toNat = m.isBranch := by
  cases m <;> decide

theorem isBranchText_name (m : Mnemonic) : Mnemonic.isBranchText m.name = m.isBranch := by
  rw [Mnemonic.isBranchText, ofText?_name]

end Opcode

end Cross6502
