import Cross6502.Proofs.Disassembly.Shown

/-!
# Every byte belongs to one instruction

Bytes of any kind can be shown: those that are no documented opcode, and those of an
instruction that the end cuts short.  Two walks are made over them.  Labels are looked for by
going forward as far as each opcode says, and instructions are shown one behind the other,
each as long as the bytes it has.  The two lengths differ where the end cuts an instruction
short.  There both walks end, so the instructions shown are those that the first walk meets
(`disassemble_eq_map_walk`), and both visit the same addresses (`addresses_eq_strides`).

The step of the walk is `walk_cons`.  From it follow what a walk cuts off in front of an
instruction (`of_walk_eq_append`), and that nothing is left over (`flatMap_bytes_walk`).
-/

namespace Cross6502

/-! ## A walk over any bytes -/

/-- The pieces of a walk make up the bytes. -/
theorem flatMap_bytes_walk (address : Int) (bytes : List UInt8) :
    (walk address bytes).flatMap Site.bytes = bytes := by
  induction hn : bytes.length using Nat.strongRecOn generalizing address bytes with
  | ind n ih =>
    cases bytes with
    | nil => rfl
    | cons b rest =>
      have hshorter : (rest.drop (Opcode.length b - 1)).length < n := by
        rw [← hn, List.length_drop, List.length_cons]
        omega
      rw [walk_cons, List.flatMap_cons, ih _ hshorter _ _ rfl]
      exact Site.bytes_append_drop ⟨address, b, rest⟩

/-- In front of an instruction lie the pieces that were cut off before it. -/
theorem of_walk_eq_append {address : Int} {bytes : List UInt8} {before after : List Site}
    {s : Site} (h : walk address bytes = before ++ s :: after) :
    s.address = address + (before.flatMap Site.bytes).length
      ∧ bytes = before.flatMap Site.bytes ++ s.opcode :: s.following := by
  induction before generalizing address bytes with
  | nil =>
    cases bytes with
    | nil => cases h
    | cons b rest =>
      rw [walk_cons] at h
      obtain ⟨rfl, -⟩ := List.cons.inj h
      exact ⟨(Int.add_zero address).symm, rfl⟩
  | cons p before ih =>
    cases bytes with
    | nil => cases h
    | cons b rest =>
      rw [walk_cons, List.cons_append] at h
      obtain ⟨rfl, hrest⟩ := List.cons.inj h
      obtain ⟨haddress, hbytes⟩ := ih hrest
      have hsplit := Site.bytes_append_drop ⟨address, b, rest⟩
      -- something follows the first instruction, so it is not cut short
      have hlength : (Site.bytes ⟨address, b, rest⟩).length = Opcode.length b := by
        have hpos := Opcode.length_pos b
        have hlt := congrArg List.length hbytes
        rw [List.length_drop, List.length_append, List.length_cons] at hlt
        rw [Site.bytes, Site.operand, List.length_cons, List.length_take]
        show min (Opcode.length b - 1) rest.length + 1 = Opcode.length b
        omega
      constructor
      · rw [haddress, List.flatMap_cons, List.length_append, hlength]
        omega
      · rw [List.flatMap_cons, List.append_assoc, ← hbytes]
        exact hsplit.symm

/-- The offsets that are visited from one on, going forward by the length of the opcode at
each. -/
def strides (bytes : List UInt8) (offset : Nat) : List Nat :=
  if h : offset < bytes.length then
    offset :: strides bytes (offset + Opcode.length bytes[offset])
  else []
termination_by bytes.length - offset
decreasing_by
  have hpos := Opcode.length_pos bytes[offset]
  omega

theorem strides_append_cons (done : List UInt8) (b : UInt8) (rest : List UInt8) :
    strides (done ++ b :: rest) done.length
      = done.length :: strides (done ++ b :: rest) (done.length + Opcode.length b) := by
  have hlt : done.length < (done ++ b :: rest).length := by
    rw [List.length_append, List.length_cons]
    omega
  have hget : (done ++ b :: rest)[done.length] = b := by simp
  rw [strides, dif_pos hlt, hget]

theorem strides_of_length_le {bytes : List UInt8} {offset : Nat} (h : bytes.length ≤ offset) :
    strides bytes offset = [] := by
  rw [strides, dif_neg (Nat.not_lt.mpr h)]

/-- A walk visits the addresses of these offsets. -/
theorem addresses_eq_strides (start : Int) (done rest : List UInt8) :
    (walk (start + done.length) rest).map Site.address
      = (strides (done ++ rest) done.length).map fun (offset : Nat) => start + (offset : Int) := by
  induction hn : rest.length using Nat.strongRecOn generalizing done rest with
  | ind n ih =>
    cases rest with
    | nil =>
      rw [List.append_nil, strides_of_length_le (Nat.le_refl _)]
      rfl
    | cons b rest =>
      rw [walk_cons, strides_append_cons, List.map_cons, List.map_cons]
      congr 1
      have hpos := Opcode.length_pos b
      by_cases hcut : rest.length ≤ Opcode.length b - 1
      · -- the end is reached, by the opcode as by the bytes that are there
        have hpast : (done ++ b :: rest).length ≤ done.length + Opcode.length b := by
          rw [List.length_append, List.length_cons]
          omega
        rw [List.drop_eq_nil_of_le hcut, strides_of_length_le hpast]
        rfl
      · have hshorter : (rest.drop (Opcode.length b - 1)).length < n := by
          rw [← hn, List.length_drop, List.length_cons]
          omega
        have htail := ih _ hshorter (done ++ b :: rest.take (Opcode.length b - 1)) _ rfl
        have hdone : (done ++ b :: rest.take (Opcode.length b - 1)).length
            = done.length + Opcode.length b := by
          rw [List.length_append, List.length_cons, List.length_take]
          omega
        rw [hdone, List.append_assoc, List.cons_append, List.take_append_drop, Int.natCast_add,
          ← Int.add_assoc] at htail
        exact htail

/-! ## Instructions that can be read -/

namespace Opcode

/-- A branch has one operand byte, a jump or a call has two. -/
theorem length_of_mem_transfers : ∀ b ∈ transfers,
    length b = if isNumberOf branches b.toNat then 2 else 3 := by
  decide

/-- A documented instruction has an operand byte unless its mode needs none. -/
theorem two_le_length {b : UInt8} (h : decode b ≠ none) (himplied : mode b ≠ .implied)
    (haccumulator : mode b ≠ .accumulator) : 2 ≤ length b := by
  obtain ⟨⟨m, mode'⟩, hdecode⟩ := Option.ne_none_iff_exists'.mp h
  have hpos := length_pos_of_mem m _ (mem_opcodes_of_decode hdecode)
  rw [mode_of_decode hdecode] at himplied haccumulator
  rw [length_of_decode hdecode]
  cases mode' <;> simp_all [Mode.length]

end Opcode

/-- A branch, jump or call that is whole goes somewhere. -/
theorem Site.exists_transferTarget {s : Site} (h : s.opcode ∈ Opcode.transfers)
    (hcomplete : s.isComplete = true) :
    ∃ a, transferTarget s.opcode.toNat s.operand s.address = .ok a := by
  have hlength := Opcode.length_of_mem_transfers _ h
  rw [isComplete, beq_iff_eq, hlength] at hcomplete
  unfold transferTarget
  split at hcomplete
  · rename_i hbranch
    obtain ⟨d, hd⟩ := List.length_eq_one_iff.mp hcomplete
    rw [if_pos hbranch, hd]
    exact ⟨_, rfl⟩
  · rename_i hbranch
    obtain ⟨low, high, hd⟩ := List.length_eq_two.mp hcomplete
    rw [if_neg hbranch, hd]
    exact ⟨_, rfl⟩

namespace Disassembled

theorem exists_operandValue {operand : List UInt8} (hne : operand ≠ []) :
    ∃ n, operandValue operand = .ok n := by
  cases operand with
  | nil => exact absurd rfl hne
  | cons low rest =>
    cases rest with
    | nil => exact ⟨_, rfl⟩
    | cons high rest => cases rest <;> exact ⟨_, rfl⟩

/-- The operand of a documented instruction that is whole can be read. -/
theorem exists_operandText (t : SymbolTable) {s : Site} (hdecode : Opcode.decode s.opcode ≠ none)
    (hcomplete : s.isComplete = true) :
    ∃ operand, operandText t s.opcode (Opcode.mode s.opcode) s.operand s.address = .ok operand := by
  by_cases hmem : s.opcode ∈ Opcode.transfers
  · obtain ⟨a, ha⟩ := s.exists_transferTarget hmem hcomplete
    rw [Disassembler.operandText_of_mem_transfers t s hmem, ha]
    exact ⟨_, rfl⟩
  · rw [operandText.eq_def]
    split
    · exact ⟨_, rfl⟩
    · exact ⟨_, rfl⟩
    · rename_i himplied haccumulator
      have hlength := Opcode.two_le_length hdecode himplied haccumulator
      rw [Site.isComplete, beq_iff_eq] at hcomplete
      have hne : s.operand ≠ [] := by
        intro hnil
        rw [hnil, List.length_nil] at hcomplete
        omega
      obtain ⟨n, hn⟩ := exists_operandValue hne
      rw [if_neg hmem, hn]
      exact ⟨_, rfl⟩

theorem complete_ofSite (t : SymbolTable) {s : Site} (hdecode : Opcode.decode s.opcode ≠ none)
    (hcomplete : s.isComplete = true) :
    complete t s.address s.opcode s.bytes = .ok (ofSite t s) := by
  obtain ⟨operand, hoperand⟩ := exists_operandText t hdecode hcomplete
  have hread : ∃ i, complete t s.address s.opcode s.bytes = .ok i := by
    unfold complete
    rw [show s.bytes.drop 1 = s.operand from rfl, hoperand]
    exact ⟨_, rfl⟩
  obtain ⟨i, hi⟩ := hread
  rw [ofSite, if_neg hdecode, hcomplete, hi]
  rfl

end Disassembled

/-! ## Showing bytes -/

/-- Instructions that make up bytes from an address on, each shown as it is shown on its own
from the offset where it begins. -/
structure Partition (t : SymbolTable) (start : Int) (bytes : List UInt8)
    (instructions : List Disassembled) : Prop where
  /-- No byte is lost or shown twice. -/
  bytes_eq : instructions.flatMap Disassembled.bytes = bytes
  /-- An instruction stands where those before it end. -/
  address_eq : ∀ before i after, instructions = before ++ i :: after →
    i.address = start + (before.flatMap Disassembled.bytes).length
  /-- It is what the bytes at its offset are shown as. -/
  atOffset_eq : ∀ before i after, instructions = before ++ i :: after →
    Disassembled.atOffset t bytes i.address (before.flatMap Disassembled.bytes).length = .ok i
  /-- It has at least one byte, and its size is the number of its bytes. -/
  size_eq : ∀ i ∈ instructions, 1 ≤ i.size ∧ i.size = i.bytes.length
  /-- A documented one of full length is read, and never given up. -/
  complete_eq : ∀ i ∈ instructions, Opcode.decode i.opcode ≠ none →
    i.size = Opcode.length i.opcode →
    Disassembled.complete t i.address i.opcode i.bytes = .ok i

namespace Disassembled

variable (t : SymbolTable)

theorem bytes_ofSite (s : Site) : (ofSite t s).bytes = s.bytes := by
  rw [ofSite_eq]

theorem address_ofSite (s : Site) : (ofSite t s).address = s.address := by
  rw [ofSite_eq]

theorem opcode_ofSite (s : Site) : (ofSite t s).opcode = s.opcode := by
  rw [ofSite_eq]

theorem flatMap_bytes_map_ofSite (sites : List Site) :
    (sites.map (ofSite t)).flatMap bytes = sites.flatMap Site.bytes := by
  rw [List.flatMap_map]
  congr 1
  ext s : 1
  exact bytes_ofSite t s

/-- The instruction at an offset, if there is a byte. -/
theorem atOffset_length (done : List UInt8) (b : UInt8) (rest : List UInt8) (address : Int) :
    atOffset t (done ++ b :: rest) address done.length = .ok (ofSite t ⟨address, b, rest⟩) := by
  have hlt : ¬ ((done ++ b :: rest).length : Int) ≤ done.length := by
    rw [List.length_append, List.length_cons]
    omega
  rw [atOffset, if_neg hlt, if_pos (Int.natCast_nonneg _), Int.toNat_natCast, List.drop_left]

end Disassembled

theorem partition_disassemble (t : SymbolTable) (start : Int) (bytes : List UInt8) :
    Partition t start bytes (disassemble t start bytes none) := by
  rw [disassemble_eq_map_walk, Option.elim_none]
  have hsplit : ∀ before i after,
      (walk start bytes).map (Disassembled.ofSite t) = before ++ i :: after →
      ∃ sites s rest, walk start bytes = sites ++ s :: rest
        ∧ before = sites.map (Disassembled.ofSite t) ∧ i = Disassembled.ofSite t s := by
    intro before i after h
    obtain ⟨sites, tail, hwalk, rfl, htail⟩ := List.map_eq_append_iff.mp h
    obtain ⟨s, rest, rfl, rfl, -⟩ := List.map_eq_cons_iff.mp htail
    exact ⟨sites, s, rest, hwalk, rfl, rfl⟩
  refine ⟨?_, ?_, ?_, ?_, ?_⟩
  · exact (Disassembled.flatMap_bytes_map_ofSite t _).trans (flatMap_bytes_walk start bytes)
  · intro before i after h
    obtain ⟨sites, s, rest, hwalk, rfl, rfl⟩ := hsplit before i after h
    rw [Disassembled.flatMap_bytes_map_ofSite, Disassembled.address_ofSite]
    exact (of_walk_eq_append hwalk).1
  · intro before i after h
    obtain ⟨sites, s, rest, hwalk, rfl, rfl⟩ := hsplit before i after h
    rw [Disassembled.flatMap_bytes_map_ofSite, Disassembled.address_ofSite,
      (of_walk_eq_append hwalk).2]
    exact Disassembled.atOffset_length t _ s.opcode s.following s.address
  · intro i hi
    obtain ⟨s, -, rfl⟩ := List.mem_map.mp hi
    rw [Disassembled.size_ofSite, Disassembled.bytes_ofSite]
    exact ⟨Nat.succ_pos _, rfl⟩
  · intro i hi hdecode hsize
    obtain ⟨s, -, rfl⟩ := List.mem_map.mp hi
    rw [Disassembled.opcode_ofSite] at hdecode hsize
    rw [Disassembled.size_ofSite, Site.bytes, List.length_cons] at hsize
    have hcomplete : s.isComplete = true := by
      rw [Site.isComplete, beq_iff_eq]
      omega
    rw [Disassembled.address_ofSite, Disassembled.opcode_ofSite, Disassembled.bytes_ofSite]
    exact Disassembled.complete_ofSite t hdecode hcomplete

/-- **Disassembly tiles its input.**  Any bytes at any address are shown as instructions that
make them up, one behind the other, whatever the symbols are.  They stand at the addresses
that the search for labels visits, and these are found by going forward as far as each opcode
says. -/
theorem disassemble_tiles (t : SymbolTable) (start : Int) (bytes : List UInt8) :
    Partition t start bytes (disassemble t start bytes none)
      ∧ (disassemble t start bytes none).map Disassembled.address
        = (walk start bytes).map Site.address
      ∧ (walk start bytes).map Site.address
        = (strides bytes 0).map fun (offset : Nat) => start + (offset : Int) := by
  refine ⟨partition_disassemble t start bytes, ?_, ?_⟩
  · rw [disassemble_eq_map_walk, Option.elim_none, List.map_map]
    congr 1
    ext s : 1
    exact Disassembled.address_ofSite t s
  · have haddresses := addresses_eq_strides start [] bytes
    rwa [List.length_nil, Int.natCast_zero, Int.add_zero, List.nil_append] at haddresses

/-- An undocumented byte, a jump, and a call that is cut short. -/
example : (disassemble {} 0x600 [0x02, 0x4C, 0x00, 0x06, 0x20, 0x07] none).map
    (fun i => (i.address, i.size)) = [(0x600, 1), (0x601, 3), (0x604, 2)] := by
  decide

end Cross6502
