import Cross6502.Disassembly.Walk

/-!
# Code that is tiled by instructions

A walk over bytes cuts them into instructions.  When every instruction it meets is
whole, the pieces lie one behind the other and make up the bytes: each begins where
the one before it ends.  `Tiled` says this of a list of instructions, in the shape of
an induction over the list, and `tiled_walk` shows it of a walk.

The addresses of the pieces grow from one to the next, and there are no more pieces
than bytes.
-/

namespace Cross6502

/-- Instructions that lie one behind the other, from an address on, and make up the
bytes there. -/
inductive Tiled : Int → List UInt8 → List Site → Prop
  | nil (address : Int) : Tiled address [] []
  | cons {s : Site} {rest : List UInt8} {sites : List Site} (hcomplete : s.isComplete = true)
      (htail : Tiled (s.address + s.bytes.length) rest sites) :
      Tiled s.address (s.bytes ++ rest) (s :: sites)

/-- The bytes that still belong to an instruction are passed over. -/
theorem walkFrom_eq_drop (skip : Nat) (address : Int) (bytes : List UInt8) :
    walkFrom skip address bytes = walk (address + skip) (bytes.drop skip) := by
  induction skip generalizing address bytes with
  | zero =>
    rw [Int.natCast_zero, Int.add_zero, List.drop_zero]
    rfl
  | succ skip ih =>
    cases bytes with
    | nil => rfl
    | cons b rest =>
      rw [walkFrom, ih, List.drop_succ_cons]
      congr 1
      omega

/-- A walk takes the first instruction and goes on as far behind it as its opcode says. -/
theorem walk_cons (address : Int) (b : UInt8) (rest : List UInt8) :
    walk address (b :: rest) = ⟨address, b, rest⟩
      :: walk (address + Opcode.length b) (rest.drop (Opcode.length b - 1)) := by
  have hpos := Opcode.length_pos b
  rw [walk, walkFrom, walkFrom_eq_drop]
  congr 2
  omega

namespace Site

/-- A whole instruction is as long as its opcode says. -/
theorem length_bytes {s : Site} (h : s.isComplete = true) :
    s.bytes.length = Opcode.length s.opcode := by
  have hpos := Opcode.length_pos s.opcode
  rw [isComplete, beq_iff_eq] at h
  rw [bytes, List.length_cons, h]
  omega

/-- The bytes of an instruction and those behind it. -/
theorem bytes_append_drop (s : Site) :
    s.bytes ++ s.following.drop (Opcode.length s.opcode - 1) = s.opcode :: s.following := by
  rw [bytes, operand, List.cons_append, List.take_append_drop]

end Site

/-- A walk that meets whole instructions only tiles the bytes. -/
theorem tiled_walk {address : Int} {bytes : List UInt8}
    (h : ∀ s ∈ walk address bytes, s.isComplete = true) :
    Tiled address bytes (walk address bytes) := by
  -- each step takes an instruction off the front, so the induction is on the length
  induction hn : bytes.length using Nat.strongRecOn generalizing address bytes with
  | ind n ih =>
    cases bytes with
    | nil => exact .nil address
    | cons b rest =>
      have hwalk := walk_cons address b rest
      have hcomplete : Site.isComplete ⟨address, b, rest⟩ = true :=
        h _ (by rw [hwalk]; exact List.mem_cons_self)
      have hlength := Site.length_bytes hcomplete
      have hbytes := Site.bytes_append_drop ⟨address, b, rest⟩
      have hrest : ∀ s ∈ walk (address + Opcode.length b) (rest.drop (Opcode.length b - 1)),
          s.isComplete = true := by
        intro s hs
        refine h s ?_
        rw [hwalk]
        exact List.mem_cons_of_mem _ hs
      have htail := ih (rest.drop (Opcode.length b - 1)).length
        (by rw [← hn, List.length_drop, List.length_cons]; omega) hrest rfl
      have haddress : address + (Opcode.length b : Int)
          = address + (Site.bytes ⟨address, b, rest⟩).length := by
        rw [hlength]
      rw [hwalk, haddress]
      rw [haddress] at htail
      have htiled := Tiled.cons hcomplete htail
      rw [hbytes] at htiled
      exact htiled

namespace Tiled

variable {address : Int} {bytes : List UInt8} {sites : List Site}

/-- An instruction lies between the ends of the bytes. -/
theorem le_address (h : Tiled address bytes sites) {s : Site} (hs : s ∈ sites) :
    address ≤ s.address ∧ s.address < address + bytes.length := by
  induction h with
  | nil => cases hs
  | @cons t rest sites hcomplete htail ih =>
    have hpos : 0 < t.bytes.length := Nat.succ_pos _
    rw [List.length_append]
    rcases List.mem_cons.mp hs with rfl | hs
    · omega
    · have := ih hs
      omega

/-- There are at most as many instructions as bytes. -/
theorem length_le (h : Tiled address bytes sites) : sites.length ≤ bytes.length := by
  induction h with
  | nil => exact Nat.le_refl 0
  | @cons t rest sites hcomplete htail ih =>
    have hpos : 0 < t.bytes.length := Nat.succ_pos _
    rw [List.length_append, List.length_cons]
    omega

end Tiled

end Cross6502
