import Cross6502.Instruction.Opcode

/-!
# Walking over code

Bytes are cut into instructions from the front: each instruction is as long as its
opcode says, and the next begins behind it.  The last one may be cut short by the
end of the bytes.  The walk is a recursion on the bytes with a count of those that
still belong to the instruction before, so it visits every byte once.
-/

namespace Cross6502

/-- An instruction found by a walk: its address, its opcode, and the bytes that
follow the opcode up to the end of the segment. -/
structure Site where
  address : Int
  opcode : UInt8
  following : List UInt8
  deriving DecidableEq, Inhabited

namespace Site

/-- The operand bytes that are there, at most as many as the opcode asks for. -/
def operand (s : Site) : List UInt8 := s.following.take (Opcode.length s.opcode - 1)

/-- Whether no operand byte is missing. -/
def isComplete (s : Site) : Bool := s.operand.length == Opcode.length s.opcode - 1

/-- The bytes of the instruction that are there. -/
def bytes (s : Site) : List UInt8 := s.opcode :: s.operand

end Site

/-- Walk over bytes at an address, after `skip` bytes of an earlier instruction. -/
def walkFrom : Nat → Int → List UInt8 → List Site
  | _, _, [] => []
  | skip + 1, address, _ :: rest => walkFrom skip (address + 1) rest
  | 0, address, b :: rest =>
      ⟨address, b, rest⟩ :: walkFrom (Opcode.length b - 1) (address + 1) rest

/-- The instructions of bytes that begin at an address. -/
def walk (address : Int) (bytes : List UInt8) : List Site := walkFrom 0 address bytes

@[simp] theorem walk_nil (address : Int) : walk address [] = [] := rfl

end Cross6502
