import Cross6502.Log
import Cross6502.Substitution.Replacement

/-!
# Patching references

A reference is resolved by the merged table and written into the image: a
displacement for a branch, the low byte or the low and high byte of the address
otherwise.  The displacement is counted from the byte behind the operand, at the
address the operand was assembled for.
-/

namespace Cross6502

namespace Link

/-- Write a byte at an index of the image. -/
def writeByte (image : List UInt8) (offset : Int) (b : UInt8) : Except Failure (List UInt8) :=
  match position? image.length offset with
  | some n => .ok (image.set n b)
  | none => .error (.index .image)

/-- Write bytes from an index on, one after another. -/
def writeBytes (image : List UInt8) (offset : Int) : List UInt8 → Except Failure (List UInt8)
  | [] => .ok image
  | b :: rest => do
      let image ← writeByte image offset b
      writeBytes image (offset + 1) rest

/-- The bytes that resolve a reference to an address, for an operand assembled at
`site`. -/
def patchBytes (input : String) (r : Reference) (address site : Int) :
    Except Failure (List UInt8) :=
  if r.mode = .relative then
    let d := address - (site + 1)
    if Replacement.reaches d then .ok [lowByte d]
    else .error (Failure.link (.branchRange input r.line r.name d)).worded
  else if r.width = 2 then .ok [lowByte address, highByte address]
  else .ok [lowByte address]

/-- Resolve one reference whose operand is at `offset` in the image. -/
def patch (table : SymbolTable) (input : String) (r : Reference) (offset site : Int)
    (image : List UInt8) : Logged (List UInt8) :=
  match table.find? r.name with
  | none => Logged.fail (Failure.unresolved r.name (some { file := input, line := r.line })).worded
  | some s =>
      if (image.length : Int) < offset + r.width then
        Logged.fail (.link (.outsideObject input r.name))
      else do
        let bytes ← Logged.ofExcept (patchBytes input r s.address site)
        let image ← Logged.ofExcept (writeBytes image offset bytes)
        Logged.say (.patched r.name s.address offset)
        return image

end Link

end Cross6502
