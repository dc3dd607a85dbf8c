/-!
# Bytes of a number

Addresses are integers without bound, and a byte of memory holds eight bits.  A
number is stored by its low byte, or by its low byte and then the next one; both
are taken modulo 256, so a negative number is stored in two's complement.
-/

namespace Cross6502

/-- The low eight bits of a number. -/
def lowByte (n : Int) : UInt8 := UInt8.ofNat (n % 256).toNat

/-- The eight bits above the low byte. -/
def highByte (n : Int) : UInt8 := lowByte (n / 256)

/-- The number stored as a low byte and a high byte. -/
def word (low high : UInt8) : Nat := low.toNat + 256 * high.toNat

/-- A byte read as a signed number. -/
def signed (b : UInt8) : Int := if b.toNat < 128 then b.toNat else (b.toNat : Int) - 256

theorem toNat_lowByte (n : Int) : ((lowByte n).toNat : Int) = n % 256 := by
  simp only [lowByte, UInt8.toNat_ofNat']
  omega

theorem lowByte_toNat (b : UInt8) : lowByte (b.toNat : Int) = b := by
  have h := b.toNat_lt
  apply UInt8.toNat_inj.mp
  have hbyte := toNat_lowByte (b.toNat : Int)
  omega

theorem toNat_highByte (n : Int) : ((highByte n).toNat : Int) = n / 256 % 256 :=
  toNat_lowByte _

theorem word_lt (low high : UInt8) : word low high < 65536 := by
  have h := low.toNat_lt
  have h' := high.toNat_lt
  rw [word]
  omega

/-- The two bytes of a number hold it modulo `2 ^ 16`. -/
theorem word_lowByte_highByte (n : Int) : (word (lowByte n) (highByte n) : Int) = n % 65536 := by
  have hl := toNat_lowByte n
  have hh := toNat_highByte n
  simp only [word]
  omega

theorem signed_lowByte {d : Int} (h₁ : -128 ≤ d) (h₂ : d ≤ 127) : signed (lowByte d) = d := by
  have h := toNat_lowByte d
  simp only [signed]
  split <;> omega

end Cross6502
