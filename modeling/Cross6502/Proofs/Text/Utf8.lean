import Cross6502.Text.LineBreak
import Cross6502.Text.Utf8

/-!
# Text in files

A text that is written to a file is read back as it was, except that reading unifies its
line boundaries.  The bytes of a character are decoded to that character, whatever
follows them (`scan_encodeChar`), and a whole text one character after another.  A text
without carriage returns has nothing to unify.
-/

namespace Cross6502

namespace Utf8

/-! ## Bytes of a character -/

theorem toNat_ofNat_of_lt {n : Nat} (h : n < 256) : (UInt8.ofNat n).toNat = n := by
  rw [UInt8.toNat_ofNat']
  exact Nat.mod_eq_of_lt h

theorem toNat_tailByte (bits : Nat) : (tailByte bits).toNat = 0x80 + bits % 64 :=
  toNat_ofNat_of_lt (by omega)

theorem tailBits_tailByte (bits : Nat) : tailBits (tailByte bits) = bits % 64 := by
  rw [tailBits, toNat_tailByte]
  omega

theorem isTail_tailByte (bits : Nat) : isTail (tailByte bits) = true := by
  rw [isTail, toNat_tailByte]
  simp only [Bool.and_eq_true, decide_eq_true_eq]
  omega

/-- A tail byte may follow any first byte, but for four of them not with all bits. -/
theorem isSecond_tailByte {lead bits : Nat} (hlead : lead < 256)
    (hlow : lead = 0xE0 → 0x20 ≤ bits % 64) (hlow' : lead = 0xF0 → 0x10 ≤ bits % 64)
    (hhigh : lead = 0xED → bits % 64 < 0x20) (hhigh' : lead = 0xF4 → bits % 64 < 0x10) :
    isSecond (UInt8.ofNat lead) (tailByte bits) = true := by
  have hrange : (secondRange lead).1 ≤ 0x80 + bits % 64
      ∧ 0x80 + bits % 64 ≤ (secondRange lead).2 := by
    grind [secondRange]
  rw [isSecond, toNat_ofNat_of_lt hlead, toNat_tailByte]
  simpa using hrange

/-- The code point of a character is no surrogate. -/
theorem toNat_bounds (c : Char) :
    c.toNat < 0xD800 ∨ 0xDFFF < c.toNat ∧ c.toNat < 0x110000 := c.valid

section Scan

variable (p : Nat) (rest : List UInt8)

theorem scan_one {n : Nat} (h : n < 0x80) :
    scan p (UInt8.ofNat n :: rest)
      = (Char.ofNat n :: (scan (p + 1) rest).1, (scan (p + 1) rest).2) := by
  rw [scan.eq_def]
  simp only [toNat_ofNat_of_lt (Nat.lt_trans h (by decide)), if_pos h]

theorem scan_two {n : Nat} (hlow : 0x80 ≤ n) (hhigh : n < 0x800) :
    scan p (UInt8.ofNat (0xC0 + n / 64) :: tailByte n :: rest)
      = (Char.ofNat n :: (scan (p + 2) rest).1, (scan (p + 2) rest).2) := by
  have hlead : (UInt8.ofNat (0xC0 + n / 64)).toNat = 0xC0 + n / 64 := toNat_ofNat_of_lt (by omega)
  have hsecond : isSecond (UInt8.ofNat (0xC0 + n / 64)) (tailByte n) = true :=
    isSecond_tailByte (by omega) (by omega) (by omega) (by omega) (by omega)
  have hvalue : (0xC0 + n / 64 - 0xC0) * 64 + n % 64 = n := by omega
  rw [scan.eq_def]
  simp only [hlead, hsecond, tailBits_tailByte, hvalue]
  rw [if_neg (by omega), if_neg (by simp; omega), if_neg (by decide), if_pos (by omega)]

theorem scan_three {n : Nat} (hlow : 0x800 ≤ n) (hhigh : n < 0x10000)
    (hvalid : n < 0xD800 ∨ 0xDFFF < n) :
    scan p (UInt8.ofNat (0xE0 + n / 4096) :: tailByte (n / 64) :: tailByte n :: rest)
      = (Char.ofNat n :: (scan (p + 3) rest).1, (scan (p + 3) rest).2) := by
  have hlead : (UInt8.ofNat (0xE0 + n / 4096)).toNat = 0xE0 + n / 4096 :=
    toNat_ofNat_of_lt (by omega)
  have hsecond : isSecond (UInt8.ofNat (0xE0 + n / 4096)) (tailByte (n / 64)) = true :=
    isSecond_tailByte (by omega) (by omega) (by omega) (by omega) (by omega)
  have hvalue : (0xE0 + n / 4096 - 0xE0) * 4096 + n / 64 % 64 * 64 + n % 64 = n := by omega
  rw [scan.eq_def]
  simp only [hlead, hsecond, isTail_tailByte, tailBits_tailByte, hvalue]
  rw [if_neg (by omega), if_neg (by simp; omega), if_neg (by decide), if_neg (by omega),
    if_neg (by decide), if_pos (by omega)]

theorem scan_four {n : Nat} (hlow : 0x10000 ≤ n) (hhigh : n < 0x110000) :
    scan p (UInt8.ofNat (0xF0 + n / 262144) :: tailByte (n / 4096) :: tailByte (n / 64)
        :: tailByte n :: rest)
      = (Char.ofNat n :: (scan (p + 4) rest).1, (scan (p + 4) rest).2) := by
  have hlead : (UInt8.ofNat (0xF0 + n / 262144)).toNat = 0xF0 + n / 262144 :=
    toNat_ofNat_of_lt (by omega)
  have hsecond : isSecond (UInt8.ofNat (0xF0 + n / 262144)) (tailByte (n / 4096)) = true :=
    isSecond_tailByte (by omega) (by omega) (by omega) (by omega) (by omega)
  have hvalue : (0xF0 + n / 262144 - 0xF0) * 262144 + n / 4096 % 64 * 4096 + n / 64 % 64 * 64
      + n % 64 = n := by omega
  rw [scan.eq_def]
  simp only [hlead, hsecond, isTail_tailByte, tailBits_tailByte, hvalue]
  rw [if_neg (by omega), if_neg (by simp; omega), if_neg (by decide), if_neg (by omega),
    if_neg (by decide), if_neg (by omega), if_neg (by decide)]

/-- The bytes of a character are read as that character. -/
theorem scan_encodeChar (c : Char) :
    scan p (encodeChar c ++ rest) = (c :: (scan (p + (encodeChar c).length) rest).1,
      (scan (p + (encodeChar c).length) rest).2) := by
  have hvalid := toNat_bounds c
  have hchar : Char.ofNat c.toNat = c := Char.ofNat_toNat c
  rw [encodeChar]
  split
  · exact (scan_one p rest ‹_›).trans (by rw [hchar]; rfl)
  · split
    · exact (scan_two p rest (by omega) ‹_›).trans (by rw [hchar]; rfl)
    · split
      · exact (scan_three p rest (by omega) ‹_› (by omega)).trans (by rw [hchar]; rfl)
      · exact (scan_four p rest (by omega) (by omega)).trans (by rw [hchar]; rfl)

end Scan

/-! ## Whole texts -/

theorem scan_encode (t : Text) (p : Nat) : scan p (encode t) = (t, none) := by
  induction t generalizing p with
  | nil => rfl
  | cons c t ih =>
    rw [encode, List.flatMap_cons, scan_encodeChar]
    change (c :: (scan _ (encode t)).1, (scan _ (encode t)).2) = _
    rw [ih]

/-- Every text comes back from its bytes. -/
theorem decode_encode (t : Text) : decode (encode t) = .ok t := by
  rw [decode, scan_encode]

end Utf8

namespace Text

/-- A text without carriage returns keeps its line boundaries. -/
theorem unifyBreaks_of_forall_ne {t : Text} (h : ∀ c ∈ t, c ≠ '\r') : unifyBreaks t = t := by
  induction t with
  | nil => rfl
  | cons c t ih =>
    have hc := h c List.mem_cons_self
    have hrest := ih fun d hd => h d (List.mem_cons_of_mem c hd)
    rw [unifyBreaks.eq_def]
    split
    · rename_i heq
      cases heq
    · rename_i heq
      cases heq
      exact absurd rfl hc
    · rename_i heq
      cases heq
      rw [if_neg hc, hrest]

end Text

end Cross6502
