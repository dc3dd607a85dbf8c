import Cross6502.Text.Basic

/-!
# Blanks

A blank is a character of white space in the sense of the Unicode standard,
widened by the four separators `U+001C` to `U+001F`.  The zero-width space and the
byte order mark are *not* blanks: a name may hold them.

Trimming, cutting a text into words and looking at its first word all speak about
this one class, so that a label, an operand and a sidecar field end at the same
characters.
-/

namespace Cross6502

namespace Text

/-- The blanks beyond the seven-bit range. -/
def blankRanges : List (Nat × Nat) :=
  [(0x85, 0x85), (0xA0, 0xA0), (0x1680, 0x1680), (0x2000, 0x200A), (0x2028, 0x2029),
   (0x202F, 0x202F), (0x205F, 0x205F), (0x3000, 0x3000)]

/-- A character of white space. -/
def isBlank (c : Char) : Bool :=
  let n := c.toNat
  (9 ≤ n && n ≤ 13) || (28 ≤ n && n ≤ 32) || (128 ≤ n && inRanges blankRanges c)

/-! ## Trimming -/

/-- `t` without the blanks in front. -/
def trimLeft (t : Text) : Text := t.dropWhile isBlank

/-- `t` without the blanks behind. -/
def trimRight (t : Text) : Text := (t.reverse.dropWhile isBlank).reverse

/-- `t` without the blanks around it. -/
def trim (t : Text) : Text := trimRight (trimLeft t)

@[simp] theorem trimLeft_nil : trimLeft [] = [] := rfl

@[simp] theorem trimRight_nil : trimRight [] = [] := rfl

@[simp] theorem trim_nil : trim [] = [] := rfl

/-! ## Words -/

/-- The maximal runs of non-blank characters, in order. -/
def words (t : Text) : List Text :=
  (t.splitOnP isBlank).filter fun w => !w.isEmpty

@[simp] theorem words_nil : words [] = [] := by
  simp [words]

/-- The first word of a text and what follows it, both free of leading blanks. -/
def splitWord (t : Text) : Text × Text :=
  let t := trimLeft t
  (t.takeWhile (fun c => !isBlank c), trimLeft (t.dropWhile fun c => !isBlank c))

/-- The first word of a text, empty when there is none. -/
def firstWord (t : Text) : Text := (splitWord t).1

end Text

end Cross6502
