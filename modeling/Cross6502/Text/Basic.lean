/-!
# Text as a list of characters

Everything the toolchain reads or writes line by line (source lines, names,
operands, sidecar entries) is held as a list of characters.  A position is then a
list index, a cut is `take` or `drop`, and a scan is a recursion on the list, so
what a scan does to a text can be stated and proved with the list library alone.

Strings appear only where text is finished: in messages and file names.

This file fixes the type, the test for membership in a table of code point
ranges, and the cuts and pads that the printed formats use.
-/

namespace Cross6502

/-- A text is the list of its characters. -/
abbrev Text := List Char

namespace Text

/-! ## Tables of code points -/

/-- A table of code points lists closed ranges; a character is in the table when
its code point lies in one of them. -/
def inRanges (table : List (Nat × Nat)) (c : Char) : Bool :=
  table.any fun r => r.1 ≤ c.toNat && c.toNat ≤ r.2

/-! ## Padding -/

/-- `t` with `c` put in front until it has `width` characters.  A longer text is
left alone. -/
def padLeft (width : Nat) (c : Char) (t : Text) : Text :=
  List.replicate (width - t.length) c ++ t

/-- `t` with blanks put behind it until it has `width` characters. -/
def padRight (width : Nat) (t : Text) : Text :=
  t ++ List.replicate (width - t.length) ' '

@[simp] theorem length_padLeft (width : Nat) (c : Char) (t : Text) :
    (padLeft width c t).length = max width t.length := by
  simp only [padLeft, List.length_append, List.length_replicate]
  omega

@[simp] theorem length_padRight (width : Nat) (t : Text) :
    (padRight width t).length = max width t.length := by
  simp only [padRight, List.length_append, List.length_replicate]
  omega

/-! ## Joining -/

/-- The texts in order, with `separator` between neighbours. -/
def joinWith (separator : Text) : List Text → Text
  | [] => []
  | [t] => t
  | t :: u :: rest => t ++ separator ++ joinWith separator (u :: rest)

@[simp] theorem joinWith_nil (separator : Text) : joinWith separator [] = [] := rfl

@[simp] theorem joinWith_singleton (separator t : Text) : joinWith separator [t] = t := rfl

end Text

end Cross6502
