import Cross6502.Text.Basic

/-!
# How alike two texts are

Two texts are compared by what they have in common from left to right.  Their longest
common stretch is set aside, the leftmost one if several are as long, and what stands
in front of it and what stands behind it are compared in the same way.  The characters
of all stretches together, taken in both texts, are a share of the characters that the
texts have; that share is how alike they are.

A text that is close to none of the known ones has no `closest` texts.
-/

namespace Cross6502

namespace Text

/-! ## Stretches -/

/-- A common stretch of two texts: where it begins in either, and its length. -/
structure Stretch where
  left : Nat
  right : Nat
  length : Nat
  deriving DecidableEq, Inhabited

/-- How many characters two texts begin with alike. -/
def commonStart : Text → Text → Nat
  | a :: s, b :: t => if a = b then commonStart s t + 1 else 0
  | _, _ => 0

/-- The stretches that begin at each pair of positions, from left to right. -/
def stretches (s t : Text) : List Stretch :=
  (List.range s.length).flatMap fun i =>
    (List.range t.length).map fun j => ⟨i, j, commonStart (s.drop i) (t.drop j)⟩

/-- The longer of two stretches, the first if they are as long. -/
def Stretch.longer (x y : Stretch) : Stretch := if x.length < y.length then y else x

/-- The longest common stretch, the leftmost if several are as long. -/
def longestStretch (s t : Text) : Stretch := (stretches s t).foldl Stretch.longer ⟨0, 0, 0⟩

theorem foldl_longer_mem (l : List Stretch) (x : Stretch) :
    l.foldl Stretch.longer x = x ∨ l.foldl Stretch.longer x ∈ l := by
  induction l generalizing x with
  | nil => exact .inl rfl
  | cons y l ih =>
    rw [List.foldl_cons]
    rcases ih (x.longer y) with h | h
    · rw [h, Stretch.longer]
      split
      · exact .inr List.mem_cons_self
      · exact .inl rfl
    · exact .inr (List.mem_cons_of_mem y h)

theorem left_lt_of_mem_stretches {s t : Text} {x : Stretch} (h : x ∈ stretches s t) :
    x.left < s.length := by
  simp only [stretches, List.mem_flatMap, List.mem_map, List.mem_range] at h
  obtain ⟨i, hi, j, -, rfl⟩ := h
  exact hi

/-- A stretch of any length lies inside the text. -/
theorem left_longestStretch_lt {s t : Text} (h : 0 < (longestStretch s t).length) :
    (longestStretch s t).left < s.length := by
  rcases foldl_longer_mem (stretches s t) ⟨0, 0, 0⟩ with e | m
  · rw [longestStretch, e] at h
    exact absurd h (Nat.lt_irrefl 0)
  · exact left_lt_of_mem_stretches m

/-! ## Likeness -/

/-- How many characters of a text the common stretches have. -/
def matched (s t : Text) : Nat :=
  let x := longestStretch s t
  if 0 < x.length then
    matched (s.take x.left) (t.take x.right) + x.length
      + matched (s.drop (x.left + x.length)) (t.drop (x.right + x.length))
  else 0
termination_by s.length
decreasing_by
  all_goals
    rename_i h
    change 0 < (longestStretch s t).length at h
    have := left_longestStretch_lt h
    simp only [List.length_take, List.length_drop]
    omega

/-- How alike two texts are, as a fraction. -/
structure Likeness where
  shared : Nat
  total : Nat
  deriving DecidableEq, Inhabited

/-- At least three fifths are shared. -/
def Likeness.isClose (x : Likeness) : Bool := 3 * x.total ≤ 5 * x.shared

def likeness (s t : Text) : Likeness := ⟨2 * matched s t, s.length + t.length⟩

/-- The most that two texts can share by their lengths alone. -/
def likenessBound (s t : Text) : Likeness := ⟨2 * min s.length t.length, s.length + t.length⟩

/-! ## The closest of several texts -/

/-- Whether a text stands before another in the order of code points, or is the same. -/
def comesFirst : Text → Text → Bool
  | [], _ => true
  | _ :: _, [] => false
  | a :: s, b :: t => a.toNat < b.toNat || a.toNat == b.toNat && comesFirst s t

/-- Whether a known text is preferred to another: it is more alike, or as alike and the
later of the two. -/
def preferred (x y : Text × Likeness) : Bool :=
  let left := x.2.shared * y.2.total
  let right := y.2.shared * x.2.total
  right < left || right == left && comesFirst y.1 x.1

/-- The known texts that are close to a text, at most `count`, in the order of code
points.  Texts whose lengths are too far apart are not compared further. -/
def closest (count : Nat) (known : List Text) (t : Text) : List Text :=
  let comparable := known.filter fun k => (likenessBound k t).isClose
  let close := (comparable.map fun k => (k, likeness k t)).filter fun x => x.2.isClose
  (((close.mergeSort preferred).take count).map Prod.fst).mergeSort comesFirst

end Text

end Cross6502
