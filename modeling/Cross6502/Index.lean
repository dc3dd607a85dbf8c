/-!
# Indices that may count from the end

Offsets come from outside as integers of either sign.  An index counts from the
front when it is not negative and from the end when it is, and a cut at an index
outside the sequence is brought to the nearest end.  Asking for an item is partial,
cutting is total.
-/

namespace Cross6502

/-- The position an index stands for in a sequence of `length` items: a negative
index counts from the end. -/
def position? (length : Nat) (i : Int) : Option Nat :=
  if 0 ≤ i then
    if i < length then some i.toNat else none
  else if 0 ≤ i + length then some (i + length).toNat
  else none

/-- The item at an index that may count from the end. -/
def itemAt? {α : Type} (xs : List α) (i : Int) : Option α :=
  (position? xs.length i).bind fun n => xs[n]?

/-- Where a cut at an index falls: negative indices count from the end, and every
index is brought into the sequence. -/
def cutPoint (length : Nat) (i : Int) : Nat :=
  if 0 ≤ i then min i.toNat length else (i + length).toNat

/-- The items from one cut to another. -/
def slice {α : Type} (xs : List α) (start stop : Int) : List α :=
  (xs.take (cutPoint xs.length stop)).drop (cutPoint xs.length start)

/-- The items before a cut. -/
def sliceTo {α : Type} (xs : List α) (stop : Int) : List α := xs.take (cutPoint xs.length stop)

/-- The items from a cut on. -/
def sliceFrom {α : Type} (xs : List α) (start : Int) : List α :=
  xs.drop (cutPoint xs.length start)

theorem position?_of_lt {length n : Nat} (h : n < length) :
    position? length (n : Int) = some n := by
  simp [position?, h]

theorem position?_lt {length n : Nat} {i : Int} (h : position? length i = some n) :
    n < length := by
  simp only [position?] at h
  split at h
  · split at h
    · cases h; omega
    · cases h
  · split at h
    · cases h; omega
    · cases h

theorem cutPoint_le (length : Nat) (i : Int) : cutPoint length i ≤ length := by
  simp only [cutPoint]
  split <;> omega

end Cross6502
