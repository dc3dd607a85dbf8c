import Cross6502.Object.Directive
import Cross6502.Proofs.Outcome

/-!
# Segments of an object

How the operations on objects act on the list of segments, for an index that lies
inside it: looking a segment up, putting bytes behind it, and carrying out a
directive.  Bytes put behind a segment one after another are put behind it together.
-/

namespace Cross6502

theorem itemAt?_natCast {α : Type} (xs : List α) (n : Nat) : itemAt? xs (n : Int) = xs[n]? := by
  rw [itemAt?, position?, if_pos (by omega)]
  split
  · rfl
  · rename_i h
    rw [List.getElem?_eq_none (by omega)]
    rfl

namespace Segment

theorem size_append (image : Segment) (bytes : List UInt8) :
    (image.append bytes).size = image.size + bytes.length := List.length_append

theorem append_append (image : Segment) (bytes more : List UInt8) :
    (image.append bytes).append more = image.append (bytes ++ more) := by
  rw [Segment.append, Segment.append, Segment.append, List.append_assoc]

theorem append_nil (image : Segment) : image.append [] = image := by
  rw [Segment.append, List.append_nil]

end Segment

namespace Object

theorem segmentAt?_natCast (o : Object) (n : Nat) : o.segmentAt? (n : Int) = o.segments[n]? :=
  itemAt?_natCast o.segments n

theorem exists_getElem?_of_lt {o : Object} {n : Nat} (h : n < o.segments.length) :
    ∃ s, o.segments[n]? = some s := ⟨_, List.getElem?_eq_getElem h⟩

theorem extend_natCast {o : Object} {n : Nat} (h : n < o.segments.length) (bytes : List UInt8) :
    o.extend (n : Int) bytes = .ok (o.modifySegment n fun s => s.append bytes) := by
  rw [extend, position?_of_lt h]

theorem getElem?_modifySegment (o : Object) (n : Nat) (bytes : List UInt8) (i : Nat) :
    (o.modifySegment n fun s => s.append bytes).segments[i]?
      = (o.segments[i]?).map fun s => if n = i then s.append bytes else s := by
  rw [segments_modifySegment, List.getElem?_modify]
  by_cases h : n = i
  · simp only [h, if_true]
    rfl
  · simp only [h, if_false]
    cases o.segments[i]? <;> rfl

theorem length_modifySegment (o : Object) (n : Nat) (f : Segment → Segment) :
    (o.modifySegment n f).segments.length = o.segments.length := by
  rw [segments_modifySegment, List.length_modify]

theorem length_addSegment (o : Object) (start : Int) :
    (o.addSegment start).segments.length = o.segments.length + 1 := by
  rw [segments_addSegment, List.length_append, List.length_singleton]

theorem length_segments_pos (o : Object) : 0 < o.segments.length := Nat.succ_pos _

end Object

/-- A directive that takes effect starts a segment, goes back to the first one, or puts
out a byte. -/
theorem Directive.of_apply {d : Directive} {o o' : Object} {current current' : Int}
    (h : d.apply o current = .ok (o', current')) :
    (∃ argument l, d = .org argument ∧ Literal.read argument = .ok l
      ∧ o' = o.addSegment l.value ∧ current' = o.segments.length)
    ∨ (d = .finish ∧ o' = o ∧ current' = 0)
    ∨ (∃ argument l, d = .byte argument ∧ Literal.read argument = .ok l
      ∧ o.extend current [l.low] = .ok o' ∧ current' = current) := by
  cases d with
  | org argument =>
    obtain ⟨l, hl, h⟩ := Outcome.bind_eq_ok_iff.mp h
    cases h
    exact .inl ⟨argument, l, rfl, hl, rfl, rfl⟩
  | finish =>
    cases h
    exact .inr (.inl ⟨rfl, rfl, rfl⟩)
  | byte argument =>
    obtain ⟨l, hl, h⟩ := Outcome.bind_eq_ok_iff.mp h
    obtain ⟨o₁, hextend, h⟩ := Outcome.bind_eq_ok_iff.mp h
    cases h
    exact .inr (.inr ⟨argument, l, rfl, hl, hextend, rfl⟩)

end Cross6502
