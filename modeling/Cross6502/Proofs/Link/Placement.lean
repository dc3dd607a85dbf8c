import Cross6502.Link.Image
import Cross6502.Proofs.Object.Segments

/-!
# Where objects are placed

Placing objects does two things at once: it decides where every segment goes, and it
merges the symbols.  The first is arithmetic on sizes and always succeeds.  The second
can fail, and does not look at the image.  Here the two are taken apart
(`placeObjects_outcome`): segments lie one behind the other, so the image is the
concatenation of all bytes and the offset of a segment is the number of bytes in front
of it (`segmentOffsets`, `objectOffsets`).
-/

namespace Cross6502

namespace Link

open Segment (size_append append_append append_nil)

/-! ## Offsets -/

/-- The offsets of segments that are put one behind the other from an offset on. -/
def segmentOffsets : Nat → List Segment → List Nat
  | _, [] => []
  | n, g :: rest => n :: segmentOffsets (n + g.size) rest

/-- The offsets of the segments of every object, with the objects one behind the other. -/
def objectOffsets : Nat → List Object → List (List Nat)
  | _, [] => []
  | n, o :: rest => segmentOffsets n o.segments :: objectOffsets (n + o.size) rest

theorem length_segmentOffsets (n : Nat) (segments : List Segment) :
    (segmentOffsets n segments).length = segments.length := by
  induction segments generalizing n with
  | nil => rfl
  | cons g rest ih => rw [segmentOffsets, List.length_cons, ih, List.length_cons]

theorem segmentOffsets_append (n : Nat) (before after : List Segment) :
    segmentOffsets n (before ++ after) = segmentOffsets n before
      ++ segmentOffsets (n + (before.flatMap Segment.data).length) after := by
  induction before generalizing n with
  | nil => rfl
  | cons g rest ih =>
    rw [List.cons_append, segmentOffsets, ih, segmentOffsets, List.cons_append, List.flatMap_cons,
      List.length_append, ← Nat.add_assoc]
    rfl

/-- A segment starts behind all bytes of the segments in front of it. -/
theorem getElem?_segmentOffsets (n : Nat) (before : List Segment) (g : Segment)
    (after : List Segment) :
    (segmentOffsets n (before ++ g :: after))[before.length]?
      = some (n + (before.flatMap Segment.data).length) := by
  have hlength := length_segmentOffsets n before
  rw [segmentOffsets_append, List.getElem?_append_right (Nat.le_of_eq hlength), hlength,
    Nat.sub_self]
  rfl

/-! ## Segments -/

theorem placeSegments_eq (input : String) (index : Nat) (image : Segment)
    (segments : List Segment) :
    (placeSegments input index image segments).2
      = (segmentOffsets image.size segments, image.append (segments.flatMap Segment.data)) := by
  induction segments generalizing index image with
  | nil =>
    rw [List.flatMap_nil, append_nil]
    rfl
  | cons g rest ih =>
    simp only [placeSegments, ih, size_append, append_append, segmentOffsets, List.flatMap_cons]
    rfl

/-! ## Objects -/

/-- Fold the symbols of objects in, one object after another; each needs a name. -/
def Merged.addObjects (m : Merged) : List Object → List String → Logged Merged
  | [], _ => Logged.ok m
  | _ :: _, [] => Logged.fail (.index .list)
  | o :: objects, input :: names => do
      let m ← m.addObject input o
      addObjects m objects names

/-- The state after objects were placed and their symbols merged. -/
def Placing.after (p : Placing) (objects : List Object) (merged : Merged) : Placing where
  image := p.image.append (objects.flatMap Object.bytes)
  merged := merged
  offsets := p.offsets ++ objectOffsets p.image.size objects

theorem placeObject_outcome (p : Placing) (input : String) (o : Object) :
    (placeObject p input o).outcome
      = (p.merged.addObject input o).outcome.map (p.after [o]) := by
  have hplace := placeSegments_eq input 0 p.image o.segments
  simp only [placeObject, hplace, Logged.outcome_bind, Logged.outcome_tell]
  cases hmerge : (p.merged.addObject input o).outcome with
  | error e => rfl
  | ok merged =>
    have hbytes : [o].flatMap Object.bytes = o.segments.flatMap Segment.data :=
      List.flatMap_singleton ..
    simp only [Except.bind, Except.map, Placing.after, hbytes]
    rfl

theorem after_after (p : Placing) (o : Object) (objects : List Object) (merged merged' : Merged) :
    (p.after [o] merged).after objects merged' = p.after (o :: objects) merged' := by
  have hbytes : [o].flatMap Object.bytes = o.bytes := List.flatMap_singleton ..
  simp only [Placing.after, hbytes, List.flatMap_cons, append_append, size_append, objectOffsets,
    List.append_assoc, List.cons_append, List.nil_append]
  rfl

/-- Placing is merging, with the image and the offsets worked out beside it. -/
theorem placeObjects_outcome (p : Placing) (objects : List Object) (names : List String) :
    (placeObjects p objects names).outcome
      = (p.merged.addObjects objects names).outcome.map (p.after objects) := by
  induction objects generalizing p names with
  | nil =>
    have hafter : p.after [] p.merged = p := by
      simp only [Placing.after, objectOffsets, List.flatMap_nil, append_nil, List.append_nil]
    rw [placeObjects, Merged.addObjects, Logged.outcome_ok, Logged.outcome_ok]
    exact congrArg Except.ok hafter.symm
  | cons o objects ih =>
    cases names with
    | nil => rfl
    | cons input names =>
      rw [placeObjects, Merged.addObjects, Logged.outcome_bind, Logged.outcome_bind,
        placeObject_outcome]
      cases hmerge : (p.merged.addObject input o).outcome with
      | error e => rfl
      | ok merged =>
        have hrest := ih (p.after [o] merged) names
        simp only [funext (after_after p o objects merged)] at hrest
        exact hrest

end Link

end Cross6502
