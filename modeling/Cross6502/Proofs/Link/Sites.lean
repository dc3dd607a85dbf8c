import Cross6502.Proofs.Link.Patching
import Cross6502.Proofs.Link.Placement

/-!
# Operands in the image

A reference names a segment of its object and an offset there.  In the image the segment
has a place (`Placed`), and with it the operand that waits for an address (`Site`).  The
sites of all objects, in link order, are all that resolving goes through: it patches one
after another, and it refuses references that have no site (`patched_of_resolveObjects`).

What a run of patches leaves of an image follows from what one patch does.  A byte that no
site touches is as it was (`Patched.getElem?_of_untouched`), and an operand that no later
site touches holds the address of its name (`Patched.holds`).
-/

namespace Cross6502

namespace Link

/-! ## Segments in the image -/

/-- A segment and the number of bytes in front of it. -/
structure Placed where
  segment : Segment
  offset : Nat

namespace Placed

/-- The byte at a position of the image belongs to the segment. -/
def Contains (p : Placed) (k : Nat) : Prop := p.offset ≤ k ∧ k < p.offset + p.segment.size

end Placed

/-- Segments that are put one behind the other, from an offset on. -/
def placedSegments : Nat → List Segment → List Placed
  | _, [] => []
  | n, g :: rest => ⟨g, n⟩ :: placedSegments (n + g.size) rest

theorem map_segment_placedSegments (n : Nat) (segments : List Segment) :
    (placedSegments n segments).map Placed.segment = segments := by
  induction segments generalizing n with
  | nil => rfl
  | cons g rest ih => rw [placedSegments, List.map_cons, ih]

theorem map_offset_placedSegments (n : Nat) (segments : List Segment) :
    (placedSegments n segments).map Placed.offset = segmentOffsets n segments := by
  induction segments generalizing n with
  | nil => rfl
  | cons g rest ih => rw [placedSegments, List.map_cons, ih, segmentOffsets]

theorem placedSegments_append (n : Nat) (before after : List Segment) :
    placedSegments n (before ++ after) = placedSegments n before
      ++ placedSegments (n + (before.flatMap Segment.data).length) after := by
  induction before generalizing n with
  | nil => rfl
  | cons g rest ih =>
    rw [List.cons_append, placedSegments, ih, placedSegments, List.cons_append, List.flatMap_cons,
      List.length_append, ← Nat.add_assoc]
    rfl

/-- The bytes of a segment stand in the concatenation from its offset on. -/
theorem getElem?_of_mem_placedSegments (front : List UInt8) {segments : List Segment} {p : Placed}
    (hp : p ∈ placedSegments front.length segments) {k : Nat} (hk : k < p.segment.size) :
    (front ++ segments.flatMap Segment.data)[p.offset + k]? = p.segment.data[k]? := by
  induction segments generalizing front with
  | nil => cases hp
  | cons g rest ih =>
    rw [List.flatMap_cons, ← List.append_assoc]
    rcases List.mem_cons.mp hp with rfl | hp
    · have hlt : front.length + k < (front ++ g.data).length := by
        rw [List.length_append]
        exact Nat.add_lt_add_left hk _
      rw [List.getElem?_append_left hlt, List.getElem?_append_right (Nat.le_add_right _ _),
        Nat.add_sub_cancel_left]
    · refine ih (front ++ g.data) ?_
      rw [List.length_append]
      exact hp

/-! ## Operands -/

/-- A reference and the segment it names. -/
structure Site where
  reference : Reference
  home : Placed

namespace Site

/-- The offset of the operand in the image. -/
def offset (t : Site) : Int := t.home.offset + t.reference.offset

/-- The address that the operand was assembled for. -/
def address (t : Site) : Int := t.home.segment.start + t.reference.offset

/-- The operand takes up a position of the image. -/
def Covers (t : Site) (k : Nat) : Prop := t.offset ≤ k ∧ (k : Int) < t.offset + t.reference.width

/-- One of the operand's indices stands for a position in an image of the given length. -/
def Touches (t : Site) (length k : Nat) : Prop :=
  ∃ i : Nat, i < t.reference.width ∧ position? length (t.offset + i) = some k

/-- The bytes of an image that the operand takes up. -/
def operandIn (t : Site) (image : List UInt8) : List UInt8 :=
  (image.drop t.offset.toNat).take t.reference.width

/-- The operand is written with the address that the table gives its name. -/
def PatchedBy (t : Site) (table : SymbolTable) (image image' : List UInt8) : Prop :=
  ∃ input, (patch table input t.reference t.offset t.address image).outcome = .ok image'

variable {t : Site}

theorem offset_nonneg (h : 0 ≤ t.reference.offset) : 0 ≤ t.offset :=
  Int.add_nonneg (Int.natCast_nonneg _) h

/-- Indices that count from the front stand for the positions the operand takes up. -/
theorem Touches.covers (h : 0 ≤ t.offset) {length k : Nat} (htouch : t.Touches length k) :
    t.Covers k := by
  obtain ⟨i, hi, hposition⟩ := htouch
  obtain ⟨n, hn⟩ := Int.eq_ofNat_of_zero_le h
  rw [hn, ← Int.natCast_add] at hposition
  have hk := eq_of_position?_natCast hposition
  rw [Covers, hn]
  omega

end Site

/-- The segment that a reference of an object names, if there is one. -/
def home? (n : Nat) (o : Object) (r : Reference) : Option Placed :=
  if 0 ≤ r.segment then (placedSegments n o.segments)[r.segment.toNat]? else none

/-- The sites of references of an object whose first byte has the given offset. -/
def referenceSites (n : Nat) (o : Object) (rs : List Reference) : List Site :=
  rs.filterMap fun r => (home? n o r).map (Site.mk r)

/-- The sites of all objects in link order. -/
def sites : Nat → List Object → List Site
  | _, [] => []
  | n, o :: rest => referenceSites n o o.references ++ sites (n + o.size) rest

theorem referenceSites_cons {n : Nat} {o : Object} {r : Reference} {p : Placed}
    (h : home? n o r = some p) (rs : List Reference) :
    referenceSites n o (r :: rs) = ⟨r, p⟩ :: referenceSites n o rs := by
  rw [referenceSites, List.filterMap_cons, h]
  rfl

/-! ## Runs of patches -/

/-- Sites are patched one after another. -/
inductive Patched (table : SymbolTable) : List Site → List UInt8 → List UInt8 → Prop
  | nil (image : List UInt8) : Patched table [] image image
  | cons {t : Site} {rest : List Site} {image image₁ image' : List UInt8}
      (hfirst : t.PatchedBy table image image₁) (hrest : Patched table rest image₁ image') :
      Patched table (t :: rest) image image'

section Run

variable {table : SymbolTable} {t : Site} {ts us : List Site} {image image₁ image' : List UInt8}

theorem Site.PatchedBy.length_eq (h : t.PatchedBy table image image') :
    image'.length = image.length := by
  obtain ⟨input, hpatch⟩ := h
  obtain ⟨a, bytes, -, -, -, hwrite⟩ := of_patch hpatch
  exact length_writeBytes hwrite

/-- A patch starts and ends inside the image. -/
theorem Site.PatchedBy.bounds (h : t.PatchedBy table image image') :
    -(image.length : Int) ≤ t.offset ∧ t.offset + t.reference.width ≤ image.length := by
  obtain ⟨input, hpatch⟩ := h
  obtain ⟨a, bytes, -, hroom, hholds, hwrite⟩ := of_patch hpatch
  have hne : bytes ≠ [] := by
    intro hnil
    have hlength := hholds.length_eq
    have hwidth := t.reference.width_eq_two_or_one
    rw [hnil, List.length_nil] at hlength
    omega
  exact ⟨neg_length_le_of_writeBytes hwrite hne, hroom⟩

/-- A patch leaves every byte alone that it does not touch. -/
theorem Site.PatchedBy.getElem?_of_untouched (h : t.PatchedBy table image image') {k : Nat}
    (hk : ¬ t.Touches image.length k) : image'[k]? = image[k]? := by
  obtain ⟨input, hpatch⟩ := h
  obtain ⟨a, bytes, -, -, hholds, hwrite⟩ := of_patch hpatch
  refine getElem?_writeBytes_of_untouched hwrite fun i hi hposition => hk ⟨i, ?_, hposition⟩
  rwa [hholds.length_eq] at hi

/-- An operand that was written from the front on holds the address of its name. -/
theorem Site.PatchedBy.holds (h : t.PatchedBy table image image') (hoffset : 0 ≤ t.offset) :
    ∃ a, table.addressOf? t.reference.name = some a
      ∧ Holds t.reference a t.address (t.operandIn image') := by
  obtain ⟨input, hpatch⟩ := h
  obtain ⟨a, bytes, haddress, -, hholds, hwrite⟩ := of_patch hpatch
  obtain ⟨n, hn⟩ := Int.eq_ofNat_of_zero_le hoffset
  rw [hn] at hwrite
  have hoperand : t.operandIn image' = bytes := by
    rw [operandIn, hn, Int.toNat_natCast]
    refine List.ext_getElem? fun i => ?_
    rw [List.getElem?_take]
    split
    · rename_i hi
      rw [List.getElem?_drop]
      exact getElem?_writeBytes hwrite (hholds.length_eq ▸ hi)
    · rename_i hi
      have hbytes := hholds.length_eq
      rw [List.getElem?_eq_none (by omega)]
  exact ⟨a, haddress, hoperand ▸ hholds⟩

namespace Patched

theorem append (h : Patched table ts image image₁) (h' : Patched table us image₁ image') :
    Patched table (ts ++ us) image image' := by
  induction h with
  | nil image => exact h'
  | cons hfirst _ ih => exact .cons hfirst (ih h')

theorem of_append (h : Patched table (ts ++ us) image image') :
    ∃ image₁, Patched table ts image image₁ ∧ Patched table us image₁ image' := by
  induction ts generalizing image with
  | nil => exact ⟨image, .nil image, h⟩
  | cons t ts ih =>
    cases h with
    | cons hfirst hrest =>
      obtain ⟨image₁, hts, hus⟩ := ih hrest
      exact ⟨image₁, .cons hfirst hts, hus⟩

theorem length_eq (h : Patched table ts image image') : image'.length = image.length := by
  induction h with
  | nil image => rfl
  | cons hfirst _ ih => rw [ih, hfirst.length_eq]

/-- A byte that no site touches is as it was. -/
theorem getElem?_of_untouched (h : Patched table ts image image') {k : Nat}
    (hk : ∀ t ∈ ts, ¬ t.Touches image.length k) : image'[k]? = image[k]? := by
  induction h with
  | nil image => rfl
  | cons hfirst _ ih =>
    rw [ih, hfirst.getElem?_of_untouched (hk _ List.mem_cons_self)]
    intro u hu
    rw [hfirst.length_eq]
    exact hk u (List.mem_cons_of_mem _ hu)

theorem exists_patchedBy (h : Patched table ts image image') (ht : t ∈ ts) :
    ∃ image₁ image₂, image₁.length = image.length ∧ t.PatchedBy table image₁ image₂ := by
  obtain ⟨before, after, rfl⟩ := List.append_of_mem ht
  obtain ⟨image₁, hbefore, hrest⟩ := h.of_append
  cases hrest with
  | cons hfirst _ => exact ⟨image₁, _, hbefore.length_eq, hfirst⟩

/-- An operand that no later site touches holds the address of its name in the end. -/
theorem holds {before after : List Site} (h : Patched table (before ++ t :: after) image image')
    (hoffset : ∀ u ∈ t :: after, 0 ≤ u.offset)
    (hlast : ∀ u ∈ after, ∀ k, t.Covers k → ¬ u.Covers k) :
    ∃ a, table.addressOf? t.reference.name = some a
      ∧ Holds t.reference a t.address (t.operandIn image') := by
  obtain ⟨image₁, -, hrest⟩ := h.of_append
  cases hrest with
  | @cons _ _ _ image₂ _ hfirst hafter =>
    have ht := hoffset t List.mem_cons_self
    obtain ⟨a, haddress, hholds⟩ := hfirst.holds ht
    have hkept : t.operandIn image' = t.operandIn image₂ := by
      refine List.ext_getElem? fun i => ?_
      rw [Site.operandIn, Site.operandIn, List.getElem?_take, List.getElem?_take]
      split
      · rename_i hi
        rw [List.getElem?_drop, List.getElem?_drop]
        refine hafter.getElem?_of_untouched fun u hu htouch => ?_
        refine hlast u hu _ ?_ (htouch.covers (hoffset u (List.mem_cons_of_mem t hu)))
        rw [Site.Covers]
        omega
      · rfl
    exact ⟨a, haddress, hkept ▸ hholds⟩

end Patched

end Run

/-! ## Resolving is a run of patches -/

section Resolve

variable {table : SymbolTable} {input : String} {n : Nat} {o : Object}
  {image image' : List UInt8}

theorem resolveReference_eq (r : Reference) :
    resolveReference table input o (segmentOffsets n o.segments) image r =
      match home? n o r with
      | some p => patch table input r (p.offset + r.offset) (p.segment.start + r.offset) image
      | none =>
          Logged.fail (Failure.link (.missingSegment input r.line r.name r.segment)).worded := by
  have hoffset : ∀ i : Nat, (segmentOffsets n o.segments)[i]?
      = ((placedSegments n o.segments)[i]?).map Placed.offset := by
    intro i
    rw [← map_offset_placedSegments, List.getElem?_map]
  have hsegment : ∀ i : Nat, o.segments[i]?
      = ((placedSegments n o.segments)[i]?).map Placed.segment := by
    intro i
    rw [← List.getElem?_map, map_segment_placedSegments]
  rw [resolveReference, home?]
  by_cases hnonneg : 0 ≤ r.segment
  · simp only [if_pos hnonneg, Option.bind_some, hoffset, hsegment]
    cases (placedSegments n o.segments)[r.segment.toNat]? <;> rfl
  · simp only [if_neg hnonneg, Option.bind_none]

theorem patched_of_resolveReferences {rs : List Reference}
    (h : (resolveReferences table input o (segmentOffsets n o.segments) rs image).outcome
      = .ok image') :
    Patched table (referenceSites n o rs) image image'
      ∧ (referenceSites n o rs).map Site.reference = rs := by
  induction rs generalizing image with
  | nil =>
    cases h
    exact ⟨.nil _, rfl⟩
  | cons r rest ih =>
    rw [resolveReferences, Logged.outcome_bind, resolveReference_eq] at h
    obtain ⟨image₁, hfirst, hrest⟩ := Outcome.bind_eq_ok_iff.mp h
    cases hhome : home? n o r with
    | none =>
      rw [hhome] at hfirst
      cases hfirst
    | some p =>
      rw [hhome] at hfirst
      obtain ⟨hpatched, hreferences⟩ := ih hrest
      rw [referenceSites_cons hhome, List.map_cons, hreferences]
      exact ⟨.cons ⟨input, hfirst⟩ hpatched, rfl⟩

/-- Resolving the references of all objects patches all sites, and every reference has
one. -/
theorem patched_of_resolveObjects {objects : List Object} {names : List String}
    (hnames : objects.length ≤ names.length)
    (h : (resolveObjects table objects names (objectOffsets n objects) image).outcome
      = .ok image') :
    Patched table (sites n objects) image image'
      ∧ (sites n objects).map Site.reference = objects.flatMap Object.references := by
  induction objects generalizing n names image with
  | nil =>
    cases h
    exact ⟨.nil _, rfl⟩
  | cons o objects ih =>
    cases names with
    | nil => exact absurd hnames (Nat.not_succ_le_zero _)
    | cons input names =>
      rw [objectOffsets, resolveObjects, Logged.outcome_bind] at h
      obtain ⟨image₁, hfirst, hrest⟩ := Outcome.bind_eq_ok_iff.mp h
      obtain ⟨hpatched, hreferences⟩ := patched_of_resolveReferences hfirst
      obtain ⟨hpatched', hreferences'⟩ := ih (Nat.le_of_succ_le_succ hnames) hrest
      refine ⟨hpatched.append hpatched', ?_⟩
      rw [sites, List.map_append, hreferences, hreferences', List.flatMap_cons]

end Resolve

/-! ## Linking -/

theorem length_le_of_addObjects {m merged : Merged} {objects : List Object} {names : List String}
    (h : (m.addObjects objects names).outcome = .ok merged) : objects.length ≤ names.length := by
  induction objects generalizing m names with
  | nil => exact Nat.zero_le _
  | cons o objects ih =>
    cases names with
    | nil => cases h
    | cons input names =>
      rw [Merged.addObjects, Logged.outcome_bind] at h
      obtain ⟨m₁, -, hrest⟩ := Outcome.bind_eq_ok_iff.mp h
      exact Nat.succ_le_succ (ih hrest)

/-- Every object of a link has a name. -/
theorem length_le_of_link {s : Settings} {objects : List Object} {chr : Option Object}
    {names : List String} {l : Linked} (h : (link s objects chr names).outcome = .ok l) :
    objects.length ≤ l.inputs.length := by
  simp only [link, Logged.outcome_bind, placeObjects_outcome] at h
  obtain ⟨p, hplace, h⟩ := Outcome.bind_eq_ok_iff.mp h
  obtain ⟨merged, hmerged, -⟩ := Outcome.map_eq_ok_iff.mp hplace
  obtain ⟨image, -, h⟩ := Outcome.bind_eq_ok_iff.mp h
  cases h
  exact length_le_of_addObjects hmerged

theorem flatMap_bytes_eq_flatMap_data (objects : List Object) :
    objects.flatMap Object.bytes = (objects.flatMap Object.segments).flatMap Segment.data :=
  List.flatMap_assoc.symm

/-- The image of a link is the concatenation of all segments with all sites patched, and
every reference has its site. -/
theorem of_link {s : Settings} {objects : List Object} {chr : Option Object} {names : List String}
    {l : Linked} (h : (link s objects chr names).outcome = .ok l) :
    ∃ table, l.object.symbols = some table ∧ l.object.first.start = imageStart s objects
      ∧ Patched table (sites 0 objects) ((objects.flatMap Object.segments).flatMap Segment.data)
        l.object.first.data
      ∧ (sites 0 objects).map Site.reference = objects.flatMap Object.references := by
  simp only [link, Logged.outcome_bind, placeObjects_outcome] at h
  obtain ⟨p, hplace, h⟩ := Outcome.bind_eq_ok_iff.mp h
  obtain ⟨merged, hmerged, rfl⟩ := Outcome.map_eq_ok_iff.mp hplace
  obtain ⟨image, hresolve, h⟩ := Outcome.bind_eq_ok_iff.mp h
  cases h
  obtain ⟨hpatched, hreferences⟩ :=
    patched_of_resolveObjects (length_le_of_addObjects hmerged) hresolve
  rw [← flatMap_bytes_eq_flatMap_data]
  exact ⟨merged.table, rfl, rfl, hpatched, hreferences⟩

end Link

end Cross6502
