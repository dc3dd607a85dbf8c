import Cross6502.Proofs.Link.Sites
import Mathlib.Algebra.GroupWithZero.Nat

/-!
# The image is the concatenation and its patches

A linked image holds what the inputs hold: the bytes of all segments, one behind the
other, with the operands that waited for an address filled in.  Apart from these operands
no byte is changed, none is lost and none is put in between
(`link_patchedConcatenation`).

The segments are not moved to where they were assembled for.  A segment that is put
elsewhere is reported, and the reports are all that tells a program that runs from one
that does not, so it matters that none is missing.  Of the operations of a link only the
placing of segments reports them; merging and resolving log other things
(`Merged.misplacements_addAll`, `misplacements_resolveObjects`).
-/

namespace Cross6502

/-- The event reports a segment that is put elsewhere than it was assembled for. -/
def Event.isMisplacement : Event → Bool
  | .misplaced .. => true
  | _ => false

namespace Logged

variable {α β : Type} {x : Logged α} {f : α → Logged β}

/-- The reports of misplaced segments in a log. -/
def misplacements (x : Logged α) : List Event := x.log.filter Event.isMisplacement

theorem misplacements_bind_of_ok {a : α} (h : x.outcome = .ok a) :
    (x >>= f).misplacements = x.misplacements ++ (f a).misplacements :=
  filter_log_bind_of_ok _ h f

theorem misplacements_bind_eq_nil (hx : x.misplacements = [])
    (hf : ∀ a, (f a).misplacements = []) : (x >>= f).misplacements = [] :=
  filter_log_bind_eq_nil hx hf

end Logged

namespace Link

/-! ## Merging and resolving report no segment -/

namespace Merged

theorem misplacements_add (m : Merged) (input : String) (u : Symbol) :
    (m.add input u).misplacements = [] := by
  have hsharing : (m.sharing input u).filter Event.isMisplacement = [] := by
    rw [sharing]
    split
    · refine List.filter_eq_nil_iff.mpr fun e he => ?_
      obtain ⟨other, -, rfl⟩ := List.mem_map.mp he
      exact Bool.false_ne_true
    · rfl
  have hadded : (m.table.add u).logged.misplacements = [] := by
    rw [SymbolTable.add]
    split
    · rfl
    · split <;> rfl
  rw [add]
  split
  · split <;> rfl
  · exact Logged.misplacements_bind_eq_nil hsharing fun _ =>
      Logged.misplacements_bind_eq_nil hadded fun _ => rfl

theorem misplacements_addAll (m : Merged) (input : String) (us : List Symbol) :
    (m.addAll input us).misplacements = [] := by
  induction us generalizing m with
  | nil => rfl
  | cons u us ih => exact Logged.misplacements_bind_eq_nil (misplacements_add m input u) ih

theorem misplacements_addObject (m : Merged) (input : String) (o : Object) :
    (m.addObject input o).misplacements = [] := by
  rw [addObject]
  split
  · exact misplacements_addAll m input _
  · rfl

end Merged

theorem misplacements_patch (table : SymbolTable) (input : String) (r : Reference)
    (offset site : Int) (image : List UInt8) :
    (patch table input r offset site image).misplacements = [] := by
  rw [patch]
  split
  · rfl
  · split
    · rfl
    · refine Logged.misplacements_bind_eq_nil rfl fun bytes => ?_
      exact Logged.misplacements_bind_eq_nil rfl fun image => rfl

theorem misplacements_resolveReference (table : SymbolTable) (input : String) (o : Object)
    (offsets : List Nat) (image : List UInt8) (r : Reference) :
    (resolveReference table input o offsets image r).misplacements = [] := by
  simp only [resolveReference]
  split
  · exact misplacements_patch ..
  · rfl

theorem misplacements_resolveReferences (table : SymbolTable) (input : String) (o : Object)
    (offsets : List Nat) (rs : List Reference) (image : List UInt8) :
    (resolveReferences table input o offsets rs image).misplacements = [] := by
  induction rs generalizing image with
  | nil => rfl
  | cons r rs ih =>
    exact Logged.misplacements_bind_eq_nil (misplacements_resolveReference ..) ih

theorem misplacements_resolveObjects (table : SymbolTable) (objects : List Object)
    (names : List String) (offsets : List (List Nat)) (image : List UInt8) :
    (resolveObjects table objects names offsets image).misplacements = [] := by
  fun_induction resolveObjects table objects names offsets image with
  | case1 o objects input names offsets more image ih =>
    exact Logged.misplacements_bind_eq_nil (misplacements_resolveReferences ..) ih
  | case2 => rfl

/-! ## Placing reports every misplaced segment -/

/-- The reports that the segments of one input call for, in an image with the given start.
Segments are counted from an index on. -/
def misplacedSegments (start : Int) (input : String) (index : Nat) (placed : List Placed) :
    List Event :=
  (placed.zipIdx index).filterMap fun (p, i) =>
    if p.segment.data ≠ [] ∧ p.segment.start ≠ start + p.offset then
      some (.misplaced input i p.segment.start (start + p.offset))
    else none

/-- The reports that all inputs call for. -/
def misplacedObjects (start : Int) : Nat → List Object → List String → List Event
  | n, o :: objects, input :: names =>
      misplacedSegments start input 0 (placedSegments n o.segments)
        ++ misplacedObjects start (n + o.size) objects names
  | _, _, _ => []

theorem placeSegments_log (input : String) (index : Nat) (image : Segment)
    (segments : List Segment) :
    (placeSegments input index image segments).1
      = misplacedSegments image.start input index (placedSegments image.size segments) := by
  induction segments generalizing index image with
  | nil => rfl
  | cons g rest ih =>
    have hfirst : misplacement input index g image.finish
        = misplacedSegments image.start input index [⟨g, image.size⟩] := by
      rw [misplacement, misplacedSegments]
      by_cases h : g.data ≠ [] ∧ g.start ≠ image.start + image.size
      · have hreport : (!g.isEmpty && g.start != image.finish) = true := by
          simpa [Segment.isEmpty, Segment.finish, Segment.size] using h
        rw [if_pos hreport]
        simp only [List.zipIdx_cons, List.zipIdx_nil, List.filterMap_cons, if_pos h]
        rfl
      · have hsilent : ¬ (!g.isEmpty && g.start != image.finish) = true := by
          simpa [Segment.isEmpty, Segment.finish, Segment.size] using h
        rw [if_neg hsilent]
        simp only [List.zipIdx_cons, List.zipIdx_nil, List.filterMap_cons, if_neg h]
        rfl
    simp only [placeSegments, ih, hfirst, Segment.size_append, Segment.start_append, placedSegments]
    rw [misplacedSegments, misplacedSegments, ← List.filterMap_append]
    rfl

theorem misplacements_placeObject (p : Placing) (input : String) (o : Object) :
    (placeObject p input o).misplacements
      = misplacedSegments p.image.start input 0 (placedSegments p.image.size o.segments) := by
  have hreports : ∀ e ∈ misplacedSegments p.image.start input 0
      (placedSegments p.image.size o.segments), e.isMisplacement := by
    intro e he
    obtain ⟨⟨q, i⟩, -, hq⟩ := List.mem_filterMap.mp he
    simp only at hq
    split at hq
    · cases hq
      rfl
    · cases hq
  rw [placeObject]
  simp only [placeSegments_log]
  rw [Logged.misplacements_bind_of_ok rfl,
    Logged.misplacements_bind_eq_nil (Merged.misplacements_addObject ..) fun _ => rfl,
    List.append_nil, Logged.misplacements, Logged.tell, List.filter_append,
    List.filter_eq_self.mpr hreports]
  exact List.append_nil _

theorem misplacements_placeObjects {p q : Placing} {objects : List Object} {names : List String}
    (h : (placeObjects p objects names).outcome = .ok q) :
    (placeObjects p objects names).misplacements
      = misplacedObjects p.image.start p.image.size objects names := by
  induction objects generalizing p names with
  | nil => rfl
  | cons o objects ih =>
    cases names with
    | nil => cases h
    | cons input names =>
      rw [placeObjects, Logged.outcome_bind] at h
      obtain ⟨p₁, hplace, hrest⟩ := Outcome.bind_eq_ok_iff.mp h
      rw [placeObjects, Logged.misplacements_bind_of_ok hplace, misplacements_placeObject,
        ih hrest, misplacedObjects]
      rw [placeObject_outcome] at hplace
      obtain ⟨merged, -, rfl⟩ := Outcome.map_eq_ok_iff.mp hplace
      have hsize : (p.after [o] merged).image.size = p.image.size + o.size := by
        rw [Placing.after, Segment.size_append, List.flatMap_singleton]
        rfl
      rw [hsize]
      rfl

/-- A link reports the misplaced segments, in order and nothing besides. -/
theorem misplacements_link {s : Settings} {objects : List Object} {chr : Option Object}
    {names : List String} {l : Linked} (h : (link s objects chr names).outcome = .ok l) :
    (link s objects chr names).misplacements
      = misplacedObjects l.object.first.start 0 objects l.inputs := by
  have houtcome := h
  simp only [link, Logged.outcome_bind] at houtcome
  obtain ⟨p, hplace, houtcome⟩ := Outcome.bind_eq_ok_iff.mp houtcome
  obtain ⟨image, hresolve, houtcome⟩ := Outcome.bind_eq_ok_iff.mp houtcome
  cases houtcome
  have hstart : p.image.start = imageStart s objects := by
    rw [placeObjects_outcome] at hplace
    obtain ⟨merged, -, rfl⟩ := Outcome.map_eq_ok_iff.mp hplace
    rfl
  rw [link, Logged.misplacements_bind_of_ok hplace, misplacements_placeObjects hplace,
    Logged.misplacements_bind_eq_nil (misplacements_resolveObjects ..) fun _ => rfl,
    List.append_nil]
  simp only [hstart]
  rfl

/-! ## Segments that are not reported -/

theorem start_eq_of_misplacedSegments {start : Int} {input : String} {index : Nat}
    {placed : List Placed} (h : misplacedSegments start input index placed = []) {p : Placed}
    (hp : p ∈ placed) (hne : p.segment.data ≠ []) : p.segment.start = start + p.offset := by
  obtain ⟨i, hi⟩ := List.getElem?_of_mem hp
  have hmem : (p, index + i) ∈ placed.zipIdx index := by
    rw [List.mk_mem_zipIdx_iff_le_and_getElem?_sub]
    exact ⟨Nat.le_add_right _ _, by rwa [Nat.add_sub_cancel_left]⟩
  have hsilent := List.filterMap_eq_nil_iff.mp h _ hmem
  by_contra hstart
  simp only [if_pos (And.intro hne hstart)] at hsilent
  cases hsilent

theorem start_eq_of_misplacedObjects {start : Int} {n : Nat} {objects : List Object}
    {names : List String} (hnames : objects.length ≤ names.length)
    (h : misplacedObjects start n objects names = []) {p : Placed}
    (hp : p ∈ placedSegments n (objects.flatMap Object.segments)) (hne : p.segment.data ≠ []) :
    p.segment.start = start + p.offset := by
  induction objects generalizing n names with
  | nil => cases hp
  | cons o objects ih =>
    cases names with
    | nil => exact absurd hnames (Nat.not_succ_le_zero _)
    | cons input names =>
      obtain ⟨hfirst, hrest⟩ := List.append_eq_nil_iff.mp h
      rw [List.flatMap_cons, placedSegments_append] at hp
      rcases List.mem_append.mp hp with hp | hp
      · exact start_eq_of_misplacedSegments hfirst hp hne
      · exact ih (Nat.le_of_succ_le_succ hnames) hrest hp

/-! ## Linking -/

theorem imageStart_eq_getD (s : Settings) (objects : List Object) :
    imageStart s objects
      = (((objects.flatMap Object.segments).find? fun g => !g.isEmpty).map Segment.start).getD
          s.programStart := by
  have hpopulated : objects.flatMap Object.populated
      = (objects.flatMap Object.segments).filter fun g => !g.isEmpty := by
    rw [List.filter_flatMap]
    rfl
  rw [imageStart, hpopulated, ← List.head?_filter]
  cases (objects.flatMap Object.segments).filter fun g => !g.isEmpty <;> rfl

/-- The first segment of an object is the concatenation of all segments of the inputs, with
the operands of their references filled in by the symbols of the object. -/
structure PatchedConcatenation (s : Settings) (objects : List Object) (o : Object) : Prop where
  start : o.first.start
    = (((objects.flatMap Object.segments).find? fun g => !g.isEmpty).map Segment.start).getD
        s.programStart
  size : o.first.size = ((objects.flatMap Object.segments).map Segment.size).sum
  /-- Every reference of every input has an operand. -/
  references : (sites 0 objects).map Site.reference = objects.flatMap Object.references
  /-- A byte that no operand takes up is that of the concatenation. -/
  frame : ∀ k, (∀ t ∈ sites 0 objects, ¬ t.Covers k) →
    o.first.data[k]? = ((objects.flatMap Object.segments).flatMap Segment.data)[k]?
  /-- An operand that no later one overlaps holds the address of its name. -/
  operands : ∀ before t after, sites 0 objects = before ++ t :: after →
    (∀ u ∈ after, ∀ k, t.Covers k → ¬ u.Covers k) →
    ∃ a, (o.symbols.bind fun table => table.addressOf? t.reference.name) = some a
      ∧ Holds t.reference a t.address (t.operandIn o.first.data)

theorem patchedConcatenation_of_link {s : Settings} {objects : List Object} {chr : Option Object}
    {names : List String} {l : Linked} (hlink : (link s objects chr names).outcome = .ok l)
    (hoffset : ∀ o ∈ objects, ∀ r ∈ o.references, 0 ≤ r.offset) :
    PatchedConcatenation s objects l.object := by
  obtain ⟨table, hsymbols, hstart, hpatched, hreferences⟩ := of_link hlink
  have hnonneg : ∀ t ∈ sites 0 objects, 0 ≤ t.offset := by
    intro t ht
    have hreference : t.reference ∈ objects.flatMap Object.references :=
      hreferences ▸ List.mem_map_of_mem ht
    obtain ⟨o, ho, hr⟩ := List.mem_flatMap.mp hreference
    exact Site.offset_nonneg (hoffset o ho _ hr)
  refine ⟨hstart.trans (imageStart_eq_getD s objects), ?_, hreferences, fun k hk => ?_, ?_⟩
  · rw [Segment.size, hpatched.length_eq, List.length_flatMap]
    rfl
  · exact hpatched.getElem?_of_untouched fun t ht htouch =>
      hk t ht (htouch.covers (hnonneg t ht))
  · intro before t after hsites hlast
    rw [hsites] at hpatched hnonneg
    obtain ⟨a, haddress, hholds⟩ := hpatched.holds
      (fun u hu => hnonneg u (List.mem_append_right before hu)) hlast
    rw [hsymbols]
    exact ⟨a, haddress, hholds⟩

/-- A link that succeeds, with no reference in front of its segment, makes the
concatenation of its inputs with their operands filled in.  It reports exactly the
segments with bytes that were assembled for another address than they are put at, so
without a report every byte has the address it was assembled for. -/
theorem link_patchedConcatenation (s : Settings) (objects : List Object)
    (chr : Option Object) (names : List String) (l : Linked)
    (hoffset : ∀ o ∈ objects, ∀ r ∈ o.references, 0 ≤ r.offset)
    (hlink : (link s objects chr names).outcome = .ok l) :
    PatchedConcatenation s objects l.object
      ∧ (link s objects chr names).misplacements
        = misplacedObjects l.object.first.start 0 objects l.inputs
      ∧ ((link s objects chr names).misplacements = [] →
        ∀ p ∈ placedSegments 0 (objects.flatMap Object.segments), ∀ k, k < p.segment.size →
          l.object.first.start + (p.offset + k : Nat) = p.segment.start + k
            ∧ ((objects.flatMap Object.segments).flatMap Segment.data)[p.offset + k]?
              = p.segment.data[k]?) := by
  have hreports := misplacements_link hlink
  refine ⟨patchedConcatenation_of_link hlink hoffset, hreports, fun hsilent p hp k hk => ?_⟩
  have hbytes := getElem?_of_mem_placedSegments [] hp hk
  have hne : p.segment.data ≠ [] := by
    intro hnil
    rw [Segment.size, hnil] at hk
    exact absurd hk (Nat.not_lt_zero k)
  have hstart := start_eq_of_misplacedObjects (length_le_of_link hlink) (hreports ▸ hsilent) hp hne
  exact ⟨by omega, hbytes⟩

/-- A branch and a jump to a name of another object. -/
def branching : Object where
  first := ⟨0x8000, [0xD0, 0, 0x4C, 0, 0]⟩
  references := [⟨"far".toList, 0, 1, .relative, 1⟩, ⟨"far".toList, 0, 3, .absolute, 2⟩]

/-- The other object, with an address that does not fit the place behind the first. -/
def distant : Object where
  first := ⟨0x9000, [0x60]⟩
  symbols := some ⟨"far.s", [⟨"far".toList, .label, 0x8005, 1, none⟩]⟩

theorem link_patchedConcatenation_branching :
    ∃ l, (link {} [branching, distant] none []).outcome = .ok l
      ∧ PatchedConcatenation {} [branching, distant] l.object
      ∧ l.object.first = ⟨0x8000, [0xD0, 0x03, 0x4C, 0x05, 0x80, 0x60]⟩
      ∧ (link {} [branching, distant] none []).misplacements
        = [.misplaced "<object 1>" 0 0x9000 0x8005] := by
  refine ⟨_, rfl, ?_⟩
  obtain ⟨hconcatenation, hreports, -⟩ :=
    link_patchedConcatenation {} [branching, distant] none [] _ (by decide) rfl
  exact ⟨hconcatenation, rfl, hreports.trans (by decide)⟩

end Link

end Cross6502
