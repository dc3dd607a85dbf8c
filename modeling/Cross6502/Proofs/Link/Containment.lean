import Cross6502.Proofs.Link.Merging
import Cross6502.Proofs.Link.Sites

/-!
# Which patches stay in their segment

A reference belongs to a segment, and filling its operand in should change that segment
only.  The linker does not see to it.  It refuses an operand that ends behind the image,
not one that ends behind its segment, and an offset in front of the segment is an index
like any other: it leads into the segment before, or counts from the end of the image.
A reference that was written by hand or damaged can so change the code of another input
(`reference_into_next_segment`).

What the check does guarantee is in `confined_iff_of_link`.  An operand stays in its
segment if its offset is not negative and it takes up no byte behind the segment.  The
last segment of the image has none behind it, so there the offset alone decides.
-/

namespace Cross6502

namespace Link

namespace Site

/-- The operand lies in the segment that its reference names. -/
def Inside (t : Site) : Prop :=
  0 ≤ t.reference.offset ∧ t.reference.offset + t.reference.width ≤ t.home.segment.size

instance (t : Site) : Decidable t.Inside := inferInstanceAs (Decidable (_ ∧ _))

/-- Filling the operand in, in an image of the given length, changes the segment only. -/
def Confined (t : Site) (length : Nat) : Prop :=
  ∀ table image image', image.length = length → t.PatchedBy table image image' →
    ∀ k, ¬ t.home.Contains k → image'[k]? = image[k]?

variable {t : Site}

theorem Inside.confined (h : t.Inside) (length : Nat) : t.Confined length := by
  rintro table image image' - hpatch k hk
  refine hpatch.getElem?_of_untouched fun htouch => hk ?_
  have hcovers := htouch.covers (offset_nonneg h.1)
  obtain ⟨hoffset, hend⟩ := h
  rw [Covers, offset] at hcovers
  rw [Placed.Contains]
  omega

/-- An operand in the image whose offset is not negative can leave its segment at the end
only, where it takes up a byte of the image behind the segment. -/
theorem inside_iff {length : Nat} (hend : t.offset + t.reference.width ≤ length) :
    t.Inside ↔ 0 ≤ t.reference.offset
      ∧ ∀ k, k < length → t.home.offset + t.home.segment.size ≤ k → ¬ t.Covers k := by
  have hwidth := t.reference.width_eq_two_or_one
  simp only [Covers, offset, Inside] at hend ⊢
  constructor
  · rintro ⟨hoffset, hinside⟩
    refine ⟨hoffset, fun k _ hbehind hcovers => ?_⟩
    omega
  · rintro ⟨hoffset, hbehind⟩
    refine ⟨hoffset, ?_⟩
    -- otherwise the last byte of the operand is such a byte
    by_contra houtside
    obtain ⟨last, hlast⟩ := Int.eq_ofNat_of_zero_le
      (a := t.home.offset + t.reference.offset + t.reference.width - 1) (by omega)
    exact hbehind last (by omega) (by omega) (by omega)

end Site

/-! ## Refused references -/

theorem eq_index_of_writeBytes {image bytes : List UInt8} {offset : Int} {e : Failure}
    (h : writeBytes image offset bytes = .error e) : e = .index .image := by
  induction bytes generalizing image offset with
  | nil => cases h
  | cons b bytes ih =>
    rcases Outcome.bind_eq_error_iff.mp h with hfirst | ⟨image₁, -, hrest⟩
    · rw [writeByte] at hfirst
      split at hfirst
      · cases hfirst
      · cases hfirst
        rfl
    · exact ih hrest

/-- A failure of another kind is not raised as a failure of the link. -/
theorem eq_of_error_worded {α : Type} {f : Failure} {e : LinkFault}
    (h : (.error f.worded : Except Failure α) = .error (.link e)) : f = .link e :=
  ((Failure.worded_eq_iff Failure.noConfusion).mp (Except.error.inj h)).1

section Refused

variable {table : SymbolTable} {input input' : String} {name : Text} {image : List UInt8}

/-- A reference is refused as outside if its operand ends behind the image. -/
theorem lt_of_patch {r : Reference} {offset site : Int}
    (h : (patch table input r offset site image).outcome
      = .error (.link (.outsideObject input' name))) :
    r.name = name ∧ (image.length : Int) < offset + r.width := by
  rw [patch_outcome] at h
  split at h
  · cases eq_of_error_worded h
  · split at h
    · rename_i hend
      cases h
      exact ⟨rfl, hend⟩
    · rcases Outcome.bind_eq_error_iff.mp h with hbytes | ⟨bytes, -, hwrite⟩
      · rw [patchBytes] at hbytes
        split at hbytes
        · simp only at hbytes
          split at hbytes
          · cases hbytes
          · cases eq_of_error_worded hbytes
        · split at hbytes <;> cases hbytes
      · cases eq_index_of_writeBytes hwrite

variable {n : Nat}

theorem exists_of_resolveReferences {o : Object} {rs : List Reference}
    (h : (resolveReferences table input o (segmentOffsets n o.segments) rs image).outcome
      = .error (.link (.outsideObject input' name))) :
    ∃ t ∈ referenceSites n o rs, t.reference.name = name
      ∧ (image.length : Int) < t.offset + t.reference.width := by
  induction rs generalizing image with
  | nil => cases h
  | cons r rest ih =>
    rw [resolveReferences, Logged.outcome_bind, resolveReference_eq] at h
    cases hhome : home? n o r with
    | none =>
      rw [hhome] at h
      cases eq_of_error_worded h
    | some p =>
      rw [referenceSites_cons hhome]
      rw [hhome] at h
      rcases Outcome.bind_eq_error_iff.mp h with hfirst | ⟨image₁, hfirst, hrest⟩
      · exact ⟨⟨r, p⟩, List.mem_cons_self, lt_of_patch hfirst⟩
      · have hpatched : Site.PatchedBy ⟨r, p⟩ table image image₁ := ⟨input, hfirst⟩
        obtain ⟨t, ht, hname, hlt⟩ := ih hrest
        rw [hpatched.length_eq] at hlt
        exact ⟨t, List.mem_cons_of_mem _ ht, hname, hlt⟩

theorem exists_of_resolveObjects {objects : List Object} {names : List String}
    (h : (resolveObjects table objects names (objectOffsets n objects) image).outcome
      = .error (.link (.outsideObject input' name))) :
    ∃ t ∈ sites n objects, t.reference.name = name
      ∧ (image.length : Int) < t.offset + t.reference.width := by
  induction objects generalizing n names image with
  | nil => cases h
  | cons o objects ih =>
    cases names with
    | nil => cases h
    | cons input names =>
      rw [objectOffsets, resolveObjects, Logged.outcome_bind] at h
      rcases Outcome.bind_eq_error_iff.mp h with hfirst | ⟨image₁, hfirst, hrest⟩
      · obtain ⟨t, ht, hrefused⟩ := exists_of_resolveReferences hfirst
        exact ⟨t, List.mem_append_left _ ht, hrefused⟩
      · obtain ⟨t, ht, hname, hlt⟩ := ih hrest
        rw [(patched_of_resolveReferences hfirst).1.length_eq] at hlt
        exact ⟨t, List.mem_append_right _ ht, hname, hlt⟩

end Refused

namespace Merged

/-! Merging fails for reasons of its own. -/

theorem addAll_ne_link (m : Merged) (input : String) (us : List Symbol) (e : LinkFault) :
    (m.addAll input us).outcome ≠ .error (.link e) := by
  induction us generalizing m with
  | nil => exact fun h => by cases h
  | cons u us ih =>
    intro h
    rw [addAll, Logged.outcome_bind] at h
    rcases Outcome.bind_eq_error_iff.mp h with hfirst | ⟨m₁, -, hrest⟩
    · cases hfind : m.table.find? u.name with
      | some first =>
        rw [add_of_find?_eq_some input hfind] at hfirst
        split at hfirst
        · cases hfirst
        · cases eq_of_error_worded hfirst
      | none =>
        obtain ⟨t, -, houtcome⟩ := add_of_find?_eq_none input hfind
        rw [houtcome] at hfirst
        split at hfirst <;> cases hfirst
    · exact ih m₁ hrest

theorem addObjects_ne_link (m : Merged) (objects : List Object) (names : List String)
    (e : LinkFault) : (m.addObjects objects names).outcome ≠ .error (.link e) := by
  fun_induction addObjects m objects names with
  | case1 => exact fun h => by cases h
  | case2 => exact fun h => by cases h
  | case3 m o objects input names ih =>
    intro h
    rw [Logged.outcome_bind] at h
    rcases Outcome.bind_eq_error_iff.mp h with hfirst | ⟨m₁, -, hrest⟩
    · rw [addObject] at hfirst
      split at hfirst
      · exact addAll_ne_link _ _ _ _ hfirst
      · cases hfirst
    · exact ih m₁ hrest

end Merged

/-- A link that refuses a reference as outside has an operand that ends behind the image. -/
theorem exists_of_link_outside {s : Settings} {objects : List Object} {chr : Option Object}
    {names : List String} {input : String} {name : Text}
    (h : (link s objects chr names).outcome = .error (.link (.outsideObject input name))) :
    ∃ t ∈ sites 0 objects, t.reference.name = name
      ∧ ((objects.flatMap Object.bytes).length : Int) < t.offset + t.reference.width := by
  simp only [link, Logged.outcome_bind, placeObjects_outcome] at h
  rcases Outcome.bind_eq_error_iff.mp h with hplace | ⟨p, hplace, h⟩
  · cases hmerged : (Merged.addObjects {} objects
        (if names.isEmpty then defaultNames objects.length else names)).outcome with
    | ok merged =>
      rw [hmerged] at hplace
      cases hplace
    | error e =>
      rw [hmerged] at hplace
      cases hplace
      exact absurd hmerged (Merged.addObjects_ne_link _ _ _ _)
  · obtain ⟨merged, -, rfl⟩ := Outcome.map_eq_ok_iff.mp hplace
    rcases Outcome.bind_eq_error_iff.mp h with hresolve | ⟨image, -, h⟩
    · exact exists_of_resolveObjects hresolve
    · cases h

/-! ## Linking -/

/-- After a link that succeeds, the operand of every reference starts and ends in the
image.  That of a single reference lies in its segment, and filling it in changes this
segment only, exactly if its offset is not negative and it takes up no byte of the image
behind the segment.  No link refuses a reference as outside unless its operand ends behind
the image. -/
theorem confined_iff_of_link (s : Settings) (objects : List Object) (chr : Option Object)
    (names : List String) :
    (∀ l, (link s objects chr names).outcome = .ok l →
      (sites 0 objects).map Site.reference = objects.flatMap Object.references
        ∧ ∀ t ∈ sites 0 objects,
          (-(l.object.first.size : Int) ≤ t.offset
            ∧ t.offset + t.reference.width ≤ l.object.first.size)
          ∧ (t.Inside ∧ t.Confined l.object.first.size
            ↔ 0 ≤ t.reference.offset ∧ ∀ k, k < l.object.first.size →
              t.home.offset + t.home.segment.size ≤ k → ¬ t.Covers k))
      ∧ ∀ input name,
        (link s objects chr names).outcome = .error (.link (.outsideObject input name)) →
        ∃ t ∈ sites 0 objects, t.reference.name = name
          ∧ ((objects.flatMap Object.bytes).length : Int) < t.offset + t.reference.width := by
  refine ⟨fun l hlink => ?_, fun input name => exists_of_link_outside⟩
  obtain ⟨table, -, -, hpatched, hreferences⟩ := of_link hlink
  refine ⟨hreferences, fun t ht => ?_⟩
  obtain ⟨image, image', hlength, hpatch⟩ := hpatched.exists_patchedBy ht
  have hbounds := hpatch.bounds
  rw [hlength, ← hpatched.length_eq] at hbounds
  have hinside := Site.inside_iff hbounds.2
  exact ⟨hbounds, fun h => hinside.mp h.1, fun h => ⟨hinside.mpr h, (hinside.mpr h).confined _⟩⟩

/-- Code with a reference to a name of another object. -/
def referring (code : List UInt8) (offset : Int) : Object where
  first := ⟨0, code⟩
  references := [⟨"far".toList, 0, offset, .absolute, 1⟩]

/-- The other object, with two bytes of code. -/
def referred : Object where
  first := ⟨1, [0x60, 0x60]⟩
  symbols := some ⟨"far.s", [⟨"far".toList, .label, 0x1234, 1, none⟩]⟩

theorem confined_iff_of_link_call :
    ∃ l, (link {} [referring [0x20, 0, 0] 1, referred] none []).outcome = .ok l
      ∧ ∀ t ∈ sites 0 [referring [0x20, 0, 0] 1, referred], t.Inside ∧ t.Confined 5 := by
  refine ⟨_, rfl, fun t ht => ?_⟩
  obtain ⟨-, hall⟩ := (confined_iff_of_link {} [referring [0x20, 0, 0] 1, referred] none []).1 _ rfl
  refine (hall t ht).2.mpr ?_
  cases List.mem_singleton.mp ht
  refine ⟨by decide, fun k _ hbehind hcovers => ?_⟩
  have hbehind : 3 ≤ k := hbehind
  have hend : (k : Int) < 3 := hcovers.2
  omega

/-- A reference to the two bytes behind its segment is filled in there, and one in front of
its segment at both ends of the image.  Both overwrite code of the other object. -/
theorem reference_into_next_segment :
    (∀ t ∈ sites 0 [referring [0xEA] 1, referred], ¬ t.Inside)
      ∧ (link {} [referring [0xEA] 1, referred] none []).outcome.map (fun l => l.object.first.data)
        = .ok [0xEA, 0x34, 0x12]
      ∧ (∀ t ∈ sites 0 [referring [0xEA] (-1), referred], ¬ t.Inside)
      ∧ (link {} [referring [0xEA] (-1), referred] none []).outcome.map
          (fun l => l.object.first.data) = .ok [0x12, 0x60, 0x34] :=
  ⟨by decide, rfl, by decide, rfl⟩

end Link

end Cross6502
