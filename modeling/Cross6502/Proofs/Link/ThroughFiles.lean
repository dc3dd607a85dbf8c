import Cross6502.Proofs.Container.ReadBack
import Cross6502.Proofs.Link.Merging
import Cross6502.Proofs.Link.Patching
import Cross6502.Proofs.Link.Placement
import Mathlib.Data.List.Forall2

/-!
# Linking what files keep

Compiling and linking are separate runs of separate tools, with files between them.  A
program must not depend on that: objects that were stored and read back are to be linked
as the objects in memory are.

An object that stands for another one takes its place in a link without a difference that
shows.  It has the same bytes, so every object behind it is placed as before; its symbols
give the same addresses, so the merge succeeds or fails as before; and its references,
renumbered, lead to the same place in the image and to the same address the operand was
assembled for.  Only the messages of a failed merge can differ, since symbols come back
from a file in another order.
-/

namespace Cross6502

/-- The address an object gives to a name. -/
def Object.addressOf? (o : Object) (name : Text) : Option Int :=
  o.symbols.bind fun t => t.addressOf? name

/-- One object can take the place of another in a link. -/
def Object.Replaces (o o' : Object) : Prop :=
  ∃ front g back t t', StandsFor o o' front g back t t'

namespace StandsFor

variable {o o' : Object} {front back : List Segment} {g : Segment} {t t' : SymbolTable}
  (h : StandsFor o o' front g back t t')
include h

theorem bytes_eq : o.bytes = o'.bytes := by
  rw [h.lone.bytes_eq, Object.bytes, h.segments, List.flatMap_singleton]

theorem populated_eq : o.populated = o'.populated := by
  rw [h.lone.populated_eq, Object.populated, h.segments]

end StandsFor

namespace Link

/-! ## Resolving -/

section Resolve

variable {table table' : SymbolTable} (hsame : table.SameAddresses table')

section Object

variable {o o' : Object} {front back : List Segment} {g : Segment} {t t' : SymbolTable}
  (h : StandsFor o o' front g back t t')
include hsame h

/-- A reference leads to the same operand in both objects. -/
theorem resolveReference_outcome {r : Reference} (hr : r.segment = front.length) (input : String)
    (n : Nat) (image : List UInt8) :
    (resolveReference table input o (segmentOffsets n o.segments) image r).outcome
      = (resolveReference table' input o' (segmentOffsets n o'.segments) image
          { r with segment := 0 }).outcome := by
  have hoffset : (segmentOffsets n o.segments)[front.length]? = some n := by
    rw [h.lone.segments, getElem?_segmentOffsets,
      List.flatMap_eq_nil_iff.mpr h.lone.emptyFront]
    rfl
  have hleft : resolveReference table input o (segmentOffsets n o.segments) image r
      = patch table input r (n + r.offset) (g.start + r.offset) image := by
    rw [resolveReference, hr]
    simp only [Int.natCast_nonneg, if_true, Int.toNat_natCast, Option.bind_some, hoffset,
      h.lone.getElem?]
  have hright : resolveReference table' input o' (segmentOffsets n o'.segments) image
        { r with segment := 0 }
      = patch table' input { r with segment := 0 } (n + r.offset) (g.start + r.offset) image := by
    rw [resolveReference, h.segments]
    rfl
  rw [hleft, hright, patch_outcome, patch_outcome, hsame]
  rfl

theorem resolveReferences_outcome (input : String) (n : Nat) {rs : List Reference}
    (hrs : ∀ r ∈ rs, r.segment = front.length) (image : List UInt8) :
    (resolveReferences table input o (segmentOffsets n o.segments) rs image).outcome
      = (resolveReferences table' input o' (segmentOffsets n o'.segments)
          (rs.map fun r => { r with segment := 0 }) image).outcome := by
  induction rs generalizing image with
  | nil => rfl
  | cons r rest ih =>
    rw [List.map_cons, resolveReferences, resolveReferences, Logged.outcome_bind,
      Logged.outcome_bind,
      resolveReference_outcome hsame h (hrs r List.mem_cons_self) input n image]
    congr 1
    funext patched
    exact ih (fun q hq => hrs q (List.mem_cons_of_mem r hq)) patched

end Object

include hsame in
theorem resolveObjects_outcome {objects objects' : List Object}
    (h : List.Forall₂ Object.Replaces objects objects') (names : List String) (n : Nat)
    (image : List UInt8) :
    (resolveObjects table objects names (objectOffsets n objects) image).outcome
      = (resolveObjects table' objects' names (objectOffsets n objects') image).outcome := by
  induction h generalizing names n image with
  | nil => rfl
  | cons hhead hrest ih =>
    obtain ⟨front, g, back, t, t', hstands⟩ := hhead
    cases names with
    | nil => rfl
    | cons input names =>
      rw [objectOffsets, objectOffsets, resolveObjects, resolveObjects, Logged.outcome_bind,
        Logged.outcome_bind, hstands.references,
        resolveReferences_outcome hsame hstands input n hstands.inside image, Object.size,
        hstands.bytes_eq]
      congr 1
      funext patched
      exact ih names _ patched

end Resolve

/-! ## Merging and placing -/

section Place

variable {objects objects' : List Object} (h : List.Forall₂ Object.Replaces objects objects')
include h

theorem addObjects_alike {m m' : Merged} (hm : m.table.SameAddresses m'.table)
    (names : List String) :
    Logged.Alike (fun n n' => n.table.SameAddresses n'.table)
      (m.addObjects objects names) (m'.addObjects objects' names) := by
  induction h generalizing m m' names with
  | nil => exact Logged.alike_of_ok rfl rfl hm
  | cons hhead hrest ih =>
    obtain ⟨front, g, back, t, t', hstands⟩ := hhead
    cases names with
    | nil => exact Logged.alike_of_error rfl rfl
    | cons input names =>
      refine Logged.Alike.bind ?_ fun n n' _ _ hn => ih hn names
      rw [Merged.addObject, Merged.addObject, hstands.symbols, hstands.symbols']
      exact Merged.addAll_alike hm hstands.nodup hstands.nodup' hstands.line hstands.line'
        hstands.same input input

theorem flatMap_bytes_eq : objects.flatMap Object.bytes = objects'.flatMap Object.bytes := by
  induction h with
  | nil => rfl
  | cons hhead hrest ih =>
    obtain ⟨front, g, back, t, t', hstands⟩ := hhead
    rw [List.flatMap_cons, List.flatMap_cons, hstands.bytes_eq, ih]

theorem imageStart_eq (s : Settings) : imageStart s objects = imageStart s objects' := by
  have hpopulated : objects.flatMap Object.populated = objects'.flatMap Object.populated := by
    induction h with
    | nil => rfl
    | cons hhead hrest ih =>
      obtain ⟨front, g, back, t, t', hstands⟩ := hhead
      rw [List.flatMap_cons, List.flatMap_cons, hstands.populated_eq, ih]
  rw [imageStart, imageStart, hpopulated]

/-- The objects are placed alike: in one image, with tables that give the same addresses. -/
theorem placeObjects_alike (p : Placing) (names : List String) :
    Logged.Alike
      (fun q q' => ∃ merged merged', q = p.after objects merged ∧ q' = p.after objects' merged'
        ∧ q.image = q'.image ∧ merged.table.SameAddresses merged'.table)
      (placeObjects p objects names) (placeObjects p objects' names) := by
  have hleft := placeObjects_outcome p objects names
  have hright := placeObjects_outcome p objects' names
  rcases (addObjects_alike h (m := p.merged) (fun _ => rfl) names).cases with
    ⟨merged, merged', hm, hm', hsame⟩ | ⟨e, e', hm, hm'⟩
  · rw [hm] at hleft
    rw [hm'] at hright
    refine Logged.alike_of_ok hleft hright ⟨merged, merged', rfl, rfl, ?_, hsame⟩
    simp only [Placing.after, flatMap_bytes_eq h]
  · rw [hm] at hleft
    rw [hm'] at hright
    exact Logged.alike_of_error hleft hright

end Place

/-! ## Linking -/

/-- Two linked programs that nothing but their symbols' kinds, lines and order tells
apart. -/
structure SameProgram (l l' : Linked) : Prop where
  start : l.object.first.start = l'.object.first.start
  data : l.object.first.data = l'.object.first.data
  address : ∀ name, l.object.addressOf? name = l'.object.addressOf? name

theorem link_alike {objects objects' : List Object}
    (h : List.Forall₂ Object.Replaces objects objects') (s : Settings) (chr : Option Object)
    (names : List String) :
    Logged.Alike SameProgram (link s objects chr names) (link s objects' chr names) := by
  rw [link, link, ← h.length_eq, ← imageStart_eq h s]
  refine (placeObjects_alike h _ _).bind fun p p' _ _ hp => ?_
  obtain ⟨merged, merged', rfl, rfl, himage, hsame⟩ := hp
  refine Logged.Alike.bind (R := Eq) ?_ fun image image' _ _ himage' => ?_
  · rw [← himage]
    exact Logged.alike_of_outcome_eq (resolveObjects_outcome hsame h _ 0 _)
  · subst himage'
    exact Logged.alike_of_ok rfl rfl ⟨rfl, rfl, hsame⟩

/-- An object that was compiled on its own, with unknown names left to the linker.  The
bound on the source, a number of four thousand digits, keeps the numbers in its sidecar
short enough to be read: none of them is greater than thrice the number of lines. -/
def Compiled (o : Object) : Prop :=
  ∃ (s : Settings) (file : String) (source : Text), 3 * (source.length + 1) < Numeral.decimalLimit
    ∧ (Assembly.assemble s true file source).outcome = .ok o

theorem exists_throughFiles {o : Object} (h : Compiled o) (hsingle : o.populated.length ≤ 1)
    (file : String) : ∃ o', (throughFiles file o).outcome = .ok o' ∧ o.Replaces o' := by
  obtain ⟨s, source, text, hlimit, hassemble⟩ := h
  obtain ⟨table, hproduced⟩ := Assembly.produced_of_assemble hassemble
  obtain ⟨o', hread, front, g, back, t', hstands⟩ :=
    hproduced.exists_throughFiles hlimit hsingle file
  exact ⟨o', hread, front, g, back, table, t', hstands⟩

theorem exists_back {inputs : List (String × Object)} (hcompiled : ∀ i ∈ inputs, Compiled i.2)
    (hsingle : ∀ i ∈ inputs, i.2.populated.length ≤ 1) :
    ∃ back, List.Forall₂ (fun i o' => (throughFiles i.1 i.2).outcome = .ok o') inputs back
      ∧ List.Forall₂ Object.Replaces (inputs.map Prod.snd) back := by
  induction inputs with
  | nil => exact ⟨[], .nil, .nil⟩
  | cons i inputs ih =>
    obtain ⟨o', hread, hreplaces⟩ := exists_throughFiles (hcompiled i List.mem_cons_self)
      (hsingle i List.mem_cons_self) i.1
    obtain ⟨back, hback, hrest⟩ := ih (fun j hj => hcompiled j (List.mem_cons_of_mem i hj))
      (fun j hj => hsingle j (List.mem_cons_of_mem i hj))
    exact ⟨o' :: back, .cons hread hback, .cons hreplaces hrest⟩

/-- Linking through files is linking in memory.  Compiled objects with bytes in at most
one segment each can be stored and read back, each under the name of its sidecar; linking
what was read succeeds exactly if linking the originals does, and then the programs have
one start, the same bytes and the same addresses. -/
theorem link_throughFiles (inputs : List (String × Object))
    (hcompiled : ∀ i ∈ inputs, Compiled i.2) (hsingle : ∀ i ∈ inputs, i.2.populated.length ≤ 1)
    (s : Settings) (chr : Option Object) (names : List String) :
    ∃ back, List.Forall₂ (fun i o' => (throughFiles i.1 i.2).outcome = .ok o') inputs back
      ∧ ((∃ l, (link s (inputs.map Prod.snd) chr names).outcome = .ok l)
        ↔ ∃ l', (link s back chr names).outcome = .ok l')
      ∧ ∀ l l', (link s (inputs.map Prod.snd) chr names).outcome = .ok l →
        (link s back chr names).outcome = .ok l' →
        l.object.first.start = l'.object.first.start
          ∧ l.object.first.data = l'.object.first.data
          ∧ ∀ name, l.object.addressOf? name = l'.object.addressOf? name := by
  obtain ⟨back, hback, hreplaces⟩ := exists_back hcompiled hsingle
  obtain ⟨hsucceed, hsame⟩ := (link_alike hreplaces s chr names).succeed
  refine ⟨back, hback, hsucceed, fun l l' hl hl' => ?_⟩
  have h := hsame l l' hl hl'
  exact ⟨h.start, h.data, h.address⟩

/-- A program that calls a routine it does not have.  Its first segment is empty, since
the source begins with an origin. -/
def caller : Object where
  first := ⟨0, []⟩
  later := [⟨0xC000, [0x20, 0, 0, 0x4C, 0, 0xC0]⟩]
  references := [⟨"sub".toList, 1, 1, .absolute, 3⟩]
  symbols := some ⟨"main.s", [⟨"start".toList, .label, 0xC000, 2, none⟩]⟩

/-- The routine, at the address behind the program. -/
def routine : Object where
  first := ⟨0, []⟩
  later := [⟨0xC006, [0x60]⟩]
  symbols := some ⟨"sub.s", [⟨"sub".toList, .label, 0xC006, 2, none⟩]⟩

theorem link_throughFiles_call :
    ∃ back, List.Forall₂ (fun i o' => (throughFiles i.1 i.2).outcome = .ok o')
        [("main.sym", caller), ("sub.sym", routine)] back
      ∧ ∃ l, (link {} back none []).outcome = .ok l
        ∧ l.object.first.start = 0xC000
        ∧ l.object.first.data = [0x20, 0x06, 0xC0, 0x4C, 0, 0xC0, 0x60]
        ∧ l.object.addressOf? "sub".toList = some 0xC006 := by
  have hcaller : Compiled caller :=
    ⟨{}, "main.s", ".org $C000\nstart:\n jsr sub\n jmp start".toList,
      Numeral.lt_decimalLimit (by decide), rfl⟩
  have hroutine : Compiled routine :=
    ⟨{}, "sub.s", ".org $C006\nsub: rts".toList, Numeral.lt_decimalLimit (by decide), rfl⟩
  obtain ⟨back, hback, hsucceed, hsame⟩ := link_throughFiles
    [("main.sym", caller), ("sub.sym", routine)] (by simp [hcaller, hroutine]) (by decide)
    {} none []
  obtain ⟨l, hl⟩ := hsucceed.mp ⟨_, rfl⟩
  obtain ⟨hstart, hdata, haddress⟩ := hsame _ l rfl hl
  exact ⟨back, hback, l, hl, hstart.symm, hdata.symm, (haddress _).symm⟩

end Link

end Cross6502
