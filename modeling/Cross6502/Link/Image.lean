import Cross6502.Container.Cartridge
import Cross6502.Link.Merge
import Cross6502.Link.Patch
import Cross6502.Settings

/-!
# Linking

Objects are linked in three steps.  Their segments are put one behind the other
into a single image, which starts where the first segment with data was assembled
for; a segment that ends up elsewhere than it was assembled for is reported.  Their
symbols are merged, object by object, as they are placed.  When all are placed,
the references are resolved in order.
-/

namespace Cross6502

namespace Link

/-! ## Placing -/

/-- The state while objects are placed. -/
structure Placing where
  image : Segment
  merged : Merged := {}
  /-- For every object so far, the offsets of its segments in the image. -/
  offsets : List (List Nat) := []
  deriving Inhabited

/-- The warning on a segment that is put elsewhere than it was assembled for. -/
def misplacement (input : String) (index : Nat) (s : Segment) (placed : Int) : List Event :=
  if !s.isEmpty && s.start != placed then [.misplaced input index s.start placed] else []

/-- Put segments behind an image.  The warnings, the offset of each segment and the
new image are given back. -/
def placeSegments (input : String) : Nat → Segment → List Segment →
    List Event × List Nat × Segment
  | _, image, [] => ([], [], image)
  | index, image, s :: rest =>
      let (log, offsets, result) := placeSegments input (index + 1) (image.append s.data) rest
      (misplacement input index s image.finish ++ log, image.size :: offsets, result)

/-- Place one object and merge its symbols. -/
def placeObject (p : Placing) (input : String) (o : Object) : Logged Placing := do
  let (log, offsets, image) := placeSegments input 0 p.image o.segments
  Logged.tell (log ++ [.placed input o.size])
  let merged ← p.merged.addObject input o
  return { image := image, merged := merged, offsets := p.offsets ++ [offsets] }

/-- Place objects in order; each needs a name. -/
def placeObjects (p : Placing) : List Object → List String → Logged Placing
  | [], _ => Logged.ok p
  | _ :: _, [] => Logged.fail (.index .list)
  | o :: objects, input :: names => do
      let p ← placeObject p input o
      placeObjects p objects names

/-! ## Resolving -/

/-- Resolve one reference of an object whose segments have the given offsets. -/
def resolveReference (table : SymbolTable) (input : String) (o : Object) (offsets : List Nat)
    (image : List UInt8) (r : Reference) : Logged (List UInt8) :=
  let index := if 0 ≤ r.segment then some r.segment.toNat else none
  match index.bind (offsets[·]?), index.bind (o.segments[·]?) with
  | some offset, some s =>
      patch table input r (offset + r.offset) (s.start + r.offset) image
  | _, _ => Logged.fail (Failure.link (.missingSegment input r.line r.name r.segment)).worded

/-- Resolve references of one object in order. -/
def resolveReferences (table : SymbolTable) (input : String) (o : Object) (offsets : List Nat) :
    List Reference → List UInt8 → Logged (List UInt8)
  | [], image => Logged.ok image
  | r :: rest, image => do
      let image ← resolveReference table input o offsets image r
      resolveReferences table input o offsets rest image

/-- Resolve the references of all objects. -/
def resolveObjects (table : SymbolTable) :
    List Object → List String → List (List Nat) → List UInt8 → Logged (List UInt8)
  | o :: objects, input :: names, offsets :: more, image => do
      let image ← resolveReferences table input o offsets o.references image
      resolveObjects table objects names more image
  | _, _, _, image => Logged.ok image

/-! ## Linking -/

/-- The address an image starts at: that of the first segment with data. -/
def imageStart (s : Settings) (objects : List Object) : Int :=
  match objects.flatMap Object.populated with
  | segment :: _ => segment.start
  | [] => s.programStart

/-- Names for inputs that have none. -/
def defaultNames (n : Nat) : List String :=
  (List.range n).map fun (i : Nat) => "<object " ++ Text.decimalString i ++ ">"

/-- A linked program. -/
structure Linked where
  /-- The first segment holds the whole image. -/
  object : Object
  /-- The character data to put behind the program. -/
  chr : Option Segment
  inputs : List String
  deriving DecidableEq, Inhabited

/-- Link objects in order.  No names at all are replaced by default names. -/
def link (s : Settings) (objects : List Object) (chr : Option Object) (names : List String) :
    Logged Linked := do
  let names := if names.isEmpty then defaultNames objects.length else names
  let p ← placeObjects { image := { start := imageStart s objects } } objects names
  let image ← resolveObjects p.merged.table objects names p.offsets p.image.data
  Logged.say (.linked objects.length image.length p.merged.table.size)
  return { object := { first := { p.image with data := image }, symbols := some p.merged.table }
           chr := chr.map Object.first
           inputs := names }

/-- The cartridge image of a linked program. -/
def Linked.cartridge (l : Linked) (p : Cartridge.Properties) : Logged (List UInt8) :=
  Cartridge.write l.object.first.data (l.chr.map Segment.data) p

end Link

end Cross6502
