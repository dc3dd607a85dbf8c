import Cross6502.Container.Flat
import Cross6502.Sidecar.Basic

/-!
# Attaching a sidecar

A container that holds one segment of an object gets back from the sidecar what it
lacks: the symbols, the load address of its segment, and the references into it,
which now point into the only segment there is.  References into segments that the
container dropped are discarded with a warning each.

An image keeps its own layout, and so does a container whose sidecar lists no
segments: they take symbols and references as they are.
-/

namespace Cross6502

namespace Sidecar

/-- The index of the listed segment that a container holds. -/
def storedIndex (s : Sidecar) (format : Format) : Int :=
  match format with
  | .flat => Flat.storedIndex (s.segments.map SegmentEntry.length)
  | _ => 0

/-- The references into the stored segment, renumbered. -/
def keptReferences (s : Sidecar) (stored : Int) : List Reference :=
  (s.references.filter fun r => r.segment == stored).map fun r => { r with segment := 0 }

/-- The references into other segments. -/
def droppedReferences (s : Sidecar) (stored : Int) : List Reference :=
  s.references.filter fun r => r.segment != stored

/-- Attach a sidecar to an object that was read from a container. -/
def attach (s : Sidecar) (format : Format) (o : Object) : Logged Object :=
  let whole := { o with symbols := some s.symbols, references := s.references }
  if format = .cartridge then Logged.ok whole
  else
    let stored := s.storedIndex format
    match itemAt? s.segments stored with
    | none => Logged.ok whole
    | some entry => do
        Logged.report ((s.droppedReferences stored).map fun r => .discarded r format)
        Logged.say (.restored stored entry.start)
        return { whole with
          first := { o.first with start := entry.start }
          references := s.keptReferences stored }

end Sidecar

end Cross6502
