import Cross6502.Log

/-!
# Sidecars

Containers carry no symbols, so a text file stands beside each:

    # Symbol table
    # Generated by as6502
    [SEGMENTS]
    <index> $<start> <length>
    [SYMBOLS]
    <name> $<address> <label|variable> <line>
    [REFERENCES]
    <name> <segment> <offset> <mode> <line>

The segments list all that the assembled object had, although the container holds
one of them; with their lengths a reader finds out which.  Symbols are listed by
address.
-/

namespace Cross6502

/-- A segment as a sidecar lists it. -/
structure SegmentEntry where
  index : Int
  start : Int
  length : Int
  deriving DecidableEq, Inhabited

/-- The contents of a sidecar. -/
structure Sidecar where
  symbols : SymbolTable
  references : List Reference := []
  segments : List SegmentEntry := []
  deriving DecidableEq, Inhabited

namespace Sidecar

/-! ## Section headers -/

def segmentsHeader : Text := "[SEGMENTS]".toList

def symbolsHeader : Text := "[SYMBOLS]".toList

def referencesHeader : Text := "[REFERENCES]".toList

/-! ## Writing -/

/-- The fields of an entry with a blank between neighbours. -/
def entryText (fields : List Text) : Text := Text.joinWith [' '] fields

/-- An address as it is listed. -/
def addressText (n : Int) : Text := '$' :: Text.upperHex 4 n

def segmentText (index : Nat) (s : Segment) : Text :=
  entryText [Text.decimal index, addressText s.start, Text.decimal s.size]

def symbolText (s : Symbol) : Text :=
  entryText [s.name, addressText s.address, s.kind.name, Text.decimal s.line]

def referenceText (r : Reference) : Text :=
  entryText [r.name, Text.decimal r.segment, Text.decimal r.offset, r.mode.name,
    Text.decimal r.line]

/-- The symbols of an object in the order they are listed. -/
def listedSymbols (o : Object) : List Symbol :=
  match o.symbols with
  | some t => t.byAddress
  | none => []

/-- The lines of the sidecar of an object. -/
def lines (o : Object) : List Text :=
  ["# Symbol table".toList, "# Generated by as6502".toList, segmentsHeader]
    ++ o.segments.mapIdx segmentText
    ++ [symbolsHeader]
    ++ (listedSymbols o).map symbolText
    ++ [referencesHeader]
    ++ o.references.map referenceText

/-- The text of the sidecar of an object; every line ends in a line feed. -/
def text (o : Object) : Text := (lines o).flatMap fun l => l ++ ['\n']

/-- The numbers that the sidecar of an object lists in decimal, apart from counts. -/
def numbers (o : Object) : List Int :=
  (listedSymbols o).map Symbol.line ++ o.references.flatMap fun r => [r.segment, r.offset, r.line]

/-- Write the sidecar of an object, if every number in it can be written. -/
def write (o : Object) : Except Failure Text :=
  if (numbers o).all Text.isWritable then .ok (text o) else .error (.value .tooLongToWrite)

end Sidecar

end Cross6502
