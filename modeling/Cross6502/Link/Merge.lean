import Cross6502.Symbol.Addition

/-!
# Merging symbols

The symbols of all inputs are folded into one table, input after input.  A name
that is there already is accepted when its address is the same, and refused
otherwise, citing the input and line of the first definition.

Every input takes its variables from the same area, so two variables of different
names in one cell are legal and worth a warning.
-/

namespace Cross6502

namespace Link

/-- The symbols merged so far, and which input each came from. -/
structure Merged where
  table : SymbolTable := { file := "<linked>" }
  origins : List (Text × String) := []
  deriving DecidableEq, Inhabited

namespace Merged

/-- The input that defined a name. -/
def origin (m : Merged) (name : Text) : String := (m.origins.lookup name).getD ""

/-- Warnings on a new variable in a cell that is taken. -/
def sharing (m : Merged) (input : String) (s : Symbol) : List Event :=
  if s.isVariable then
    (m.table.cells.filter fun other => other.address == s.address).map fun other =>
      .sharedCell input s other (m.origin other.name)
  else []

/-- Why a name cannot be defined at a second address. -/
def conflict (m : Merged) (input : String) (first s : Symbol) : Failure :=
  (Failure.source
    { cause := .conflictingSymbol s.name { file := m.origin s.name, line := first.line }
      location := some { file := input, line := s.line } }).worded

/-- Fold one symbol of an input in. -/
def add (m : Merged) (input : String) (s : Symbol) : Logged Merged :=
  match m.table.find? s.name with
  | some first =>
      if first.address == s.address then Logged.ok m else Logged.fail (m.conflict input first s)
  | none => do
      Logged.tell (m.sharing input s)
      let table ← (m.table.add s).logged
      return { table := table, origins := (s.name, input) :: m.origins }

/-- Fold symbols of an input in, in order. -/
def addAll (m : Merged) (input : String) : List Symbol → Logged Merged
  | [] => Logged.ok m
  | s :: rest => do
      let m ← m.add input s
      addAll m input rest

/-- Fold the symbols of an object in, if it has any. -/
def addObject (m : Merged) (input : String) (o : Object) : Logged Merged :=
  match o.symbols with
  | some t => m.addAll input t.symbols
  | none => Logged.ok m

end Merged

end Link

end Cross6502
