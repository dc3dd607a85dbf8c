import Cross6502.Diagnostic.Report
import Cross6502.Line.Mode
import Cross6502.Log
import Cross6502.Object.Directive
import Cross6502.Settings

/-!
# The first pass: definitions

The first pass walks the lines to give every name its address.  A label gets the
address that the next byte of the current segment will have; a variable gets the
next cell of the variable area.  To know the addresses, the pass lays the program
out with zeros: every instruction takes as many as its effective mode says, and
directives act on the layout as they will on the object.

A name that is defined already is reported, with a note on its first definition,
and keeps its first address.  A rejected variable takes no cell.
-/

namespace Cross6502

/-- A walk over numbered lines: each step gives the next state, or stops with a
failure and the state it stopped in. -/
def walkLines {σ : Type} (step : σ → Nat → Text → σ × Option Failure) :
    Nat → List Text → σ → σ × Option Failure
  | _, [], s => (s, none)
  | number, raw :: rest, s =>
      match step s number raw with
      | (s, none) => walkLines step (number + 1) rest s
      | (s, some e) => (s, some e)

/-- The state of the first pass. -/
structure Definitions where
  /-- The program laid out in zeros. -/
  layout : Object
  /-- The index of the current segment. -/
  current : Int := 0
  /-- The address of the next variable. -/
  nextCell : Int
  symbols : SymbolTable
  report : Report
  log : List Event := []
  deriving Inhabited

namespace Definitions

/-- Before the first line. -/
def start (s : Settings) (file : String) : Definitions where
  layout := .starting s.programStart
  nextCell := s.variableStart
  symbols := { file := file }
  report := { file := file, maxErrors := s.maxErrors }

/-- Report an error on a line. -/
def complain (d : Definitions) (e : SourceError) (raw : Text) : Definitions × Option Failure :=
  let (report, stop) := d.report.error e (some (Text.trimRight raw))
  ({ d with report := report },
    stop.map fun limit => .naming [d.report.maxErrors] (.source limit))

/-- Add a note on the first definition of a name. -/
def noteFirst (d : Definitions) (name : Text) (e : SourceError) : Definitions :=
  match e.cause.firstLine? with
  | some line =>
      let message := "previous definition of '" ++ String.ofList name ++ "' is here"
      { d with report := d.report.note message line }
  | none => d

/-- Define a symbol, or report that it is defined already.  The flag says whether
it was added.  The line of the symbol was counted, and a count can always be told. -/
def define (d : Definitions) (s : Symbol) (raw : Text) : Definitions × Bool × Option Failure :=
  match d.symbols.insert s with
  | .ok table => ({ d with symbols := table, log := d.log ++ [.added s] }, true, none)
  | .error e =>
      match d.complain e raw with
      | (d, some stop) => (d, false, some stop)
      | (d, none) => (d.noteFirst s.name e, false, none)

/-- The symbol a declaration defines: a variable, or a label when no initial value
is written. -/
def declared (name : Text) (value : Option Text) (cell : Int) (number : Nat) : Symbol :=
  match value with
  | some _ => .ofVariable name cell number value
  | none => .ofLabel name cell number

/-- A declaration takes the next cell, if there is one left. -/
def declare (s : Settings) (d : Definitions) (number : Nat) (raw name : Text)
    (value : Option Text) : Definitions × Option Failure :=
  if s.variableLimit < d.nextCell then d.complain (.ofReading .variablesExhausted) raw
  else
    match d.define (declared name value d.nextCell number) raw with
    | (d, true, stop) => ({ d with nextCell := d.nextCell + 1 }, stop)
    | (d, false, stop) => (d, stop)

/-- The address of the next byte in the current segment. -/
def here (d : Definitions) : Int :=
  match d.layout.segmentAt? d.current with
  | some s => s.finish
  | none => 0

/-- A label marks the place of the next byte. -/
def mark (d : Definitions) (number : Nat) (raw : Text) :
    Option Text → Definitions × Option Failure
  | none => (d, none)
  | some name =>
      match d.define (.ofLabel name d.here number) raw with
      | (d, _, stop) => (d, stop)

/-- The layout after the body of a statement. -/
def layOut (d : Definitions) (body : Text) : Except Failure (Object × Int) :=
  if body.isEmpty then .ok (d.layout, d.current)
  else if body.head? = some '.' then
    match Directive.ofLine? body with
    | some directive => directive.apply d.layout d.current
    | none => .ok (d.layout, d.current)
  else do
    let mode ← Line.effectiveMode body
    let o ← d.layout.extend d.current (List.replicate mode.length 0)
    .ok (o, d.current)

/-- Make room for the body of a statement. -/
def reserve (d : Definitions) (body : Text) : Definitions × Option Failure :=
  match d.layOut body with
  | .ok (o, current) => ({ d with layout := o, current := current }, none)
  | .error e => (d, some e)

/-- One line of the first pass. -/
def step (s : Settings) (d : Definitions) (number : Nat) (raw : Text) :
    Definitions × Option Failure :=
  let d := { d with report := d.report.atLine number }
  match Line.ofClean (Line.clean raw) with
  | .blank => (d, none)
  | .declaration name value => d.declare s number raw name value
  | .statement label body =>
      match d.mark number raw label with
      | (d, some stop) => (d, some stop)
      | (d, none) => d.reserve body

/-- The first pass over the lines of a source. -/
def run (s : Settings) (file : String) (lines : List Text) : Definitions × Option Failure :=
  walkLines (step s) 1 lines (start s file)

end Definitions

end Cross6502
