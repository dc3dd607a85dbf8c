import Cross6502.Assembly.Emission
import Cross6502.Sidecar.Basic
import Cross6502.Text.LineBreak

/-!
# Assemblies

An assembly runs both passes over a source.  It fails when an error was reported,
with the whole report as its message, or when a pass stopped.  Either way all that
was made so far can be looked at: the object, the symbols, the report, the account
and the log.
-/

namespace Cross6502

/-- A source assembled, as far as it went. -/
structure Assembly where
  /-- The object with its symbols. -/
  object : Object
  symbols : SymbolTable
  report : Report
  entries : List ListingEntry
  log : List Event
  /-- Why the assembly failed, if it did. -/
  failure : Option Failure
  deriving Inhabited

namespace Assembly

/-- The failure that a report with errors amounts to. -/
def reportFailure (report : Report) (more : String) : Failure :=
  .ofCause (.general ("Assembly failed with " ++ Text.decimalString report.errorCount
    ++ " errors:\n\n" ++ report.text ++ more) none)

/-- The failure of an assembly that was stopped. -/
def stopFailure (report : Report) (stop : Failure) : Failure :=
  match stop with
  | .source e =>
      match e.cause with
      | .tooManyErrors message => reportFailure report ("\n" ++ message)
      | _ => stop
  | _ => stop

/-- The assembly after its first pass stopped. -/
def stoppedEarly (s : Settings) (d : Definitions) (stop : Failure) : Assembly where
  object := { Object.starting s.programStart with symbols := some d.symbols }
  symbols := d.symbols
  report := d.report
  entries := []
  log := d.log
  failure := some (stopFailure d.report stop)

/-- The assembly after its second pass, given what stopped it. -/
def finished (d : Definitions) (m : Emission) (stop : Option Failure) : Assembly :=
  let log := d.log ++ [.definitionsDone d.symbols.size] ++ m.log
  let (more, failure) :=
    match stop with
    | some e => ([], some (stopFailure m.report e))
    | none =>
        if m.report.hasErrors then
          ([.emissionDone m.object.size], some (reportFailure m.report ""))
        else
          (.emissionDone m.object.size :: m.report.warnings.map Event.sourceWarning, none)
  { object := { m.object with symbols := some d.symbols }
    symbols := d.symbols
    report := m.report
    entries := m.entries
    log := log ++ more
    failure := failure }

/-- Run both passes over lines. -/
def ofLines (s : Settings) (allowUnresolved : Bool) (file : String) (lines : List Text) :
    Assembly :=
  match Definitions.run s file lines with
  | (d, some stop) => stoppedEarly s d stop
  | (d, none) =>
      let context : Statement.Context :=
        { symbols := d.symbols, capacity := s.maxLineLength
          allowUnresolved := allowUnresolved, file := file }
      let (m, stop) := Emission.run s context d.report lines
      finished d m stop

/-- Assemble a source text. -/
def ofSource (s : Settings) (allowUnresolved : Bool) (file : String) (source : Text) : Assembly :=
  let a := ofLines s allowUnresolved file (Text.lines source)
  let closing :=
    match a.failure with
    | none => [Event.assembled a.object.size a.object.segments.length]
    | some _ => []
  { a with log := .assembling file :: a.log ++ closing }

/-- The object of an assembly that succeeded. -/
def result (a : Assembly) : Except Failure Object :=
  match a.failure with
  | none => .ok a.object
  | some e => .error e

/-- The object of a source text, or why there is none. -/
def assemble (s : Settings) (allowUnresolved : Bool) (file : String) (source : Text) :
    Logged Object :=
  let a := ofSource s allowUnresolved file source
  ⟨a.log, a.result⟩

def listing (a : Assembly) : Text := Listing.text a.entries a.symbols

def trace (a : Assembly) : Text := Listing.trace a.entries

end Assembly

end Cross6502
