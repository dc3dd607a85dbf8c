import Cross6502.Diagnostic.SourceError

/-!
# Reports

While a source is assembled, errors, warnings and notes are recorded in the order
they come up, each with its place.  Recording an error that reaches the limit says
so, and the assembly stops there; the error itself has been recorded.

A report shows the records in order and ends with the count of errors and warnings.
-/

namespace Cross6502

/-- One line or paragraph of a report. -/
inductive Record where
  | error (error : SourceError)
  | warning (location : Location) (message : String)
  | note (location : Location) (message : String)
  deriving DecidableEq, Inhabited

namespace Record

/-- A record as it is shown. -/
def text : Record → String
  | error e => e.text
  | warning l m => l.text ++ ": warning: " ++ m
  | note l m => l.text ++ ": note: " ++ m

def isError : Record → Bool
  | error _ => true
  | _ => false

def isWarning : Record → Bool
  | warning _ _ => true
  | _ => false

def isNote : Record → Bool
  | note _ _ => true
  | _ => false

end Record

/-- The records of one assembly, and the line it is at. -/
structure Report where
  file : String := "<input>"
  line : Int := 0
  /-- The number of errors at which the assembly stops. -/
  maxErrors : Int := 100
  records : List Record := []
  deriving DecidableEq, Inhabited

namespace Report

/-- The place of a line, by default the current one. -/
def location (r : Report) (line : Option Int := none) : Location :=
  { file := r.file, line := line.getD r.line }

def errorCount (r : Report) : Nat := r.records.countP Record.isError

def warningCount (r : Report) : Nat := r.records.countP Record.isWarning

def noteCount (r : Report) : Nat := r.records.countP Record.isNote

def hasErrors (r : Report) : Bool := r.records.any Record.isError

def warnings (r : Report) : List String := (r.records.filter Record.isWarning).map Record.text

/-- Move to a line. -/
def atLine (r : Report) (line : Int) : Report := { r with line := line }

def push (r : Report) (record : Record) : Report := { r with records := r.records ++ [record] }

/-- An error without a place is placed at the current line. -/
def place (r : Report) (e : SourceError) (sourceLine : Option Text) : SourceError :=
  match e.location with
  | some _ => e
  | none => e.located (some r.location) sourceLine

/-- Why the assembly stops at the limit. -/
def limitReached (r : Report) : SourceError :=
  { cause := .tooManyErrors ("Too many errors (" ++ Text.decimalString r.maxErrors
      ++ "), stopping") }

/-- Record an error.  The second part is present when the limit is reached. -/
def error (r : Report) (e : SourceError) (sourceLine : Option Text) :
    Report × Option SourceError :=
  let r := r.push (.error (r.place e sourceLine))
  (r, if r.maxErrors ≤ r.errorCount then some r.limitReached else none)

/-- Record a warning, by default at the current line. -/
def warn (r : Report) (message : String) (line : Option Int := none) : Report :=
  r.push (.warning (r.location line) message)

/-- Record a note on another line. -/
def note (r : Report) (message : String) (line : Int) : Report :=
  r.push (.note (r.location (some line)) message)

/-- Forget all records. -/
def clear (r : Report) : Report := { r with records := [] }

/-- A count with the word for what is counted. -/
def counted (n : Nat) (one many : String) : String :=
  Text.decimalString n ++ " " ++ if n = 1 then one else many

/-- All records in order, and the counts. -/
def text (r : Report) : String :=
  "\n".intercalate (r.records.map Record.text ++
    [counted r.errorCount "error" "errors" ++ ", "
      ++ counted r.warningCount "warning" "warnings"])

end Report

end Cross6502
