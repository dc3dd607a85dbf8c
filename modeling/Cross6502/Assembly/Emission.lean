import Cross6502.Assembly.Definitions
import Cross6502.Assembly.Listing
import Cross6502.Assembly.Statement

/-!
# The second pass: emission

The second pass walks the same lines with all names known.  It assembles every
instruction at the address it has reached, puts the bytes into the current segment,
records the operands left to the linker, and keeps the account that the listing is
made of.  An error on a line is reported and the line puts out nothing; only a line
that outgrows its buffer, or a number too long to convert, stops the pass.
-/

namespace Cross6502

/-- The state of the second pass. -/
structure Emission where
  object : Object
  /-- The index of the current segment. -/
  current : Int := 0
  report : Report
  entries : List ListingEntry := []
  log : List Event := []
  deriving Inhabited

namespace Emission

/-- Before the first line. -/
def start (s : Settings) (report : Report) : Emission where
  object := .starting s.programStart
  report := report

/-- Report an error on a line, if its numbers can be written. -/
def complain (m : Emission) (e : SourceError) (raw : Text) : Emission × Option Failure :=
  if e.cause.numbers.all Text.isWritable then
    let (report, stop) := m.report.error e (some (Text.trimRight raw))
    ({ m with report := report },
      stop.map fun limit => .naming [m.report.maxErrors] (.source limit))
  else (m, some (.value .tooLongToWrite))

/-- The current segment. -/
def segment (m : Emission) : Segment := (m.object.segmentAt? m.current).getD m.object.first

def record (m : Emission) (entry : ListingEntry) : Emission :=
  { m with entries := m.entries ++ [entry] }

/-- A label is reached. -/
def mark (m : Emission) (number : Nat) : Option Text → Emission
  | none => m
  | some name => m.record (.label m.current m.segment.finish number name)

/-! ## Directives -/

/-- Warn of a value that does not fit a byte. -/
def checkByte (m : Emission) (number : Nat) (argument : Text) : Except Failure Emission := do
  let literal ← Literal.read argument
  if literal.value ≤ 255 then .ok m
  else
    let message := "'.byte " ++ String.ofList argument ++ "' does not fit in a byte, emitting $"
      ++ String.ofList (Text.lowerHex 2 ((literal.value : Int) % 256))
    .ok { m with report := m.report.warn message (some number) }

/-- Enter a directive that has taken effect into the account. -/
def account (m : Emission) (number : Nat) (body : Text) : Directive → Except Failure Emission
  | .byte argument => do
      let m ← m.checkByte number argument
      let s := m.segment
      .ok (m.record (.code m.current (s.finish - 1) (s.data.drop (s.size - 1)) number body))
  | _ => .ok (m.record (.directive number body))

/-- Carry out a directive. -/
def direct (m : Emission) (number : Nat) (body : Text) (d : Directive) :
    Except Failure Emission := do
  let (o, current) ← d.apply m.object m.current
  { m with object := o, current := current }.account number body d

/-- A line that begins with a dot. -/
def directiveLine (m : Emission) (number : Nat) (raw body : Text) : Emission × Option Failure :=
  match Directive.ofLine? body with
  | none => m.complain (.ofReading (.unknownDirective (Text.firstWord body))) raw
  | some d =>
      match m.direct number body d with
      | .ok m => (m, none)
      | .error e => (m, some e)

/-! ## Instructions -/

/-- The references of an instruction about to be put out. -/
def referencesOf (m : Emission) (number : Nat) (e : Encoded) (pending : List Text) :
    List Reference :=
  pending.map fun name =>
    { name := name, segment := m.current, offset := (m.segment.size : Int) + 1
      mode := e.mode, line := number }

/-- Put out an instruction. -/
def emit (m : Emission) (number : Nat) (body : Text) (e : Encoded) (pending : List Text) :
    Except Failure Emission := do
  let o ← m.object.extend m.current e.bytes
  let entry := ListingEntry.code m.current m.segment.finish e.bytes number body
  let o := { o with references := o.references ++ m.referencesOf number e pending }
  .ok ({ m with object := o }.record entry)

/-- Put out what a line was assembled to.  Errors in it are reported, except for one that
the assembly cannot go on after. -/
def settle (m : Emission) (number : Nat) (raw body : Text)
    (assembled : Logged (Encoded × List Text)) : Emission × Option Failure :=
  let m := { m with log := m.log ++ assembled.log }
  match assembled.outcome with
  | .ok (e, pending) =>
      match m.emit number body e pending with
      | .ok m => (m, none)
      | .error e => (m, some e)
  | .error (.source e) =>
      if e.isOverflow then (m, some (.source e)) else m.complain e raw
  | .error e => (m, some e)

/-- A line that holds an instruction. -/
def instructionLine (c : Statement.Context) (m : Emission) (number : Nat) (raw body : Text) :
    Emission × Option Failure :=
  m.settle number raw body (Statement.assemble c body m.segment.finish number)

/-! ## Lines -/

/-- The body of a statement. -/
def bodyLine (c : Statement.Context) (m : Emission) (number : Nat) (raw body : Text) :
    Emission × Option Failure :=
  if body.isEmpty then (m, none)
  else if body.head? = some '.' then m.directiveLine number raw body
  else m.instructionLine c number raw body

/-- One line of the second pass. -/
def step (c : Statement.Context) (m : Emission) (number : Nat) (raw : Text) :
    Emission × Option Failure :=
  let m := { m with report := m.report.atLine number }
  let cleaned := Line.clean raw
  match Line.ofClean cleaned with
  | .blank => (m, none)
  | line =>
      if c.capacity - 1 < cleaned.length then
        m.complain (.ofReading (.lineTooLong (c.capacity - 1))) raw
      else
        match line with
        | .statement label body => (m.mark number label).bodyLine c number raw body
        | _ => (m, none)

/-- The second pass over the lines of a source. -/
def run (s : Settings) (c : Statement.Context) (report : Report) (lines : List Text) :
    Emission × Option Failure :=
  walkLines (step c) 1 lines (start s report)

end Emission

end Cross6502
