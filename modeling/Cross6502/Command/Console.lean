import Cross6502.Command.Invocation
import Cross6502.Log
import Cross6502.Text.ControlSequence

/-!
# Running a tool

A tool works on a *console*: the directory it reads and writes, and the two texts
it has printed so far.  What a tool says is printed without control sequences.  Log
events go to the error text as they are, with their level when the tool is verbose,
and else only the warnings, bare.

There are two kinds of steps.  A `Task` may fail with a `Failure`.  A `Tool` step
may only end the tool, with an exit code; `guarded` turns a task into such a step,
by reporting its failure.  Either way the console is kept as it was when the task
failed, so what was written before a failure stays written.
-/

namespace Cross6502

namespace Command

/-! ## Exit codes -/

/-- How a tool ends. -/
inductive ExitCode where
  | success
  /-- An error in a source, a container or a link. -/
  | buildError
  /-- Arguments that are refused, or a file that is missing or denied. -/
  | invalidArguments
  /-- A failure that the tool does not expect. -/
  | internalError
  deriving DecidableEq, Inhabited

def ExitCode.number : ExitCode → Nat
  | success => 0
  | buildError => 1
  | invalidArguments => 2
  | internalError => 3

/-- The exit code of a tool that reports a failure. -/
def exitCode : Failure → ExitCode
  | .source _ | .toolchain _ | .container _ | .format _ | .link _ | .unresolved _ _ => .buildError
  | .parameter _ => .invalidArguments
  | .file (.missing _) | .file (.missingOther _) => .invalidArguments
  | .file (.denied _) | .file (.deniedOther _) => .invalidArguments
  | .file (.directory _) | .file (.notDirectory _) | .file (.nameTooLong _) => .internalError
  | .value _ | .index _ | .notText .. => .internalError

/-- What stands in front of a failure's message.  The activity, when it has a name,
qualifies the errors of the toolchain; an error in a source cites its place and
stands alone. -/
def reportHead (activity : String) : Failure → String
  | .source _ => ""
  | .toolchain _ | .container _ | .format _ | .link _ | .unresolved _ _ =>
      if activity.isEmpty then "Error: " else activity ++ " error: "
  | e => if exitCode e = .internalError then "Internal error: " else "Error: "

/-- The line that reports a failure. -/
def reportLine (activity : String) (e : Failure) : String := reportHead activity e ++ e.message

/-! ## The console -/

/-- What a tool works on. -/
structure Console where
  directory : Directory
  verbose : Bool := false
  output : String := ""
  errors : String := ""
  deriving Inhabited

namespace Console

def print (c : Console) (text : String) : Console :=
  { c with output := c.output ++ Text.plainString text }

/-- Put a line behind the error text. -/
def errorLine (c : Console) (line : String) : Console :=
  { c with errors := c.errors ++ line ++ "\n" }

def printError (c : Console) (line : String) : Console := c.errorLine (Text.plainString line)

/-- The line that shows an event, if it is shown. -/
def eventLine? (verbose : Bool) (e : Event) : Option String :=
  if verbose then some e.line else if e.isWarning then some e.text else none

def log (c : Console) (es : List Event) : Console :=
  (es.filterMap (eventLine? c.verbose)).foldl errorLine c

/-- Report a failure. -/
def report (c : Console) (activity : String) (e : Failure) : Console :=
  let c := c.printError (reportLine activity e)
  if c.verbose && exitCode e = .internalError then c.printError "Traceback" else c

@[simp] theorem directory_print (c : Console) (text : String) :
    (c.print text).directory = c.directory := rfl

@[simp] theorem directory_errorLine (c : Console) (line : String) :
    (c.errorLine line).directory = c.directory := rfl

@[simp] theorem directory_printError (c : Console) (line : String) :
    (c.printError line).directory = c.directory := rfl

theorem directory_foldl_errorLine (lines : List String) (c : Console) :
    (lines.foldl errorLine c).directory = c.directory := by
  induction lines generalizing c with
  | nil => rfl
  | cons l ls ih => simp [ih]

@[simp] theorem directory_log (c : Console) (es : List Event) :
    (c.log es).directory = c.directory := directory_foldl_errorLine _ c

@[simp] theorem directory_report (c : Console) (activity : String) (e : Failure) :
    (c.report activity e).directory = c.directory := by
  simp only [report]
  split <;> simp

end Console

/-! ## Steps -/

/-- The end of a tool before its last step. -/
structure Exit where
  code : ExitCode
  /-- A failure that the tool did not report itself. -/
  escaped : Option Failure := none
  deriving DecidableEq, Inhabited

/-- A step that may fail. -/
abbrev Task := EStateM Failure Console

/-- A step that may end the tool. -/
abbrev Tool := EStateM Exit Console

/-- Print a line. -/
def say (line : String) : Task Unit := modify fun c => c.print (line ++ "\n")

/-- Print a line if the tool is verbose. -/
def sayVerbose (line : String) : Task Unit :=
  modify fun c => if c.verbose then c.print (line ++ "\n") else c

namespace Task

/-- A computation that may fail. -/
def ofExcept {α : Type} : Except Failure α → Task α
  | .ok a => pure a
  | .error e => throw e

/-- A computation that logs and may fail. -/
def ofLogged {α : Type} (x : Logged α) : Task α := do
  modify fun c => c.log x.log
  ofExcept x.outcome

/-- Replace the directory. -/
def setDirectory (d : Directory) : Task Unit := modify fun c => { c with directory := d }

end Task

/-- Report the failure of a task and end the tool with it. -/
def guarded {α : Type} (activity : String) (t : Task α) : Tool α := fun c =>
  match t c with
  | .ok a c => .ok a c
  | .error e c => .error { code := exitCode e } (c.report activity e)

/-- End the tool with the failure of a task, unreported. -/
def unguarded {α : Type} (t : Task α) : Tool α := fun c =>
  match t c with
  | .ok a c => .ok a c
  | .error e c => .error { code := .buildError, escaped := some e } c

/-- Print a line to the error text and end the tool. -/
def quit {α : Type} (code : ExitCode) (line : String) : Tool α := do
  modify fun c => c.printError line
  throw { code := code }

/-! ## Outcomes -/

/-- How a tool ended and the console it left. -/
structure Outcome where
  console : Console
  exit : Exit := { code := .success }
  deriving Inhabited

/-- Run a tool on a directory. -/
def Tool.outcome (t : Tool Unit) (verbose : Bool) (d : Directory) : Outcome :=
  match t { directory := d, verbose := verbose } with
  | .ok _ c => { console := c }
  | .error e c => { console := c, exit := e }

/-- What a tool answers to a question. -/
def Interface.answer (f : Interface) : Question → String
  | .version => f.tool ++ ", version 1.0.0\n"
  | .help =>
      "Usage: " ++ f.tool ++ " [OPTIONS] " ++ f.argument ++ "\n\nOptions:\n"
        ++ String.join ((f.parameters ++ Question.all.map Question.parameter).map fun p =>
          "  " ++ p.forms ++ "\n")

/-- What a tool does with a command line that is right. -/
def Interface.carryOut (f : Interface) (tool : Invocation → Tool Unit) (d : Directory)
    (i : Invocation) : Outcome :=
  match i.question? with
  | some q => { console := { directory := d, output := f.answer q } }
  | none => (tool i).outcome (i.has "verbose") d

/-- Read the command line of a tool and run it. -/
def Interface.run (f : Interface) (tool : Invocation → Tool Unit) (d : Directory)
    (words : List Text) : Except UsageError Outcome :=
  match f.read d words with
  | .ok i => .ok (f.carryOut tool d i)
  | .error (.usage e) => .error e
  | .error (.failure e) =>
      .ok { console := { directory := d }, exit := { code := .buildError, escaped := some e } }

end Command

end Cross6502
