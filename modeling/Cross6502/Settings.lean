import Cross6502.Numeral
import Cross6502.Text.Lowercase

/-!
# Settings

Five numbers govern an assembly: the capacity of the line buffer, the load address
of the first segment, the range of addresses handed out to variables, and the
number of errors at which to give up.  They come from defaults, from the
environment and from the command line, each overriding the one before.

Addresses are written `$hex`, `0xhex` or in decimal and must lie in the sixteen-bit
address space.
-/

namespace Cross6502

/-- Read an address as it is written on the command line. -/
def readAddress (t : Text) : Except Failure Int := do
  let t := Text.trim t
  let value ←
    match t with
    | '$' :: digits => Numeral.read 16 digits
    | _ =>
        if Text.lower (t.take 2) = ['0', 'x'] then Numeral.read 16 (t.drop 2)
        else Numeral.read 10 t
  if 0 ≤ value && value ≤ 0xFFFF then .ok value
  else .error (.value (.addressRange t))

/-- What governs an assembly. -/
structure Settings where
  /-- Capacity of the line buffer, its terminator included. -/
  maxLineLength : Int := 80
  /-- Load address of the first segment. -/
  programStart : Int := 0
  /-- First address handed out to a variable. -/
  variableStart : Int := 0x200
  /-- Last address handed out to a variable. -/
  variableLimit : Int := 0x7FF
  /-- Number of errors at which the assembly stops. -/
  maxErrors : Int := 100
  deriving DecidableEq, Inhabited

namespace Settings

/-- Fields to replace. -/
structure Overrides where
  maxLineLength : Option Int := none
  programStart : Option Int := none
  variableStart : Option Int := none
  variableLimit : Option Int := none
  maxErrors : Option Int := none
  deriving DecidableEq, Inhabited

/-- Replace the fields that are given. -/
def override (s : Settings) (o : Overrides) : Settings where
  maxLineLength := o.maxLineLength.getD s.maxLineLength
  programStart := o.programStart.getD s.programStart
  variableStart := o.variableStart.getD s.variableStart
  variableLimit := o.variableLimit.getD s.variableLimit
  maxErrors := o.maxErrors.getD s.maxErrors

@[simp] theorem override_default (s : Settings) : s.override {} = s := rfl

/-- A table of environment variables. -/
abbrev Environment := List (String × Text)

/-- The value of a variable that is set to something. -/
def lookup? (environment : Environment) (name : String) : Option Text :=
  match environment.lookup name with
  | some [] => none
  | v => v

/-- Read a variable if it is set. -/
def readVariable (environment : Environment) (name : String)
    (read : Text → Except Failure Int) : Except Failure (Option Int) :=
  match lookup? environment name with
  | none => .ok none
  | some t => (read t).map some

/-- The settings of an environment.  The variables are read in a fixed order, and
the first that cannot be read is the failure. -/
def ofEnvironment (environment : Environment) : Except Failure Settings := do
  let maxLine ← readVariable environment "MOS6502_MAX_LINE" (Numeral.read 10)
  let start ← readVariable environment "MOS6502_PROGRAM_START" readAddress
  let cellStart ← readVariable environment "MOS6502_VARIABLE_START" readAddress
  let maxErrors ← readVariable environment "MOS6502_MAX_ERRORS" (Numeral.read 10)
  let defaults : Settings := {}
  .ok (defaults.override
    { maxLineLength := maxLine
      programStart := start
      variableStart := cellStart
      maxErrors := maxErrors })

end Settings

end Cross6502
