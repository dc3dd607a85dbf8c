import Cross6502.Files.Directory
import Cross6502.Settings

/-!
# Parameters of a command line

A tool declares its options and the files it takes as arguments.  An option is a
flag or carries a value of some kind, and each kind says which values it refuses
and why.  Paths are looked up in the directory while the command line is read.

What is wrong with a command line is a `UsageError`; nothing has been done when one
is found.
-/

namespace Cross6502

namespace Command

/-! ## Usage errors -/

/-- What is wrong with a command line. -/
inductive UsageError where
  | missingArgument (name : String)
  | missingOption (name : String)
  /-- An option that the tool does not have, and those it has that are spelt alike. -/
  | unknownOption (name : Text) (alike : List Text)
  | valueNeeded (name : Text)
  | valueRefused (name : Text)
  | badValue (name reason : String)
  | extraArguments (arguments : List Text)
  deriving DecidableEq, Inhabited

/-- The question whether one of several options was meant. -/
def suggestion : List Text → String
  | [] => ""
  | [t] => " Did you mean " ++ String.ofList (Text.quoted t) ++ "?"
  | ts => " (Did you mean one of: "
      ++ ", ".intercalate (ts.map fun t => String.ofList (Text.quoted t)) ++ "?)"

def UsageError.message : UsageError → String
  | missingArgument name => "Missing argument " ++ name ++ "."
  | missingOption name => "Missing option " ++ name ++ "."
  | unknownOption name alike =>
      "No such option " ++ String.ofList (Text.quoted name) ++ "." ++ suggestion alike
  | valueNeeded name => "Option " ++ String.ofList (Text.quoted name) ++ " requires an argument."
  | valueRefused name => "Option " ++ String.ofList (Text.quoted name) ++ " does not take a value."
  | badValue name reason => "Invalid value for " ++ name ++ ": " ++ reason
  | extraArguments arguments =>
      (if arguments.length = 1 then "Got unexpected extra argument ("
        else "Got unexpected extra arguments (")
        ++ " ".intercalate (arguments.map String.ofList) ++ ")"

/-- Why a command line is not carried out: it is wrong, or checking it failed. -/
inductive Refusal where
  | usage (e : UsageError)
  | failure (e : Failure)
  deriving DecidableEq, Inhabited

/-! ## Kinds of values -/

/-- What the value of a parameter must be. -/
inductive ValueKind where
  /-- A path that no folder is at. -/
  | outputFile
  /-- A path that a file is at. -/
  | inputFile
  /-- One of several words, in either case. -/
  | word (choices : List String)
  | address
  /-- A number that is not below a bound. -/
  | atLeast (bound : Int)
  deriving DecidableEq, Inhabited

namespace ValueKind

/-- Why a path is refused for a file, given whether it must exist.  A path that cannot
be looked up at all is a failure. -/
def refusedPath (d : Directory) (mustExist : Bool) (t : Text) :
    Except Failure (Option String) :=
  match d.look t with
  | .ok (.file _) =>
      if d.mayRead t then .ok none
      else .ok (some ("File " ++ String.ofList (Text.quoted t) ++ " is not readable."))
  | .ok .folder => .ok (some ("File " ++ String.ofList (Text.quoted t) ++ " is a directory."))
  | .error .nullInPath => .error (Directory.Dead.nullInPath.failure (String.ofList t))
  | .error _ =>
      if mustExist then
        .ok (some ("File " ++ String.ofList (Text.quoted t) ++ " does not exist."))
      else .ok none

/-- Why a word is refused that must be one of several. -/
def refusedWord (choices : List String) (t : Text) : Option String :=
  if choices.contains (String.ofList (Text.fold t)) then none
  else some (String.ofList (Text.quoted t) ++ " is not one of "
    ++ ", ".intercalate (choices.map Text.quotedString) ++ ".")

/-- Why a text is refused for an address. -/
def refusedAddress (t : Text) : Option String :=
  match readAddress t with
  | .ok _ => none
  | .error e => some e.message

/-- Why a text is refused for a number that is not below a bound. -/
def refusedNumber (bound : Int) (t : Text) : Option String :=
  match Numeral.read 10 t with
  | .error _ => some (String.ofList (Text.quoted t) ++ " is not a valid integer range.")
  | .ok n =>
      if bound ≤ n then none
      else some (Text.decimalString n ++ " is not in the range x>="
        ++ Text.decimalString bound ++ ".")

/-- Why a value is refused, if it is. -/
def refused (d : Directory) (t : Text) : ValueKind → Except Failure (Option String)
  | outputFile => refusedPath d false t
  | inputFile => refusedPath d true t
  | word choices => .ok (refusedWord choices t)
  | address => .ok (refusedAddress t)
  | atLeast bound => .ok (refusedNumber bound t)

end ValueKind

/-! ## Options -/

/-- An option of a tool. -/
structure Parameter where
  /-- The letter of its short form. -/
  short : Option Char := none
  /-- The word of its long form. -/
  long : String
  /-- What its value must be; a flag has none. -/
  kind : Option ValueKind := none
  required : Bool := false
  deriving DecidableEq, Inhabited

namespace Parameter

def isFlag (p : Parameter) : Bool := p.kind.isNone

/-- The option as messages cite it. -/
def citation (p : Parameter) : String :=
  match p.short with
  | some c => "'-" ++ String.singleton c ++ "' / '--" ++ p.long ++ "'"
  | none => "'--" ++ p.long ++ "'"

/-- The forms of the option as they are typed. -/
def forms (p : Parameter) : String :=
  match p.short with
  | some c => "-" ++ String.singleton c ++ ", --" ++ p.long
  | none => "--" ++ p.long

/-- The long form as it is typed. -/
def longForm (p : Parameter) : Text := '-' :: '-' :: p.long.toList

end Parameter

/-- The command line of a tool. -/
structure Interface where
  /-- The tool. -/
  tool : String
  parameters : List Parameter
  /-- What the arguments are. -/
  argument : String
  /-- Whether it takes any number of arguments, or exactly one. -/
  many : Bool
  deriving DecidableEq, Inhabited

/-- The arguments as messages cite them. -/
def Interface.citation (f : Interface) : String := "'" ++ f.argument ++ "'"

end Command

end Cross6502
