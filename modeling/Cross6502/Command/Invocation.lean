import Cross6502.Command.Parameter
import Cross6502.Container.Format
import Cross6502.Text.Similarity

/-!
# Reading a command line

Options and arguments may be mixed.  A long option takes its value behind an equals
sign or as the next word; short ones may be written together behind one dash, and
the first of them that takes a value takes the rest of the word or the next word.
A word `--` makes arguments of all that follow.

The words are read from left to right, with at most one option waiting for its
value.  Afterwards the values are checked: those of the options in the order of
their first appearance, then the arguments, then that no required option is absent.
An option that is given more than once has its last value.

Every tool also has the flags `--version` and `--help`.  The first of them on the
command line is answered before anything is checked.
-/

namespace Cross6502

namespace Command

/-! ## Words -/

/-- An option as it was given: the word of its long form, and its value. -/
structure GivenOption where
  long : String
  value : Option Text := none
  deriving DecidableEq, Inhabited

/-- An option that waits for its value, and how it was typed. -/
structure Waiting where
  long : String
  typed : Text
  deriving DecidableEq, Inhabited

/-- What the words of a command line give. -/
structure Invocation where
  options : List GivenOption := []
  arguments : List Text := []
  deriving DecidableEq, Inhabited

/-- Read letters behind a dash. -/
def readLetters (ps : List Parameter) :
    List Char → Except UsageError (List GivenOption × Option Waiting)
  | [] => .ok ([], none)
  | c :: rest =>
      match ps.find? fun p => p.short == some c with
      | none => .error (.unknownOption ['-', c] [])
      | some p =>
          if p.isFlag then do
            let (options, waiting) ← readLetters ps rest
            .ok ({ long := p.long } :: options, waiting)
          else if rest.isEmpty then .ok ([], some { long := p.long, typed := ['-', c] })
          else .ok ([{ long := p.long, value := some rest }], none)

/-- A word cut at its first equals sign. -/
def cutAtEquals (word : Text) : Text × Option Text :=
  match word.dropWhile (· ≠ '=') with
  | [] => (word, none)
  | _ :: value => (word.takeWhile (· ≠ '='), some value)

/-- The long forms that are spelt like an unknown one. -/
def alike (ps : List Parameter) (name : Text) : List Text :=
  Text.closest 3 (ps.map Parameter.longForm) name

/-- Read a word that begins with a dash. -/
def readOption (ps : List Parameter) (word : Text) :
    Except UsageError (List GivenOption × Option Waiting) :=
  let (name, value) := cutAtEquals word
  match ps.find? fun p => p.longForm == name with
  | some p =>
      if p.isFlag then
        match value with
        | some _ => .error (.valueRefused name)
        | none => .ok ([{ long := p.long }], none)
      else
        match value with
        | some v => .ok ([{ long := p.long, value := some v }], none)
        | none => .ok ([], some { long := p.long, typed := name })
  | none =>
      if word.take 2 = ['-', '-'] then .error (.unknownOption name (alike ps name))
      else readLetters ps (word.drop 1)

/-- A word that is read as an option. -/
def isOptionWord : Text → Bool
  | '-' :: _ :: _ => true
  | _ => false

/-- Read words. -/
def readWords (ps : List Parameter) : Option Waiting → List Text → Except UsageError Invocation
  | none, [] => .ok {}
  | some w, [] => .error (.valueNeeded w.typed)
  | some w, value :: rest => do
      let i ← readWords ps none rest
      .ok { i with options := { long := w.long, value := some value } :: i.options }
  | none, word :: rest =>
      if word = ['-', '-'] then .ok { arguments := rest }
      else if isOptionWord word then do
        let (options, waiting) ← readOption ps word
        let i ← readWords ps waiting rest
        .ok { i with options := options ++ i.options }
      else do
        let i ← readWords ps none rest
        .ok { i with arguments := word :: i.arguments }

namespace Invocation

/-! ## Values -/

def has (i : Invocation) (long : String) : Bool := i.options.any fun o => o.long == long

/-- The value of an option: the last one given. -/
def value? (i : Invocation) (long : String) : Option Text :=
  (i.options.reverse.find? fun o => o.long == long).bind GivenOption.value

/-- The path that an option gives. -/
def path? (i : Invocation) (long : String) : Option Path := (i.value? long).map Path.ofText

/-- The arguments as paths. -/
def paths (i : Invocation) : List Path := i.arguments.map Path.ofText

/-- The container format an option asks for. -/
def format? (i : Invocation) (long : String) : Option Format :=
  (i.value? long).bind fun t => Format.ofName? (String.ofList (Text.fold t))

/-! ## Checks -/

/-- Check the value of one parameter. -/
def checkValue (d : Directory) (citation : String) (kind : ValueKind) (t : Text) :
    Except Refusal Unit :=
  match kind.refused d t with
  | .ok none => .ok ()
  | .ok (some reason) => .error (.usage (.badValue citation reason))
  | .error e => .error (.failure e)

/-- Check the options that are given, in the order of their first appearance. -/
def checkOptions (d : Directory) (ps : List Parameter) (i : Invocation) :
    Except Refusal Unit :=
  (i.options.map GivenOption.long).eraseDups.forM fun long =>
    match ps.find? fun p => p.long == long with
    | some p =>
        match p.kind, i.value? long with
        | some kind, some t => checkValue d p.citation kind t
        | _, _ => .ok ()
    | none => .ok ()

/-- Check the arguments that the tool takes. -/
def checkArguments (d : Directory) (f : Interface) (i : Invocation) : Except Refusal Unit :=
  let taken := if f.many then i.arguments else i.arguments.take 1
  if taken.isEmpty then .error (.usage (.missingArgument f.citation))
  else taken.forM (checkValue d f.citation .inputFile)

/-- Check that every required option is given. -/
def checkRequired (ps : List Parameter) (i : Invocation) : Except Refusal Unit :=
  match ps.find? fun p => p.required && !i.has p.long with
  | some p => .error (.usage (.missingOption p.citation))
  | none => .ok ()

/-- Check that there are no more arguments than the tool takes. -/
def checkExtra (f : Interface) (i : Invocation) : Except Refusal Unit :=
  if f.many || i.arguments.length ≤ 1 then .ok ()
  else .error (.usage (.extraArguments (i.arguments.drop 1)))

end Invocation

/-! ## Questions -/

/-- What may be asked of a tool instead of its work. -/
inductive Question where
  | version
  | help
  deriving DecidableEq, Inhabited

namespace Question

/-- The word of the flag that asks. -/
def long : Question → String
  | version => "version"
  | help => "help"

def all : List Question := [version, help]

def parameter (q : Question) : Parameter := { long := q.long }

def ofLong? (word : String) : Option Question := all.find? fun q => q.long == word

end Question

/-- The first question on a command line. -/
def Invocation.question? (i : Invocation) : Option Question :=
  i.options.findSome? fun o => Question.ofLong? o.long

/-- The words of a command line, read by a tool. -/
def Interface.readWords (f : Interface) (words : List Text) : Except UsageError Invocation :=
  Command.readWords (f.parameters ++ Question.all.map Question.parameter) none words

/-- Read and check the command line of a tool.  When a question is asked, nothing is
checked. -/
def Interface.read (f : Interface) (d : Directory) (words : List Text) :
    Except Refusal Invocation := do
  let i ← (f.readWords words).mapError Refusal.usage
  if i.question?.isSome then .ok i
  else do
    i.checkOptions d f.parameters
    i.checkArguments d f
    i.checkRequired f.parameters
    i.checkExtra f
    .ok i

end Command

end Cross6502
