import Cross6502.Diagnostic.Location

/-!
# What can be wrong with a source

A source error is a cause, the place it was found at and the line that stood
there.  The cause says what went wrong in terms of the source: an unknown mnemonic,
a mode the instruction lacks, a branch that reaches too far, a name defined twice,
a line that outgrew its buffer.  The wording of every cause, its hint included,
stands in this file and nowhere else.

An error is raised without a place by the code that looks at a single line, and
gets its place when it is recorded (`SourceError.located`).
-/

namespace Cross6502

/-! ## Lines that cannot be read -/

/-- Why a line was not understood. -/
inductive ReadingFault where
  /-- The operand is a name that has no address yet. -/
  | unresolvedOperand (mnemonic : Text)
  /-- No addressing mode fits the line. -/
  | noMode (line : Text)
  /-- The line is longer than the line buffer holds. -/
  | lineTooLong (limit : Int)
  /-- A word that begins with a dot and is no directive. -/
  | unknownDirective (name : Text)
  /-- The operand is neither a number nor a known name. -/
  | badOperand (operand : Text)
  /-- There is no cell left for another variable. -/
  | variablesExhausted
  /-- Any other complaint about a line. -/
  | other (message : String) (hint : Option String)
  deriving DecidableEq, Inhabited

namespace ReadingFault

def message : ReadingFault → String
  | unresolvedOperand m => "Unknown symbol for operation '" ++ String.ofList m ++ "'"
  | noMode line => "Unable to determine address mode for '" ++ String.ofList line ++ "'"
  | lineTooLong limit =>
      "Line exceeds the maximum length of " ++ Text.decimalString limit ++ " characters"
  | unknownDirective name => "Unknown directive '" ++ String.ofList name ++ "'"
  | badOperand operand =>
      "Invalid literal value or unresolved/undefined symbol '" ++ String.ofList operand ++ "'"
  | variablesExhausted => "Maximum number of addressable variables exceeded."
  | other message _ => message

def hint : ReadingFault → Option String
  | other _ hint => hint
  | _ => none

end ReadingFault

/-! ## Causes -/

/-- What is wrong with a source. -/
inductive SourceCause where
  /-- An error of the assembly as a whole. -/
  | general (message : String) (hint : Option String)
  /-- A line that was not understood. -/
  | reading (fault : ReadingFault)
  /-- A line that cannot be turned into an opcode. -/
  | encoding (message : String) (hint : Option String)
  /-- A mnemonic the processor does not have. -/
  | unknownMnemonic (mnemonic : Text)
  /-- A mode the instruction does not have, beside those it has. -/
  | unsupportedMode (mnemonic : Text) (mode : String) (supported : List String)
  /-- A branch to a target more than a signed byte away. -/
  | branchRange (target : Text) (offset : Int)
  /-- A name defined again, with the place of its first definition. -/
  | duplicateSymbol (name : Text) (first : Option Location)
  /-- A name that two linked objects define differently. -/
  | conflictingSymbol (name : Text) (first : Location)
  /-- A substitution that does not fit the line buffer. -/
  | bufferOverflow (needed capacity : Int)
  /-- The limit on recorded errors was reached. -/
  | tooManyErrors (message : String)
  deriving DecidableEq, Inhabited

namespace SourceCause

def message : SourceCause → String
  | general message _ => message
  | reading fault => fault.message
  | encoding message _ => message
  | unknownMnemonic m => "Invalid opcode '" ++ String.ofList m ++ "'"
  | unsupportedMode m mode _ =>
      "Address mode '" ++ mode ++ "' invalid for operation '" ++ String.ofList m ++ "'"
  | branchRange target offset =>
      "branch target '" ++ String.ofList target ++ "' is out of range (offset: "
        ++ Text.decimalString offset ++ ")"
  | duplicateSymbol name _ | conflictingSymbol name _ =>
      "Encountered duplicate symbol declaration '" ++ String.ofList name ++ "'"
  | bufferOverflow _ _ => "Could not shift string far enough while desymbolicating"
  | tooManyErrors message => message

/-- The hint for a name whose first definition is known. -/
def firstDefinitionHint (name : Text) (first : Location) : String :=
  "'" ++ String.ofList name ++ "' was first defined at " ++ first.text

def hint : SourceCause → Option String
  | general _ hint => hint
  | reading fault => fault.hint
  | encoding _ hint => hint
  | unknownMnemonic _ => none
  | unsupportedMode m _ supported =>
      if supported.isEmpty then none
      else some (String.ofList m ++ " supports: " ++ ", ".intercalate supported)
  | branchRange _ offset =>
      some ("branch offset is " ++ Text.decimalString offset
        ++ ", but range is -128 to +127; consider using jmp for "
        ++ (if offset > 0 then "forward" else "backward") ++ " references")
  | duplicateSymbol name first => first.map (firstDefinitionHint name)
  | conflictingSymbol name first => some (firstDefinitionHint name first)
  | bufferOverflow needed capacity =>
      some ("line needs " ++ Text.decimalString needed ++ " characters but the buffer holds "
        ++ Text.decimalString (capacity - 1))
  | tooManyErrors _ => none

/-- The numbers in the wording of a cause that are as long as settings, addresses and
places make them. -/
def numbers : SourceCause → List Int
  | reading (.lineTooLong limit) => [limit]
  | branchRange _ offset => [offset]
  | duplicateSymbol _ (some first) => first.numbers
  | conflictingSymbol _ first => first.numbers
  | bufferOverflow needed capacity => [needed, capacity - 1]
  | _ => []

/-- The line of the first definition of a name that is defined again. -/
def firstLine? : SourceCause → Option Int
  | duplicateSymbol _ first => first.map Location.line
  | conflictingSymbol _ first => some first.line
  | _ => none

end SourceCause

/-! ## Errors with their place -/

/-- A cause, where it was found and the source line there. -/
structure SourceError where
  cause : SourceCause
  location : Option Location := none
  sourceLine : Option Text := none
  deriving DecidableEq, Inhabited

namespace SourceError

/-- An error on a line that was not understood, without a place yet. -/
def ofReading (fault : ReadingFault) : SourceError := { cause := .reading fault }

/-- Give an error its place.  A source line already known is kept unless a new one
is given. -/
def located (e : SourceError) (location : Option Location) (line : Option Text) : SourceError :=
  { e with location := location, sourceLine := line.or e.sourceLine }

/-- The numbers in the text of an error: those of its cause and those of its place. -/
def numbers (e : SourceError) : List Int :=
  e.cause.numbers ++ (e.location.map Location.numbers).getD []

/-- A line that cannot be carried on: the buffer it is held in is too small. -/
def isOverflow (e : SourceError) : Bool :=
  match e.cause with
  | .bufferOverflow _ _ => true
  | _ => false

/-- The source line and, under a known column, a caret. -/
def excerpt (location : Location) (line : Text) : List String :=
  ("    " ++ String.ofList line) ::
    if location.column > 0 then
      [String.ofList (List.replicate (3 + location.column.toNat) ' ' ++ ['^'])]
    else []

/-- The error as it is shown: place and message, the source line, the hint. -/
def text (e : SourceError) : String :=
  let headline :=
    match e.location with
    | some l => l.text ++ ": error: " ++ e.cause.message
    | none => "error: " ++ e.cause.message
  let source :=
    match e.location, e.sourceLine with
    | some l, some line => excerpt l line
    | _, _ => []
  let hint :=
    match e.cause.hint with
    | some h => if h.isEmpty then [] else ["hint: " ++ h]
    | none => []
  "\n".intercalate (headline :: (source ++ hint))

end SourceError

end Cross6502
