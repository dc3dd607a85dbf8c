import Cross6502.Diagnostic.SourceError
import Cross6502.Text.Quoted

/-!
# Why an operation failed

Every operation of the toolchain that can fail does so with a `Failure`.  Errors in
a source, in a container file and in a link are causes of the toolchain's own;
beside them stand the failures of the plain operations underneath: a numeral that
is none, an index outside its sequence, a file that is not there, bytes that are
not text.

`Failure.message` is the one place where their wording is fixed.
-/

namespace Cross6502

/-! ## Containers -/

/-- What is wrong with a container file. -/
inductive FormatFault where
  | badMagic
  | truncatedHeader
  | truncatedBanks (prg chr : Nat)
  | tooLarge
  | firstSegmentUnreadable
  | cartridgeNeedsLinker
  | malformedEntry (file : String) (line : Nat) (entry : Text)
  | other (message : String)
  deriving DecidableEq, Inhabited

def FormatFault.message : FormatFault → String
  | badMagic => "Not an iNES file (bad magic)"
  | truncatedHeader => "Truncated iNES header"
  | truncatedBanks prg chr =>
      "Truncated iNES file: header declares " ++ Text.decimalString prg ++ " PRG and "
        ++ Text.decimalString chr ++ " CHR bytes"
  | tooLarge => "ROM too large for an iNES header"
  | firstSegmentUnreadable => "Reading a.out objects is not supported"
  | cartridgeNeedsLinker => "Cannot save a bare object as iNES; use the linker"
  | malformedEntry file line entry =>
      file ++ ":" ++ Text.decimalString line ++ ": malformed symbol file entry: "
        ++ String.ofList entry
  | other message => message

/-! ## Links -/

/-- Why objects cannot be linked. -/
inductive LinkFault where
  /-- A reference into a segment that its object lacks. -/
  | missingSegment (input : String) (line : Int) (name : Text) (segment : Int)
  /-- A reference past the end of the image. -/
  | outsideObject (input : String) (name : Text)
  /-- A branch that reaches too far once its target is known. -/
  | branchRange (input : String) (line : Int) (name : Text) (offset : Int)
  | other (message : String)
  deriving DecidableEq, Inhabited

def LinkFault.message : LinkFault → String
  | missingSegment input line name segment =>
      input ++ ":" ++ Text.decimalString line ++ ": reference to '" ++ String.ofList name
        ++ "' lies in segment " ++ Text.decimalString segment
        ++ ", which the object does not have"
  | outsideObject input name =>
      input ++ ": reference to '" ++ String.ofList name ++ "' lies outside its object"
  | branchRange input line name offset =>
      input ++ ":" ++ Text.decimalString line ++ ": branch to '" ++ String.ofList name
        ++ "' is out of range (offset: " ++ Text.decimalString offset ++ ")"
  | other message => message

/-- The numbers in the wording of a fault that are as long as references and addresses make
them. -/
def LinkFault.numbers : LinkFault → List Int
  | missingSegment _ line _ segment => [line, segment]
  | branchRange _ line _ offset => [line, offset]
  | outsideObject _ _ | other _ => []

/-! ## Values, indices and files -/

/-- What is wrong with a value given as text or as a number. -/
inductive ValueFault where
  /-- The text is no numeral in the base. -/
  | notANumeral (base : Nat) (text : Text)
  /-- A decimal numeral with more digits than are converted. -/
  | tooManyDigits (count : Nat)
  /-- A number with more decimal digits than are written. -/
  | tooLongToWrite
  /-- A number outside the sixteen-bit address space. -/
  | addressRange (text : Text)
  /-- An offset at or past the end of the data. -/
  | offsetBeyond (offset : Int) (length : Nat)
  /-- A path whose last part is missing. -/
  | namelessPath (path : String)
  /-- A path with a null character in it. -/
  | nullInPath
  | other (message : String)
  deriving DecidableEq, Inhabited

def ValueFault.message : ValueFault → String
  | notANumeral base text =>
      "invalid literal for int() with base " ++ Text.decimalString base ++ ": "
        ++ String.ofList ((Text.quoted text).take 200)
  | tooManyDigits count =>
      "Exceeds the limit (" ++ Text.decimalString digitLimit
        ++ " digits) for integer string conversion: value has " ++ Text.decimalString count
        ++ " digits; use sys.set_int_max_str_digits() to increase the limit"
  | tooLongToWrite =>
      "Exceeds the limit (" ++ Text.decimalString digitLimit
        ++ " digits) for integer string conversion; use sys.set_int_max_str_digits() to increase"
        ++ " the limit"
  | addressRange text => "address " ++ String.ofList text ++ " is outside $0000-$FFFF"
  | offsetBeyond offset length =>
      "Offset " ++ Text.decimalString offset ++ " beyond data length "
        ++ Text.decimalString length
  | namelessPath path => "PosixPath(" ++ Text.quotedString path ++ ") has an empty name"
  | nullInPath => "embedded null byte"
  | other message => message

/-- The sequence an index fell outside of. -/
inductive Sequence where
  | bytes
  | image
  | list
  deriving DecidableEq, Inhabited

def Sequence.message : Sequence → String
  | bytes => "index out of range"
  | image => "bytearray index out of range"
  | list => "list index out of range"

/-- Why a file could not be opened. -/
inductive FileFault where
  | missing (path : String)
  | directory (path : String)
  | notDirectory (path : String)
  | nameTooLong (path : String)
  | denied (path : String)
  | missingOther (message : String)
  | deniedOther (message : String)
  deriving DecidableEq, Inhabited

def FileFault.message : FileFault → String
  | missing path => "[Errno 2] No such file or directory: " ++ Text.quotedString path
  | directory path => "[Errno 21] Is a directory: " ++ Text.quotedString path
  | notDirectory path => "[Errno 20] Not a directory: " ++ Text.quotedString path
  | nameTooLong path => "[Errno 36] File name too long: " ++ Text.quotedString path
  | denied path => "[Errno 13] Permission denied: " ++ Text.quotedString path
  | missingOther message | deniedOther message => message

/-- Why bytes are not text. -/
inductive DecodingFault where
  | startByte
  | continuationByte
  | unfinished
  deriving DecidableEq, Inhabited

def DecodingFault.message : DecodingFault → String
  | startByte => "invalid start byte"
  | continuationByte => "invalid continuation byte"
  | unfinished => "unexpected end of data"

/-! ## The sum of all causes -/

/-- Why an operation failed. -/
inductive Failure where
  /-- An error in a source. -/
  | source (error : SourceError)
  /-- A failure of the toolchain without a narrower kind. -/
  | toolchain (message : String)
  /-- A failure of container handling without a narrower kind. -/
  | container (message : String)
  | format (fault : FormatFault)
  | link (fault : LinkFault)
  /-- A name that no linked object defines, and where it is used. -/
  | unresolved (name : Text) (site : Option Location)
  | value (fault : ValueFault)
  | index (sequence : Sequence)
  | file (fault : FileFault)
  /-- The bytes from `first` up to `last` are no character. -/
  | notText (lead : UInt8) (first last : Nat) (fault : DecodingFault)
  /-- A value on the command line that its option does not take. -/
  | parameter (message : String)
  deriving DecidableEq, Inhabited

namespace Failure

/-- The failure as it is shown. -/
def message : Failure → String
  | source e => e.text
  | toolchain m | container m | parameter m => m
  | format f => f.message
  | link f => f.message
  | unresolved name site =>
      "Unresolved symbol '" ++ String.ofList name ++ "'" ++
        match site with
        | some l => " (referenced at " ++ l.text ++ ")"
        | none => ""
  | value f => f.message
  | index s => s.message
  | file f => f.message
  | notText lead first last f =>
      if last ≤ first then
        "'utf-8' codec can't decode byte 0x" ++ String.ofList (Text.lowerHex 2 lead.toNat)
          ++ " in position " ++ Text.decimalString first ++ ": " ++ f.message
      else
        "'utf-8' codec can't decode bytes in position " ++ Text.decimalString first ++ "-"
          ++ Text.decimalString last ++ ": " ++ f.message

/-- A failure on a line that was not understood. -/
def reading (fault : ReadingFault) : Failure := source (.ofReading fault)

/-- A failure of a cause that has no place yet. -/
def ofCause (cause : SourceCause) : Failure := source { cause := cause }

/-- What comes of a failure whose wording holds numbers.  Where one of them is too long to
be written, that is the failure instead. -/
def naming (numbers : List Int) (f : Failure) : Failure :=
  if numbers.all Text.isWritable then f else value .tooLongToWrite

/-- The numbers in the wording of a failure that may be too long to be written. -/
def numbers : Failure → List Int
  | source e => e.numbers
  | link f => f.numbers
  | unresolved _ (some l) => l.numbers
  | value (.offsetBeyond offset _) => [offset]
  | _ => []

/-- What comes of a failure when it is raised.  It is raised with its wording, so a failure
that cites a number too long to be written is never raised itself. -/
def worded (f : Failure) : Failure := naming f.numbers f

theorem worded_of_writable {f : Failure} (h : f.numbers.all Text.isWritable = true) :
    f.worded = f := if_pos h

theorem worded_of_not_writable {f : Failure} (h : ¬ f.numbers.all Text.isWritable = true) :
    f.worded = value .tooLongToWrite := if_neg h

/-- A failure of another kind than the failure to word it is raised only as itself. -/
theorem worded_eq_iff {f g : Failure} (hg : g ≠ value .tooLongToWrite) :
    f.worded = g ↔ f = g ∧ f.numbers.all Text.isWritable = true := by
  by_cases h : f.numbers.all Text.isWritable = true
  · rw [worded_of_writable h, and_iff_left h]
  · rw [worded_of_not_writable h]
    exact ⟨fun heq => absurd heq.symm hg, fun hboth => absurd hboth.2 h⟩

end Failure

end Cross6502
