import Cross6502.Container.Format
import Cross6502.Diagnostic.Failure
import Cross6502.Object.Basic

/-!
# The log

Operations tell what they do in events.  An event is a value, not a text: a reader
of the log can ask *which* reference was discarded or *which* segment was misplaced
and need not take a sentence apart.  Warnings are always shown, the rest only on
request.

`Logged` is the type of an operation that logs and may fail.  The events up to a
failure are kept.
-/

namespace Cross6502

/-- Something worth telling. -/
inductive Event where
  /-- A warning about a source, placed and worded. -/
  | sourceWarning (text : String)
  /-- A flat file can hold one segment only. -/
  | segmentsLost
  /-- A reference into a segment that the container dropped. -/
  | discarded (reference : Reference) (format : Format)
  /-- A segment that is linked to another address than it was assembled for. -/
  | misplaced (input : String) (segment : Nat) (start actual : Int)
  /-- Two variables of different inputs in one cell. -/
  | sharedCell (input : String) (symbol other : Symbol) (otherInput : String)
  | added (symbol : Symbol)
  | assembling (file : String)
  | assembled (bytes segments : Nat)
  | definitionsDone (symbols : Nat)
  | emissionDone (bytes : Nat)
  | deferred (line : Nat) (name : Text)
  | resolved (line : Nat) (source result : Text)
  | wroteFlat (bytes : Nat) (start : Int)
  | readFlat (bytes : Nat)
  | wroteFirstSegment (bytes : Nat)
  | wroteCartridge (prg chr : Nat) (video : Video)
  | readCartridge (prg chr : Nat)
  | detected (format : Format)
  | restored (segment start : Int)
  | loadedSidecar (symbols references : Nat) (path : String)
  | attachedSidecar (object path : String)
  | wroteObject (bytes : Nat) (path : String)
  | wroteListing (path : String)
  | wroteSidecar (path : String)
  | placed (input : String) (bytes : Nat)
  | patched (name : Text) (address offset : Int)
  | linked (objects bytes symbols : Nat)
  | synthesized (name : Text) (address : Int)
  deriving DecidableEq, Inhabited

namespace Event

def isWarning : Event → Bool
  | sourceWarning _ | segmentsLost | discarded _ _ | misplaced .. | sharedCell .. => true
  | _ => false

/-- The sentence of an event. -/
def text : Event → String
  | sourceWarning text => text
  | segmentsLost => "Writing flat file with multiple segments will result in loss of object data"
  | discarded r format =>
      "Reference to '" ++ String.ofList r.name ++ "' (line " ++ Text.decimalString r.line
        ++ ") lies in segment " ++ Text.decimalString r.segment ++ ", which the " ++ format.name
        ++ " container does not hold"
  | misplaced input segment start actual =>
      input ++ ": blob " ++ Text.decimalString segment ++ " was assembled for "
        ++ Text.addressString start ++ " but is placed at " ++ Text.addressString actual
  | sharedCell input symbol other otherInput =>
      input ++ ": variable '" ++ String.ofList symbol.name ++ "' shares storage "
        ++ Text.addressString symbol.address ++ " with '" ++ String.ofList other.name
        ++ "' from " ++ otherInput
  | added symbol => "Added " ++ String.ofList symbol.text
  | assembling file => "Assembling " ++ file ++ "..."
  | assembled bytes segments =>
      "Generated " ++ Text.decimalString bytes ++ " bytes in " ++ Text.decimalString segments
        ++ " blob(s)"
  | definitionsDone symbols =>
      "Pass 1 complete: " ++ Text.decimalString symbols ++ " symbols"
  | emissionDone bytes => "Pass 2 complete: " ++ Text.decimalString bytes ++ " bytes"
  | deferred line name =>
      "Line " ++ Text.decimalString line ++ ": '" ++ String.ofList name ++ "' left for the linker"
  | resolved line source result =>
      "Line " ++ Text.decimalString line ++ ": " ++ String.ofList (Text.quoted source) ++ " -> "
        ++ String.ofList (Text.quoted result)
  | wroteFlat bytes start =>
      "Wrote " ++ Text.decimalString bytes ++ " bytes (flat, origin "
        ++ Text.addressString start ++ ")"
  | readFlat bytes => "Read " ++ Text.decimalString bytes ++ " bytes (flat)"
  | wroteFirstSegment bytes => "Wrote " ++ Text.decimalString bytes ++ " bytes (a.out)"
  | wroteCartridge prg chr video =>
      "Wrote iNES image: " ++ Text.decimalString prg ++ " PRG bank(s), "
        ++ Text.decimalString chr ++ " CHR bank(s), " ++ video.name
  | readCartridge prg chr =>
      "Read iNES image: " ++ Text.decimalString prg ++ " PRG bank(s), "
        ++ Text.decimalString chr ++ " CHR bank(s)"
  | detected format => "Detected " ++ format.name ++ " format"
  | restored segment start =>
      "Segment " ++ Text.decimalString segment ++ " restored at " ++ Text.addressString start
  | loadedSidecar symbols references path =>
      "Loaded " ++ Text.decimalString symbols ++ " symbols and "
        ++ Text.decimalString references ++ " references from " ++ path
  | attachedSidecar object path => "Loaded symbols for " ++ object ++ " from " ++ path
  | wroteObject bytes path => "Wrote " ++ Text.decimalString bytes ++ " bytes to " ++ path
  | wroteListing path => "Wrote listing to " ++ path
  | wroteSidecar path => "Wrote symbols to " ++ path
  | placed input bytes => "Placed " ++ input ++ ": " ++ Text.decimalString bytes ++ " bytes"
  | patched name address offset =>
      "Patched '" ++ String.ofList name ++ "' = " ++ Text.addressString address ++ " at offset "
        ++ Text.decimalString offset
  | linked objects bytes symbols =>
      "Linked " ++ Text.decimalString objects ++ " object(s): " ++ Text.decimalString bytes
        ++ " bytes, " ++ Text.decimalString symbols ++ " symbols"
  | synthesized name address =>
      "Synthesized " ++ String.ofList name ++ " at " ++ Text.addressString address

/-- The numbers in the sentence of an event that are as long as symbols and references make
them. -/
def numbers : Event → List Int
  | discarded r _ => [r.line, r.segment]
  | added symbol => [symbol.line]
  | _ => []

/-- Whether the sentence of an event can be written. -/
def canBeTold (e : Event) : Bool := e.numbers.all Text.isWritable

/-- An event with its level in front. -/
def line (e : Event) : String := (if e.isWarning then "WARNING: " else "DEBUG: ") ++ e.text

end Event

/-! ## Operations that log -/

/-- The events of an operation and how it ended. -/
structure Logged (α : Type) where
  log : List Event
  outcome : Except Failure α

namespace Logged

variable {α β : Type}

/-- Succeed without a word. -/
def ok (a : α) : Logged α := ⟨[], .ok a⟩

/-- Fail without a word. -/
def fail (e : Failure) : Logged α := ⟨[], .error e⟩

/-- Log one event. -/
def say (e : Event) : Logged Unit := ⟨[e], .ok ()⟩

/-- Log events. -/
def tell (es : List Event) : Logged Unit := ⟨es, .ok ()⟩

/-- Log events in order, up to the first that cannot be told. -/
def report : List Event → Logged Unit
  | [] => ok ()
  | e :: rest =>
      if e.canBeTold then ⟨e :: (report rest).log, (report rest).outcome⟩
      else fail (.value .tooLongToWrite)

/-- An operation that does not log. -/
def ofExcept (x : Except Failure α) : Logged α := ⟨[], x⟩

/-- An operation whose failure is taken for another one. -/
def mapFailure (f : Failure → Failure) (x : Logged α) : Logged α := ⟨x.log, x.outcome.mapError f⟩

/-- One operation after another; a failure ends both. -/
def andThen (x : Logged α) (f : α → Logged β) : Logged β :=
  match x.outcome with
  | .ok a => ⟨x.log ++ (f a).log, (f a).outcome⟩
  | .error e => ⟨x.log, .error e⟩

instance : Monad Logged where
  pure := ok
  bind := andThen

@[simp] theorem pure_eq (a : α) : (pure a : Logged α) = ⟨[], .ok a⟩ := rfl

@[simp] theorem bind_ok (es : List Event) (a : α) (f : α → Logged β) :
    ((⟨es, .ok a⟩ : Logged α) >>= f) = ⟨es ++ (f a).log, (f a).outcome⟩ := rfl

@[simp] theorem bind_error (es : List Event) (e : Failure) (f : α → Logged β) :
    ((⟨es, .error e⟩ : Logged α) >>= f) = ⟨es, .error e⟩ := rfl

end Logged

end Cross6502
