import Cross6502.Numeral
import Cross6502.Sidecar.Basic
import Cross6502.Symbol.Addition

/-!
# Reading sidecars

A sidecar is read line by line.  Blanks around a line do not count; empty lines and
lines that begin with `#` are passed over; a section header opens its section.  Any
other line is an entry and must have the fields of its section, each in its form.
A line that is none of these makes the file malformed, and the message cites it.

A symbol that was listed before is refused as a second definition.
-/

namespace Cross6502

namespace Sidecar

/-- The section a line stands in. -/
inductive Section where
  | segments
  | symbols
  | references
  deriving DecidableEq, Inhabited

/-- The section a line opens. -/
def Section.ofLine? (line : Text) : Option Section :=
  if line = segmentsHeader then some .segments
  else if line = symbolsHeader then some .symbols
  else if line = referencesHeader then some .references
  else none

/-- An entry of a sidecar. -/
inductive Entry where
  | segment (entry : SegmentEntry)
  | symbol (symbol : Symbol)
  | reference (reference : Reference)
  deriving DecidableEq, Inhabited

/-- A number in decimal, if the text is one. -/
def decimal? (t : Text) : Option Int := (Numeral.read 10 t).toOption

/-- An address, with or without dollar signs in front. -/
def address? (t : Text) : Option Int := (Numeral.read 16 (t.dropWhile (· = '$'))).toOption

/-- The entry that fields describe in a section. -/
def Entry.ofFields? : Option Section → List Text → Option Entry
  | some .segments, [index, start, length] => do
      return .segment ⟨← decimal? index, ← address? start, ← decimal? length⟩
  | some .symbols, [name, address, kind, line] => do
      return .symbol { name := name, kind := ← SymbolKind.ofName? kind
                       address := ← address? address, line := ← decimal? line }
  | some .references, [name, holder, offset, mode, line] => do
      return .reference { name := name, segment := ← decimal? holder, offset := ← decimal? offset
                          mode := ← Mode.ofName? mode, line := ← decimal? line }
  | _, _ => none

/-- Put an entry behind those read so far. -/
def insert (s : Sidecar) : Entry → Logged Sidecar
  | .segment e => Logged.ok { s with segments := s.segments ++ [e] }
  | .reference r => Logged.ok { s with references := s.references ++ [r] }
  | .symbol symbol => do
      let table ← (s.symbols.add symbol).logged
      return { s with symbols := table }

/-- The failure of an entry that cannot be put in.  A value that is refused makes the entry
malformed. -/
def entryFailure (file : String) (number : Nat) (line : Text) : Failure → Failure
  | .value _ => .format (.malformedEntry file number line)
  | e => e

/-- Read lines, the first of which has the given number. -/
def readLines (file : String) : Nat → Option Section → Sidecar → List Text → Logged Sidecar
  | _, _, s, [] => Logged.ok s
  | number, current, s, raw :: rest =>
      let line := Text.trim raw
      if line.isEmpty || line.head? == some '#' then readLines file (number + 1) current s rest
      else
        match Section.ofLine? line with
        | some opened => readLines file (number + 1) (some opened) s rest
        | none =>
            match Entry.ofFields? current (Text.words line) with
            | none => Logged.fail (.format (.malformedEntry file number line))
            | some entry => do
                let s ← (insert s entry).mapFailure (entryFailure file number line)
                readLines file (number + 1) current s rest

/-- Read the text of a sidecar.  Lines end at line feeds. -/
def read (file : String) (t : Text) : Logged Sidecar :=
  readLines file 1 none { symbols := { file := file } } (t.splitOnP (· = '\n'))

end Sidecar

end Cross6502
