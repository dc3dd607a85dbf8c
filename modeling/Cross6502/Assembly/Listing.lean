import Cross6502.Symbol.Table
import Cross6502.Text.Number

/-!
# Listings

While code is emitted, an account is kept of every label that is reached, every
stretch of bytes that is put out, and every directive that puts out none.  An entry
for bytes names the segment they went to, so the account determines the contents of
every segment.

Two texts are made of it: the *listing*, with a header and the symbol table, and
the *trace*, which leaves directives out.
-/

namespace Cross6502

/-- One entry of the account of an assembly. -/
inductive ListingEntry where
  /-- A label reached at an address. -/
  | label (segment : Int) (address : Int) (line : Nat) (name : Text)
  /-- Bytes put out at an address. -/
  | code (segment : Int) (address : Int) (bytes : List UInt8) (line : Nat) (source : Text)
  /-- A directive without bytes. -/
  | directive (line : Nat) (source : Text)
  deriving DecidableEq, Inhabited

namespace ListingEntry

/-- Bytes in hexadecimal with a blank between neighbours. -/
def spacedHex (byteText : Nat → Text) (bytes : List UInt8) : Text :=
  Text.joinWith [' '] (bytes.map fun b => byteText b.toNat)

/-- The line of an entry in the listing. -/
def listingLine : ListingEntry → Text
  | label _ address line name =>
      '$' :: Text.upperHex 4 address ++ List.replicate 16 ' ' ++ Text.decimalColumn 4 line
        ++ "  ".toList ++ name ++ [':']
  | code _ address bytes line source =>
      '$' :: Text.upperHex 4 address ++ "  ".toList
        ++ Text.padRight 12 (spacedHex (fun n => Text.upperHex 2 n) bytes) ++ "  ".toList
        ++ Text.decimalColumn 4 line ++ "  ".toList ++ source
  | directive line source =>
      List.replicate 21 ' ' ++ Text.decimalColumn 4 line ++ "  ".toList ++ source

/-- The line of an entry in the trace, if it has one. -/
def traceLine? : ListingEntry → Option Text
  | label _ address line name =>
      some (Text.markedHex 6 address ++ ":          - ".toList ++ Text.decimalColumn 4 line
        ++ ": ".toList ++ name ++ [':'])
  | code _ address bytes line source =>
      some (Text.markedHex 6 address ++ ": ".toList
        ++ Text.padRight 8 (spacedHex (fun n => Text.lowerHex 2 n) bytes) ++ " - ".toList
        ++ Text.decimalColumn 4 line ++ ":  \t".toList ++ source)
  | directive _ _ => none

end ListingEntry

namespace Listing

/-- A symbol as the listing shows it. -/
def symbolLine (s : Symbol) : Text :=
  Text.padRight 20 s.name ++ " = $".toList ++ Text.upperHex 4 s.address ++ "  ".toList
    ++ s.kind.name

/-- The listing of an assembly. -/
def text (entries : List ListingEntry) (symbols : SymbolTable) : Text :=
  Text.joinWith ['\n']
    (["6502 Assembler Listing".toList, List.replicate 60 '=', [],
        "Addr   Code          Line  Source".toList, List.replicate 60 '-']
      ++ entries.map ListingEntry.listingLine
      ++ [[], "Symbol Table".toList, List.replicate 30 '-']
      ++ symbols.byAddress.map symbolLine)

/-- The trace of an assembly. -/
def trace (entries : List ListingEntry) : Text :=
  Text.joinWith ['\n'] (entries.filterMap ListingEntry.traceLine?)

end Listing

end Cross6502
