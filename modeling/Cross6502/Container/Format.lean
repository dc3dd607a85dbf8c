/-!
# Container formats

A *flat* file is the bytes of one segment and nothing else.  A *first-segment* file
has the same form and always holds the first segment.  A *cartridge* image has a
header and two banks of data.  Only the last can be told from its bytes.
-/

namespace Cross6502

/-- How an object is stored in a file. -/
inductive Format where
  | flat
  | firstSegment
  | cartridge
  deriving DecidableEq, Inhabited

namespace Format

/-- The word for a format on the command line and in messages. -/
def name : Format → String
  | flat => "flat"
  | firstSegment => "aout"
  | cartridge => "ines"

/-- The format a word stands for. -/
def ofName? (s : String) : Option Format :=
  if s = "flat" then some .flat
  else if s = "aout" then some .firstSegment
  else if s = "ines" then some .cartridge
  else none

end Format

/-- The timing standard of a cartridge. -/
inductive Video where
  | ntsc
  | pal
  deriving DecidableEq, Inhabited

namespace Video

def name : Video → String
  | ntsc => "NTSC"
  | pal => "PAL"

end Video

end Cross6502
