import Cross6502.Log

/-!
# Cartridge images

A cartridge image is a magic of four bytes, twelve bytes of header data, the
program in banks of 16384 bytes and the character data in banks of 8192:

    0   number of program banks          3   flags 7
    1   number of character banks        5   bit 0: timing standard
    2   flags 6                          others zero

Writing pads both parts with zeros to whole banks and counts the banks itself; the
rest of the header comes from the properties.  A count has one byte, so more than
255 banks of either kind cannot be written.  Reading gives an object of two
segments, the program at `$8000` and the character data at `$0000`.
-/

namespace Cross6502

namespace Cartridge

/-! ## Header -/

/-- What the header of an image says. -/
structure Properties where
  prgBanks : Int := 0
  chrBanks : Int := 0
  flags6 : Int := 0
  flags7 : Int := 0
  video : Video := .ntsc
  deriving DecidableEq, Inhabited

/-- The bits of a number below 256 added to those of any number. -/
def orByte (byte : Nat) (n : Int) : Int := n / 256 * 256 + ((byte ||| (n % 256).toNat : Nat) : Int)

/-- The mapper: its low four bits are in flags 6, its high four in flags 7. -/
def Properties.mapper (p : Properties) : Int :=
  orByte ((p.flags7 % 256).toNat &&& 0xF0) (p.flags6 / 16)

def videoBit : Video → UInt8
  | .ntsc => 0
  | .pal => 1

/-- The twelve bytes behind the magic. -/
def Properties.headerData (p : Properties) : List UInt8 :=
  [lowByte p.prgBanks, lowByte p.chrBanks, lowByte p.flags6, lowByte p.flags7, 0,
   videoBit p.video, 0, 0, 0, 0, 0, 0]

/-- The first four bytes of every image. -/
def magic : List UInt8 := [0x4E, 0x45, 0x53, 0x1A]

def headerLength : Nat := 16

def prgUnit : Nat := 16384

def chrUnit : Nat := 8192

/-- Bytes that begin like an image. -/
def hasMagic (bytes : List UInt8) : Bool := bytes.take 4 == magic

/-! ## Writing -/

/-- The number of banks that hold `length` bytes. -/
def bankCount (length unit : Nat) : Nat := (length + unit - 1) / unit

/-- Bytes followed by zeros up to a whole number of banks. -/
def padded (bytes : List UInt8) (unit : Nat) : List UInt8 :=
  bytes ++ List.replicate (bankCount bytes.length unit * unit - bytes.length) 0

/-- The bytes of an image. -/
def write (prg : List UInt8) (chr : Option (List UInt8)) (p : Properties) :
    Logged (List UInt8) :=
  let prgBanks := bankCount prg.length prgUnit
  let chrBanks := bankCount (chr.getD []).length chrUnit
  if 255 < prgBanks || 255 < chrBanks then Logged.fail (.format .tooLarge)
  else do
    let header := { p with prgBanks := prgBanks, chrBanks := chrBanks }.headerData
    Logged.say (.wroteCartridge prgBanks chrBanks p.video)
    return magic ++ header ++ padded prg prgUnit ++ padded (chr.getD []) chrUnit

/-! ## Reading -/

/-- The properties of a header, given the bytes of an image. -/
def propertiesOf : List UInt8 → Properties
  | _ :: _ :: _ :: _ :: prg :: chr :: f6 :: f7 :: _ :: v :: _ =>
      { prgBanks := prg.toNat, chrBanks := chr.toNat, flags6 := f6.toNat, flags7 := f7.toNat
        video := if v.toNat % 2 = 1 then .pal else .ntsc }
  | _ => {}

/-- The object and the properties of an image. -/
def read (bytes : List UInt8) : Logged (Object × Properties) :=
  let header := bytes.take headerLength
  if !hasMagic header then Logged.fail (.format .badMagic)
  else if header.length < headerLength then Logged.fail (.format .truncatedHeader)
  else
    let p := propertiesOf header
    let prgLength := p.prgBanks.toNat * prgUnit
    let chrLength := p.chrBanks.toNat * chrUnit
    let body := bytes.drop headerLength
    let prg := body.take prgLength
    let chr := (body.drop prgLength).take chrLength
    if prg.length < prgLength || chr.length < chrLength then
      Logged.fail (.format (.truncatedBanks prgLength chrLength))
    else do
      Logged.say (.readCartridge p.prgBanks.toNat p.chrBanks.toNat)
      return ({ first := { start := 0x8000, data := prg }
                later := [{ start := 0, data := chr }] }, p)

end Cartridge

end Cross6502
