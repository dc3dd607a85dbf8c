import Cross6502.Diagnostic.Failure

/-!
# UTF-8

Files hold text in UTF-8.  Encoding is total.  Decoding refuses the first byte that
cannot start a character, a byte that cannot continue one, and a character that the
end of the bytes cuts short, and says where: the offending bytes are those of the
character up to the byte that does not fit.

A file that is read line by line is decoded in blocks, each together with the bytes
that the block before it left over.  Then a fault is found when its block is decoded,
and its positions count from the first byte decoded with it.
-/

namespace Cross6502

namespace Utf8

/-! ## Encoding -/

/-- A byte that continues a character with six bits of its code point. -/
def tailByte (bits : Nat) : UInt8 := UInt8.ofNat (0x80 + bits % 64)

/-- The bytes of a character. -/
def encodeChar (c : Char) : List UInt8 :=
  let n := c.toNat
  if n < 0x80 then [UInt8.ofNat n]
  else if n < 0x800 then [UInt8.ofNat (0xC0 + n / 64), tailByte n]
  else if n < 0x10000 then [UInt8.ofNat (0xE0 + n / 4096), tailByte (n / 64), tailByte n]
  else [UInt8.ofNat (0xF0 + n / 262144), tailByte (n / 4096), tailByte (n / 64), tailByte n]

/-- The bytes of a text. -/
def encode (t : Text) : List UInt8 := t.flatMap encodeChar

/-! ## Decoding -/

/-- Bytes that are no character: the first of them, their positions and why. -/
structure Fault where
  lead : UInt8
  first : Nat
  last : Nat
  reason : DecodingFault
  deriving DecidableEq, Inhabited

def Fault.failure (f : Fault) : Failure := .notText f.lead f.first f.last f.reason

/-- The bytes that may follow a first byte, as a closed range. -/
def secondRange (lead : Nat) : Nat × Nat :=
  if lead = 0xE0 then (0xA0, 0xBF)
  else if lead = 0xED then (0x80, 0x9F)
  else if lead = 0xF0 then (0x90, 0xBF)
  else if lead = 0xF4 then (0x80, 0x8F)
  else (0x80, 0xBF)

def isSecond (lead b : UInt8) : Bool :=
  let (low, high) := secondRange lead.toNat
  low ≤ b.toNat && b.toNat ≤ high

def isTail (b : UInt8) : Bool := 0x80 ≤ b.toNat && b.toNat ≤ 0xBF

/-- The bits a byte contributes to a code point. -/
def tailBits (b : UInt8) : Nat := b.toNat % 64

/-- The text that bytes hold from a position on, up to the first fault. -/
def scan : Nat → List UInt8 → Text × Option Fault
  | _, [] => ([], none)
  | p, a :: rest =>
      let fault (last : Nat) (reason : DecodingFault) : Text × Option Fault :=
        ([], some ⟨a, p, last, reason⟩)
      let n := a.toNat
      if n < 0x80 then
        let (t, f) := scan (p + 1) rest
        (Char.ofNat n :: t, f)
      else if n < 0xC2 || 0xF5 ≤ n then fault p .startByte
      else
        match rest with
        | [] => fault p .unfinished
        | b :: rest =>
            if !isSecond a b then fault p .continuationByte
            else if n < 0xE0 then
              let (t, f) := scan (p + 2) rest
              (Char.ofNat ((n - 0xC0) * 64 + tailBits b) :: t, f)
            else
              match rest with
              | [] => fault (p + 1) .unfinished
              | c :: rest =>
                  if !isTail c then fault (p + 1) .continuationByte
                  else if n < 0xF0 then
                    let (t, f) := scan (p + 3) rest
                    (Char.ofNat ((n - 0xE0) * 4096 + tailBits b * 64 + tailBits c) :: t, f)
                  else
                    match rest with
                    | [] => fault (p + 2) .unfinished
                    | d :: rest =>
                        if !isTail d then fault (p + 2) .continuationByte
                        else
                          let (t, f) := scan (p + 4) rest
                          (Char.ofNat ((n - 0xF0) * 262144 + tailBits b * 4096
                            + tailBits c * 64 + tailBits d) :: t, f)

/-- The text of bytes, all of which must be text. -/
def decode (bytes : List UInt8) : Except Failure Text :=
  match scan 0 bytes with
  | (t, none) => .ok t
  | (_, some f) => .error f.failure

/-! ## Decoding in blocks -/

/-- The number of bytes in a block. -/
def blockSize : Nat := 8192

/-- Bytes in blocks; the last one may be shorter. -/
def blocks : List UInt8 → List (List UInt8)
  | [] => []
  | b :: rest => (b :: rest.take (blockSize - 1)) :: blocks (rest.drop (blockSize - 1))
termination_by bytes => bytes.length
decreasing_by simp only [List.length_drop, List.length_cons]; omega

/-- Two bytes that begin a code point no character has.  At the end of a block they
are not refused yet. -/
def isSurrogateStart : List UInt8 → Bool
  | [a, b] => a == 0xED && isTail b
  | _ => false

/-- Decode a block that others may follow: the text, and the bytes left over at its
end. -/
def decodeBlock (bytes : List UInt8) : Except Fault (Text × List UInt8) :=
  match scan 0 bytes with
  | (t, none) => .ok (t, [])
  | (t, some f) =>
      let held := bytes.drop f.first
      if f.reason = .unfinished || isSurrogateStart held then .ok (t, held) else .error f

/-- Decode blocks behind bytes that are left over: the text of the blocks in front of
the first fault, and the fault. -/
def decodeBlocks (held : List UInt8) : List (List UInt8) → Text × Option Fault
  | [] => ([], (scan 0 held).2)
  | block :: rest =>
      match decodeBlock (held ++ block) with
      | .error f => ([], some f)
      | .ok (t, held) =>
          let (u, f) := decodeBlocks held rest
          (t ++ u, f)

end Utf8

end Cross6502
