import Cross6502.Container.Stored
import Cross6502.Proofs.Outcome
import Mathlib.Algebra.Order.Floor.Div

/-!
# Cartridge images, written and read

An image says how long it is in units of banks, so what is written is not quite what was
given: both parts grow to whole banks, and the flags are cut to a byte.  What is read, in
turn, is not quite the file: header bytes that mean nothing are not kept, and neither is
what follows the declared parts.  Up to these losses writing and reading are inverse to
each other, in both directions.

Both directions rest on one description of the bytes that are accepted
(`read_eq_ok_iff`): magic, twelve bytes of header data, as many bytes in either part as
the header declares, and any rest.  An image that was written has this form with nothing
left over (`isImage_write`), and writing the parts of an image again puts out the same
bytes with another header (`write_of_isImage`).
-/

namespace Cross6502

namespace Cartridge

/-! ## Banks -/

theorem bankCount_eq_ceilDiv (length unit : Nat) : bankCount length unit = length ⌈/⌉ unit :=
  (Nat.ceilDiv_eq_add_pred_div length unit).symm

/-- Bytes that fill a number of banks need that many. -/
theorem bankCount_mul (n : Nat) {unit : Nat} (hunit : 0 < unit) :
    bankCount (n * unit) unit = n := by
  rw [bankCount, Nat.add_sub_assoc hunit, Nat.mul_comm, Nat.mul_add_div hunit,
    Nat.div_eq_of_lt (Nat.sub_lt hunit Nat.one_pos), Nat.add_zero]

/-- The banks hold all bytes. -/
theorem le_bankCount_mul (length : Nat) {unit : Nat} (hunit : 0 < unit) :
    length ≤ bankCount length unit * unit := by
  rw [bankCount_eq_ceilDiv, Nat.mul_comm]
  exact (ceilDiv_le_iff_le_mul hunit).mp (Nat.le_refl _)

theorem length_padded (bytes : List UInt8) {unit : Nat} (hunit : 0 < unit) :
    (padded bytes unit).length = bankCount bytes.length unit * unit := by
  have hle := le_bankCount_mul bytes.length hunit
  rw [padded, List.length_append, List.length_replicate]
  omega

/-- Whole banks are not padded. -/
theorem padded_of_length_eq {bytes : List UInt8} {n unit : Nat} (hunit : 0 < unit)
    (h : bytes.length = n * unit) : padded bytes unit = bytes := by
  rw [padded, h, bankCount_mul n hunit, Nat.sub_self, List.replicate_zero, List.append_nil]

/-- Bytes extended with zeros to the least number of whole banks that hold them. -/
def extended (unit : Nat) (bytes : List UInt8) : List UInt8 :=
  bytes.rightpad (bytes.length ⌈/⌉ unit * unit) 0

theorem padded_eq_extended (bytes : List UInt8) (unit : Nat) :
    padded bytes unit = extended unit bytes := by
  rw [padded, extended, List.rightpad, bankCount_eq_ceilDiv]

/-! ## The bytes that are accepted -/

/-- The object of an image, from its two parts. -/
def objectOf (prg chr : List UInt8) : Object where
  first := { start := 0x8000, data := prg }
  later := [{ start := 0, data := chr }]

/-- Bytes that are an image with the given header data and parts, in front of a rest. -/
structure IsImage (bytes header prg chr rest : List UInt8) (p : Properties) : Prop where
  layout : bytes = magic ++ header ++ (prg ++ (chr ++ rest))
  properties : p = propertiesOf (magic ++ header)
  length_header : header.length = 12
  length_prg : prg.length = p.prgBanks.toNat * prgUnit
  length_chr : chr.length = p.chrBanks.toNat * chrUnit

section Read

variable {bytes header prg chr rest : List UInt8} {p : Properties} {o : Object}

theorem IsImage.length_front (h : IsImage bytes header prg chr rest p) :
    (magic ++ header).length = headerLength := by
  rw [List.length_append, h.length_header]
  rfl

theorem read_of_isImage (h : IsImage bytes header prg chr rest p) :
    (read bytes).outcome = .ok (objectOf prg chr, p) := by
  have hfront := h.length_front
  have htake : bytes.take headerLength = magic ++ header := by
    rw [h.layout, List.take_left' hfront]
  have hdrop : bytes.drop headerLength = prg ++ (chr ++ rest) := by
    rw [h.layout, List.drop_left' hfront]
  have hmagic : hasMagic (magic ++ header) = true := rfl
  have hprg : (prg ++ (chr ++ rest)).take (p.prgBanks.toNat * prgUnit) = prg :=
    List.take_left' h.length_prg
  have hchr : ((prg ++ (chr ++ rest)).drop (p.prgBanks.toNat * prgUnit)).take
      (p.chrBanks.toNat * chrUnit) = chr := by
    rw [List.drop_left' h.length_prg, List.take_left' h.length_chr]
  rw [read]
  simp only [htake, hdrop, hmagic, hfront, ← h.properties, hprg, hchr, h.length_prg,
    h.length_chr, Nat.lt_irrefl, Bool.not_true, decide_false, Bool.or_false, Bool.false_eq_true,
    if_false]
  rfl

/-- Bytes are read as an image exactly if they begin with the magic, have a whole header
and hold as much of either part as it declares. -/
theorem read_eq_ok_iff : (read bytes).outcome = .ok (o, p)
    ↔ ∃ header prg chr rest, IsImage bytes header prg chr rest p ∧ o = objectOf prg chr := by
  constructor
  · intro h
    rw [read] at h
    simp only at h
    split at h
    · cases h
    rename_i hmagic
    split at h
    · cases h
    rename_i hlength
    split at h
    · cases h
    rename_i hbanks
    cases h
    have hmagic : (bytes.take headerLength).take 4 = magic := by
      simpa [hasMagic] using hmagic
    have hlength : (bytes.take headerLength).length = headerLength := by
      have := List.length_take_le headerLength bytes
      omega
    have hfront : magic ++ (bytes.take headerLength).drop 4 = bytes.take headerLength := by
      rw [← hmagic, List.take_append_drop]
    simp only [Bool.or_eq_true, decide_eq_true_eq, not_or, Nat.not_lt] at hbanks
    refine ⟨(bytes.take headerLength).drop 4, _, _,
      ((bytes.drop headerLength).drop
        ((propertiesOf (bytes.take headerLength)).prgBanks.toNat * prgUnit)).drop
        ((propertiesOf (bytes.take headerLength)).chrBanks.toNat * chrUnit),
      ⟨?_, ?_, ?_, ?_, ?_⟩, rfl⟩
    · rw [hfront, List.take_append_drop, List.take_append_drop, List.take_append_drop]
    · rw [hfront]
    · rw [List.length_drop, hlength]
      rfl
    · exact Nat.le_antisymm (List.length_take_le _ _) hbanks.1
    · exact Nat.le_antisymm (List.length_take_le _ _) hbanks.2
  · rintro ⟨header, prg, chr, rest, himage, rfl⟩
    exact read_of_isImage himage

end Read

/-! ## Headers -/

/-- A header gives back the counts and flags modulo 256, and the timing standard. -/
theorem propertiesOf_headerData (p : Properties) :
    propertiesOf (magic ++ p.headerData)
      = { prgBanks := p.prgBanks % 256, chrBanks := p.chrBanks % 256, flags6 := p.flags6 % 256
          flags7 := p.flags7 % 256, video := p.video } := by
  have hvideo : (if (videoBit p.video).toNat % 2 = 1 then Video.pal else .ntsc) = p.video := by
    cases p.video <;> rfl
  simp only [Properties.headerData, magic, List.cons_append, List.nil_append, propertiesOf,
    toNat_lowByte, hvideo]

/-- The byte at an index of an image that was read and written again: in the header, only
counts, flags and the bit of the timing standard are kept. -/
def rewritten (i : Nat) (b : UInt8) : UInt8 :=
  if i = 8 ∨ 10 ≤ i ∧ i ≤ 15 then 0 else if i = 9 then b &&& 1 else b

theorem videoBit_of_byte (v : UInt8) :
    videoBit (if v.toNat % 2 = 1 then .pal else .ntsc) = v &&& 1 := by
  have hand : (v &&& 1).toNat = v.toNat % 2 := by
    rw [UInt8.toNat_and]
    exact Nat.and_one_is_mod v.toNat
  apply UInt8.toNat_inj.mp
  rw [hand]
  split
  · rename_i hodd
    rw [hodd]
    rfl
  · rename_i heven
    change 0 = v.toNat % 2
    omega

/-- The header of the properties that were read from a header. -/
theorem headerData_propertiesOf {header : List UInt8} (h : header.length = 12) :
    magic ++ (propertiesOf (magic ++ header)).headerData = (magic ++ header).mapIdx rewritten := by
  match header, h with
  | [prg, chr, f6, f7, b8, v, b10, b11, b12, b13, b14, b15], _ =>
    simp only [magic, List.cons_append, List.nil_append, propertiesOf, Properties.headerData,
      lowByte_toNat, videoBit_of_byte]
    simp [List.mapIdx_cons, rewritten]

/-- What was read from a header comes back from the header it is written to. -/
theorem propertiesOf_idem (bytes : List UInt8) :
    propertiesOf (magic ++ (propertiesOf bytes).headerData) = propertiesOf bytes := by
  have hbyte : ∀ b : UInt8, (b.toNat : Int) % 256 = b.toNat := fun b => by
    have := b.toNat_lt
    omega
  rw [propertiesOf_headerData]
  fun_cases propertiesOf bytes with
  | case1 => simp only [hbyte]
  | case2 => rfl

/-- The counts in a header are bytes. -/
theorem bankCounts_of_propertiesOf (bytes : List UInt8) :
    ∃ prg chr : Nat, (propertiesOf bytes).prgBanks = prg ∧ (propertiesOf bytes).chrBanks = chr
      ∧ prg ≤ 255 ∧ chr ≤ 255 := by
  fun_cases propertiesOf bytes with
  | case1 _ _ _ _ prg chr =>
    exact ⟨prg.toNat, chr.toNat, rfl, rfl, Nat.le_of_lt_succ prg.toNat_lt,
      Nat.le_of_lt_succ chr.toNat_lt⟩
  | case2 => exact ⟨0, 0, rfl, rfl, Nat.zero_le _, Nat.zero_le _⟩

/-! ## Writing -/

/-- The properties in the header of an image with the given parts. -/
def writtenProperties (prg chr : List UInt8) (p : Properties) : Properties :=
  { p with prgBanks := bankCount prg.length prgUnit, chrBanks := bankCount chr.length chrUnit }

section Write

variable {prg chr : List UInt8} {p : Properties}

theorem write_of_le {chr : Option (List UInt8)} (hprg : bankCount prg.length prgUnit ≤ 255)
    (hchr : bankCount (chr.getD []).length chrUnit ≤ 255) :
    (write prg chr p).outcome = .ok (magic ++ (writtenProperties prg (chr.getD []) p).headerData
      ++ (padded prg prgUnit ++ padded (chr.getD []) chrUnit)) := by
  rw [write]
  simp only [Nat.not_lt.mpr hprg, Nat.not_lt.mpr hchr, decide_false, Bool.or_false,
    Bool.false_eq_true, if_false, Logged.outcome_bind, Logged.outcome_say, ← List.append_assoc]
  rfl

theorem write_eq_fail_iff {chr : Option (List UInt8)} :
    write prg chr p = Logged.fail (.format .tooLarge)
      ↔ 255 < bankCount prg.length prgUnit ∨ 255 < bankCount (chr.getD []).length chrUnit := by
  constructor
  · intro h
    by_contra hfits
    rw [not_or, Nat.not_lt, Nat.not_lt] at hfits
    have hwrite := write_of_le (p := p) hfits.1 hfits.2
    rw [h] at hwrite
    cases hwrite
  · intro h
    rw [write]
    simp only [Bool.or_eq_true, decide_eq_true_eq, if_pos h]

/-- What is written is an image with nothing behind it. -/
theorem isImage_write (hprg : bankCount prg.length prgUnit ≤ 255)
    (hchr : bankCount chr.length chrUnit ≤ 255) :
    IsImage (magic ++ (writtenProperties prg chr p).headerData
        ++ (padded prg prgUnit ++ padded chr chrUnit))
      (writtenProperties prg chr p).headerData (padded prg prgUnit) (padded chr chrUnit) []
      { prgBanks := bankCount prg.length prgUnit, chrBanks := bankCount chr.length chrUnit
        flags6 := p.flags6 % 256, flags7 := p.flags7 % 256, video := p.video } where
  layout := by rw [List.append_nil]
  properties := by
    rw [propertiesOf_headerData, writtenProperties]
    congr 1 <;> simp only <;> omega
  length_header := rfl
  length_prg := length_padded prg (by decide)
  length_chr := length_padded chr (by decide)

/-- The parts of an image are written as they are, with a header of the properties that
were read. -/
theorem write_of_isImage {bytes header rest : List UInt8}
    (h : IsImage bytes header prg chr rest p) :
    (write prg (some chr) p).outcome = .ok (magic ++ p.headerData ++ (prg ++ chr)) := by
  obtain ⟨n, m, hn, hm, hn255, hm255⟩ := bankCounts_of_propertiesOf (magic ++ header)
  have hprg := h.length_prg
  have hchr := h.length_chr
  rw [← h.properties] at hn hm
  rw [hn, Int.toNat_natCast] at hprg
  rw [hm, Int.toNat_natCast] at hchr
  have hcount : bankCount prg.length prgUnit = n := by rw [hprg, bankCount_mul n (by decide)]
  have hcount' : bankCount chr.length chrUnit = m := by rw [hchr, bankCount_mul m (by decide)]
  have hwritten : writtenProperties prg chr p = p := by
    rw [writtenProperties, hcount, hcount', ← hn, ← hm]
  rw [write_of_le (hcount ▸ hn255) (by rw [Option.getD_some, hcount']; exact hm255),
    Option.getD_some, hwritten, padded_of_length_eq (by decide) hprg,
    padded_of_length_eq (by decide) hchr]

end Write

/-! ## Both directions -/

/-- The parts of an image with a header of their own are an image again. -/
theorem IsImage.again {bytes header prg chr rest : List UInt8} {p : Properties}
    (h : IsImage bytes header prg chr rest p) :
    IsImage (magic ++ p.headerData ++ (prg ++ chr)) p.headerData prg chr [] p where
  layout := by rw [List.append_nil]
  properties := by rw [h.properties, propertiesOf_idem]
  length_header := rfl
  length_prg := h.length_prg
  length_chr := h.length_chr

theorem rewritten_of_le {i : Nat} (h : headerLength ≤ i) (b : UInt8) : rewritten i b = b := by
  have hi : 16 ≤ i := h
  rw [rewritten, if_neg (by omega), if_neg (by omega)]

/-- What is written again of an image is the image itself, up to the bytes of the header
that mean nothing and the rest behind the parts. -/
theorem IsImage.rewritten_eq {bytes header prg chr rest : List UInt8} {p : Properties}
    (h : IsImage bytes header prg chr rest p) :
    (bytes.take (headerLength + p.prgBanks.toNat * prgUnit + p.chrBanks.toNat * chrUnit)).mapIdx
        rewritten
      = magic ++ p.headerData ++ (prg ++ chr) := by
  have htake : bytes.take (headerLength + p.prgBanks.toNat * prgUnit + p.chrBanks.toNat * chrUnit)
      = magic ++ header ++ (prg ++ chr) := by
    rw [h.layout, ← List.append_assoc prg, ← List.append_assoc (magic ++ header)]
    apply List.take_left'
    rw [List.length_append, h.length_front, List.length_append, h.length_prg, h.length_chr,
      Nat.add_assoc]
  have hparts : (prg ++ chr).mapIdx (fun i => rewritten (i + (magic ++ header).length))
      = prg ++ chr := by
    refine List.ext_getElem? fun i => ?_
    rw [List.getElem?_mapIdx, h.length_front]
    cases (prg ++ chr)[i]? with
    | none => rfl
    | some b => exact congrArg some (rewritten_of_le (Nat.le_add_left _ _) b)
  rw [htake, List.mapIdx_append, hparts, ← headerData_propertiesOf h.length_header, h.properties]

/-- Writing and reading an image are inverse to each other up to padding.

Parts of any length are refused, with nothing written, exactly if one of them needs more
than 255 banks.  Otherwise what is written is recognised as an image, and reading it gives
both parts extended with zeros to whole banks, their numbers of banks, the flags modulo
256 and the timing standard.

Conversely, what was read from any bytes can be written, and reads the same again; the
bytes written are those that were read, except for the header bytes 8 and 10 to 15, which
are zero, byte 9, of which bit 0 is kept, and the bytes behind the declared parts, which
are left out. -/
theorem write_read_inverse :
    (∀ (prg : List UInt8) (chr : Option (List UInt8)) (p : Properties),
      (write prg chr p = Logged.fail (.format .tooLarge)
        ↔ 255 < prg.length ⌈/⌉ (16384 : Nat) ∨ 255 < (chr.getD []).length ⌈/⌉ (8192 : Nat))
      ∧ (prg.length ⌈/⌉ (16384 : Nat) ≤ 255 → (chr.getD []).length ⌈/⌉ (8192 : Nat) ≤ 255 →
        ∃ image, (write prg chr p).outcome = .ok image ∧ Stored.detect image = .cartridge
          ∧ (read image).outcome = .ok
            (objectOf (extended 16384 prg) (extended 8192 (chr.getD [])),
              { prgBanks := (prg.length ⌈/⌉ (16384 : Nat) : Nat)
                chrBanks := ((chr.getD []).length ⌈/⌉ (8192 : Nat) : Nat)
                flags6 := p.flags6 % 256, flags7 := p.flags7 % 256, video := p.video })))
    ∧ ∀ (bytes : List UInt8) (o : Object) (p : Properties), (read bytes).outcome = .ok (o, p) →
        ∃ prg chr image, o = objectOf prg chr ∧ (write prg (some chr) p).outcome = .ok image
          ∧ (read image).outcome = .ok (o, p)
          ∧ image = (bytes.take (16 + p.prgBanks.toNat * 16384 + p.chrBanks.toNat * 8192)).mapIdx
              rewritten := by
  refine ⟨fun prg chr p => ⟨?_, fun hprg hchr => ?_⟩, fun bytes o p h => ?_⟩
  · rw [write_eq_fail_iff, bankCount_eq_ceilDiv, bankCount_eq_ceilDiv]
    rfl
  · rw [← bankCount_eq_ceilDiv] at hprg hchr ⊢
    rw [← bankCount_eq_ceilDiv, ← padded_eq_extended, ← padded_eq_extended]
    exact ⟨_, write_of_le hprg hchr, rfl, read_of_isImage (isImage_write hprg hchr)⟩
  · obtain ⟨header, prg, chr, rest, himage, rfl⟩ := read_eq_ok_iff.mp h
    exact ⟨prg, chr, _, rfl, write_of_isImage himage, read_of_isImage himage.again,
      himage.rewritten_eq.symm⟩

/-- An image with one bank of program, bits in the header that mean nothing, and two bytes
too many. -/
def overlongImage : List UInt8 :=
  magic ++ [1, 0, 0x13, 0x40, 7, 0xFF, 1, 2, 3, 4, 5, 6]
    ++ (List.replicate 16384 0xEA ++ ([] ++ [1, 2]))

theorem write_read_inverse_bank :
    (∃ image, (write [0xEA] none { flags6 := 0x113, video := .pal }).outcome = .ok image
      ∧ (read image).outcome = .ok
        (objectOf (extended 16384 [0xEA]) [], { prgBanks := 1, flags6 := 0x13, video := .pal }))
    ∧ (read overlongImage).outcome = .ok (objectOf (List.replicate 16384 0xEA) [],
        { prgBanks := 1, flags6 := 0x13, flags7 := 0x40, video := .pal })
    ∧ ∃ prg chr, (write prg (some chr)
        { prgBanks := 1, flags6 := 0x13, flags7 := 0x40, video := .pal }).outcome
          = .ok ((overlongImage.take 16400).mapIdx rewritten) := by
  have hread : (read overlongImage).outcome = .ok (objectOf (List.replicate 16384 0xEA) [],
      { prgBanks := 1, flags6 := 0x13, flags7 := 0x40, video := .pal }) :=
    read_of_isImage ⟨rfl, rfl, rfl, List.length_replicate, rfl⟩
  obtain ⟨image, hwrite, -, hback⟩ :=
    (write_read_inverse.1 [0xEA] none { flags6 := 0x113, video := .pal }).2 (by decide) (by decide)
  obtain ⟨prg, chr, image', -, hwrite', -, himage⟩ := write_read_inverse.2 _ _ _ hread
  exact ⟨⟨image, hwrite, hback⟩, hread, prg, chr, himage ▸ hwrite'⟩

end Cartridge

end Cross6502
