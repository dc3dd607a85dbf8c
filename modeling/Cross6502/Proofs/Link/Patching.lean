import Cross6502.Link.Patch
import Cross6502.Proofs.Outcome
import Cross6502.Proofs.Symbol.Table

/-!
# What a patch does to an image

Resolving a reference writes one or two bytes.  Where they go is decided by an index that
may count from the end of the image, so a byte of the image is safe from a write exactly
if no index of the write stands for its position (`getElem?_writeBytes_of_untouched`).
An index that counts from the front stands for itself, and from there on the bytes that
were written are read back (`getElem?_writeBytes`).

What is written depends on the table through one address only (`patch_outcome`), and the
bytes hold that address, or for a branch the distance to it (`holds_of_patchBytes`).
-/

namespace Cross6502

theorem eq_of_position?_natCast {length n k : Nat} (h : position? length (n : Int) = some k) :
    k = n := by
  rw [position?, if_pos (Int.natCast_nonneg n)] at h
  split at h
  · cases h
    rfl
  · cases h

theorem Reference.width_eq_two_or_one (r : Reference) : r.width = 2 ∨ r.width = 1 := by
  rw [width]
  cases r.mode.isWide
  · exact .inr rfl
  · exact .inl rfl

namespace Link

/-! ## Writing bytes -/

section Write

variable {image image' bytes : List UInt8} {offset : Int}

theorem of_writeByte {b : UInt8} (h : writeByte image offset b = .ok image') :
    ∃ n, position? image.length offset = some n ∧ image' = image.set n b := by
  rw [writeByte] at h
  split at h
  · rename_i n hn
    cases h
    exact ⟨n, hn, rfl⟩
  · cases h

theorem of_writeBytes_cons {b : UInt8} (h : writeBytes image offset (b :: bytes) = .ok image') :
    ∃ n, position? image.length offset = some n
      ∧ writeBytes (image.set n b) (offset + 1) bytes = .ok image' := by
  obtain ⟨image₁, hfirst, hrest⟩ := Outcome.bind_eq_ok_iff.mp h
  obtain ⟨n, hn, rfl⟩ := of_writeByte hfirst
  exact ⟨n, hn, hrest⟩

theorem length_writeBytes (h : writeBytes image offset bytes = .ok image') :
    image'.length = image.length := by
  induction bytes generalizing image offset with
  | nil =>
    cases h
    rfl
  | cons b bytes ih =>
    obtain ⟨n, -, hrest⟩ := of_writeBytes_cons h
    rw [ih hrest, List.length_set]

/-- A byte whose position no index of the write stands for keeps its value. -/
theorem getElem?_writeBytes_of_untouched (h : writeBytes image offset bytes = .ok image') {k : Nat}
    (hk : ∀ i : Nat, i < bytes.length → position? image.length (offset + i) ≠ some k) :
    image'[k]? = image[k]? := by
  induction bytes generalizing image offset with
  | nil =>
    cases h
    rfl
  | cons b bytes ih =>
    obtain ⟨n, hn, hrest⟩ := of_writeBytes_cons h
    have hne : n ≠ k := by
      rintro rfl
      exact hk 0 (Nat.succ_pos _) (by rw [Int.natCast_zero, Int.add_zero, hn])
    rw [ih hrest, List.getElem?_set_ne hne]
    intro i hi
    have hnext := hk (i + 1) (Nat.succ_lt_succ hi)
    rw [Int.natCast_add, Int.natCast_one, Int.add_comm (i : Int), ← Int.add_assoc] at hnext
    rwa [List.length_set]

/-- From an index that counts from the front, the bytes of a write are read back. -/
theorem getElem?_writeBytes {n : Nat} (h : writeBytes image (n : Int) bytes = .ok image') {i : Nat}
    (hi : i < bytes.length) : image'[n + i]? = bytes[i]? := by
  induction bytes generalizing image n i with
  | nil => exact absurd hi (Nat.not_lt_zero i)
  | cons b bytes ih =>
    obtain ⟨k, hk, hrest⟩ := of_writeBytes_cons h
    obtain rfl := eq_of_position?_natCast hk
    cases i with
    | zero =>
      -- the later bytes go behind the first one
      rw [getElem?_writeBytes_of_untouched hrest, Nat.add_zero,
        List.getElem?_set_self (position?_lt hk), List.getElem?_cons_zero]
      intro i _ hposition
      rw [← Int.natCast_one, ← Int.natCast_add, ← Int.natCast_add] at hposition
      have := eq_of_position?_natCast hposition
      omega
    | succ i =>
      have hread := ih (n := k + 1) hrest (Nat.lt_of_succ_lt_succ hi)
      rwa [Nat.add_assoc, Nat.add_comm 1 i] at hread

/-- A write that succeeds does not start before the beginning of the image. -/
theorem neg_length_le_of_writeBytes (h : writeBytes image offset bytes = .ok image')
    (hne : bytes ≠ []) : -(image.length : Int) ≤ offset := by
  obtain ⟨b, bytes, rfl⟩ := List.exists_cons_of_ne_nil hne
  obtain ⟨n, hn, -⟩ := of_writeBytes_cons h
  rw [position?] at hn
  split at hn
  · omega
  · split at hn
    · omega
    · cases hn

end Write

/-! ## Resolving a reference -/

/-- The bytes of an operand hold an address: the distance from the byte behind the operand
for a branch, the low byte and perhaps the high byte for any other instruction. -/
def Holds (r : Reference) (address site : Int) (bytes : List UInt8) : Prop :=
  if r.mode = .relative then ∃ b, bytes = [b] ∧ signed b = address - (site + 1)
  else if r.width = 2 then bytes = [lowByte address, highByte address]
  else bytes = [lowByte address]

section Patch

variable {table : SymbolTable} {input : String} {r : Reference} {offset site address : Int}
  {image image' bytes : List UInt8}

theorem holds_of_patchBytes (h : patchBytes input r address site = .ok bytes) :
    Holds r address site bytes := by
  rw [patchBytes] at h
  rw [Holds]
  split at h
  · rename_i hmode
    rw [if_pos hmode]
    simp only at h
    split at h
    · rename_i hreach
      cases h
      obtain ⟨hleast, hmost⟩ := Replacement.reaches_iff.mp hreach
      exact ⟨_, rfl, signed_lowByte hleast hmost⟩
    · cases h
  · rename_i hmode
    rw [if_neg hmode]
    split at h
    · rename_i hwidth
      cases h
      rw [if_pos hwidth]
    · rename_i hwidth
      cases h
      rw [if_neg hwidth]

theorem Holds.length_eq (h : Holds r address site bytes) : bytes.length = r.width := by
  have hwidth := r.width_eq_two_or_one
  rw [Holds] at h
  split at h
  · rename_i hmode
    obtain ⟨b, rfl, -⟩ := h
    rw [Reference.width, hmode]
    rfl
  · split at h
    · rename_i hwide
      rw [h, hwide]
      rfl
    · rename_i hnarrow
      rw [h, hwidth.resolve_left hnarrow]
      rfl

/-- Patching looks a name up for its address only. -/
theorem patch_outcome (table : SymbolTable) (input : String) (r : Reference) (offset site : Int)
    (image : List UInt8) :
    (patch table input r offset site image).outcome =
      match table.addressOf? r.name with
      | none => .error (Failure.unresolved r.name (some { file := input, line := r.line })).worded
      | some a =>
          if (image.length : Int) < offset + r.width then
            .error (.link (.outsideObject input r.name))
          else (patchBytes input r a site).bind fun bytes => writeBytes image offset bytes := by
  rw [patch, SymbolTable.addressOf?]
  cases table.find? r.name with
  | none => rfl
  | some u =>
    simp only [Option.map_some]
    split
    · rfl
    · simp only [Logged.outcome_bind, Logged.outcome_ofExcept]
      cases patchBytes input r u.address site with
      | error e => rfl
      | ok bytes =>
        simp only [Except.bind]
        cases writeBytes image offset bytes with
        | error e => rfl
        | ok patched => rfl

/-- A reference that is resolved has an address, its operand ends inside the image, and
bytes that hold the address are written there. -/
theorem of_patch (h : (patch table input r offset site image).outcome = .ok image') :
    ∃ a bytes, table.addressOf? r.name = some a ∧ offset + r.width ≤ image.length
      ∧ Holds r a site bytes ∧ writeBytes image offset bytes = .ok image' := by
  rw [patch_outcome] at h
  split at h
  · cases h
  · rename_i a haddress
    split at h
    · cases h
    · rename_i hroom
      obtain ⟨bytes, hbytes, hwrite⟩ := Outcome.bind_eq_ok_iff.mp h
      exact ⟨a, bytes, haddress, by omega, holds_of_patchBytes hbytes, hwrite⟩

end Patch

end Link

end Cross6502
