import Cross6502.Proofs.Outcome
import Cross6502.Proofs.Substitution.LightSum

/-!
# Buffers within their limit

A buffer checks its limit in one place, when a stretch is replaced by a longer one.  So a text
that is too long from the start stays so, and whoever makes a buffer has to see to it that the
text fits.  From then on every replacement of a stretch inside the text keeps it within the limit
(`Fits.of_spliced`), and all other edits are made of such replacements.

To speak of what is in the buffer in the middle of an edit, `passed` lists the buffers that an
edit goes through, and `Passes` says that a list of buffers leads by replacements from one buffer
to another.  That it does so for every edit (`passes_edit`) is what the rest follows from.
-/

namespace Cross6502

namespace LineBuffer

variable {b b' b₁ b₂ : LineBuffer} {bs bs' : List LineBuffer} {start length : Int}
  {replacement : Text} {capacity : Int}

/-! ## Replacing a stretch -/

/-- A stretch that lies inside the text. -/
def InRange (b : LineBuffer) (start length : Int) : Prop :=
  0 ≤ start ∧ 0 ≤ length ∧ start + length ≤ b.text.length

/-- The text with a stretch replaced. -/
def replaced (b : LineBuffer) (start length : Int) (replacement : Text) : Text :=
  b.text.take start.toNat ++ replacement ++ b.text.drop (start + length).toNat

theorem inRange_of_eq_append {s x t : Text} (h : b.text = s ++ x ++ t) :
    b.InRange s.length x.length := by
  refine ⟨by omega, by omega, ?_⟩
  rw [h, List.length_append, List.length_append]
  omega

theorem InRange.length_replaced (h : b.InRange start length) (replacement : Text) :
    ((b.replaced start length replacement).length : Int)
      = b.text.length - length + replacement.length := by
  obtain ⟨hstart, hlength, hend⟩ := h
  rw [replaced, List.length_append, List.length_append, List.length_take, List.length_drop]
  omega

/-- A stretch inside the text is replaced, unless the text grows and passes the limit. -/
theorem splice_of_inRange (h : b.InRange start length) (replacement : Text) :
    b.splice start length replacement =
      if b.text.length < (b.replaced start length replacement).length
          ∧ b.limit < (b.replaced start length replacement).length then
        .error (b.overflow (b.replaced start length replacement).length)
      else .ok { b with text := b.replaced start length replacement } := by
  have hneeded := h.length_replaced replacement
  obtain ⟨hstart, hlength, hend⟩ := h
  obtain ⟨i, rfl⟩ := Int.eq_ofNat_of_zero_le hstart
  obtain ⟨n, rfl⟩ := Int.eq_ofNat_of_zero_le hlength
  have htext : sliceTo b.text i ++ replacement ++ sliceFrom b.text ((i : Int) + n)
      = b.replaced i n replacement := by
    rw [sliceTo, sliceFrom, ← Int.natCast_add, cutPoint_of_le (by omega),
      cutPoint_of_le (by omega), replaced, ← Int.natCast_add, Int.toNat_natCast, Int.toNat_natCast]
  have hgrows : b.text.length < (b.replaced i n replacement).length ↔ n < replacement.length := by
    omega
  rw [splice, ← hneeded, htext]
  simp only [hgrows, Bool.and_eq_true, decide_eq_true_eq, Int.ofNat_lt]

/-- The second buffer is the first with a stretch inside its text replaced. -/
def Spliced (b b' : LineBuffer) : Prop :=
  ∃ start length replacement, b.InRange start length
    ∧ b.splice start length replacement = .ok b'

/-- A buffer of the given capacity, with room for the terminator behind its text. -/
structure Fits (capacity : Int) (b : LineBuffer) : Prop where
  capacity_eq : b.capacity = capacity
  length_le : (b.text.length : Int) ≤ capacity - 1

theorem Fits.of_spliced (h : b.Fits capacity) (hb : b.Spliced b') : b'.Fits capacity := by
  obtain ⟨start, length, replacement, hrange, hsplice⟩ := hb
  have hlimit : b.limit = capacity - 1 := by rw [limit, h.capacity_eq]
  have hle := h.length_le
  rw [splice_of_inRange hrange, hlimit] at hsplice
  split at hsplice
  · cases hsplice
  · rename_i hfits
    cases hsplice
    refine ⟨h.capacity_eq, ?_⟩
    show ((b.replaced start length replacement).length : Int) ≤ capacity - 1
    omega

/-! ## Lists of buffers -/

/-- The buffers lead from the first to the last: each is the one before it, or that one with a
stretch replaced. -/
inductive Passes : LineBuffer → List LineBuffer → LineBuffer → Prop
  | done (b : LineBuffer) : Passes b [] b
  | step {b b₁ b' : LineBuffer} {bs : List LineBuffer} (hstep : b₁ = b ∨ b.Spliced b₁)
      (hrest : Passes b₁ bs b') : Passes b (b₁ :: bs) b'

namespace Passes

theorem single (hstep : b₁ = b ∨ b.Spliced b₁) : Passes b [b₁] b₁ := .step hstep (.done b₁)

theorem append (h : Passes b bs b₁) (h' : Passes b₁ bs' b₂) : Passes b (bs ++ bs') b₂ := by
  induction h with
  | done => exact h'
  | step hstep _ ih => exact .step hstep (ih h')

theorem last_mem (h : Passes b bs b') : b' ∈ b :: bs := by
  induction h with
  | done => exact List.mem_cons_self
  | step _ _ ih => exact List.mem_cons_of_mem _ ih

/-- A text that fits goes on to fit. -/
theorem fits (h : Passes b bs b') (hb : b.Fits capacity) :
    (∀ p ∈ bs, p.Fits capacity) ∧ b'.Fits capacity := by
  induction h with
  | done => exact ⟨List.forall_mem_nil _, hb⟩
  | step hstep _ ih =>
    have hfirst := hstep.elim (fun h => h ▸ hb) hb.of_spliced
    obtain ⟨hmore, hlast⟩ := ih hfirst
    exact ⟨List.forall_mem_cons.mpr ⟨hfirst, hmore⟩, hlast⟩

end Passes

end LineBuffer

/-! ## The three rewritings -/

namespace Names

open LineBuffer (Passes Spliced)

variable {mnemonic : Text} {address : Int} {b b' : LineBuffer}

/-- Replace every token of one symbol from a position on, and list the buffers on the way. -/
def traceSymbol (mnemonic : Text) (address : Int) (s : Symbol) :
    Nat → Nat → LineBuffer → Progress × List LineBuffer
  | 0, _, b => (⟨b, [], none⟩, [])
  | fuel + 1, position, b =>
      match Token.find? b.text s.name position with
      | none => (⟨b, [], none⟩, [])
      | some i =>
          match replaceAt mnemonic address s i b with
          | .error e => (⟨b, [], some e⟩, [])
          | .ok (b, next) =>
              let (p, bs) := traceSymbol mnemonic address s fuel next b
              ({ p with replaced := s.name :: p.replaced }, b :: bs)

/-- Replace the tokens of each symbol in turn, and list the buffers on the way. -/
def traceSymbols (mnemonic : Text) (address : Int) :
    List Symbol → LineBuffer → Progress × List LineBuffer
  | [], b => (⟨b, [], none⟩, [])
  | s :: rest, b =>
      let (p, bs) := traceSymbol mnemonic address s (b.text.length + 1) Token.operandStart b
      match p.failure with
      | some _ => (p, bs)
      | none =>
          let (q, more) := traceSymbols mnemonic address rest p.buffer
          ({ q with replaced := p.replaced ++ q.replaced }, bs ++ more)

theorem fst_traceSymbol (mnemonic : Text) (address : Int) (s : Symbol) (fuel position : Nat)
    (b : LineBuffer) :
    (traceSymbol mnemonic address s fuel position b).1
      = replaceSymbol mnemonic address s fuel position b := by
  induction fuel generalizing position b with
  | zero => rfl
  | succ fuel ih =>
    rw [traceSymbol, replaceSymbol]
    cases Token.find? b.text s.name position with
    | none => rfl
    | some i =>
      simp only
      cases replaceAt mnemonic address s i b with
      | error e => rfl
      | ok r =>
        simp only
        rw [ih]

/-- Listing the buffers changes nothing about what is replaced. -/
theorem fst_traceSymbols (mnemonic : Text) (address : Int) (us : List Symbol) (b : LineBuffer) :
    (traceSymbols mnemonic address us b).1 = replaceSymbols mnemonic address us b := by
  induction us generalizing b with
  | nil => rfl
  | cons s rest ih =>
    rw [traceSymbols, replaceSymbols]
    simp only
    rw [fst_traceSymbol]
    cases (replaceSymbol mnemonic address s (b.text.length + 1) Token.operandStart b).failure with
    | some e => rfl
    | none =>
      simp only
      rw [ih]

theorem spliced_of_replaceAt {s : Symbol} {position i next : Nat}
    (hfind : Token.find? b.text s.name position = some i)
    (h : replaceAt mnemonic address s i b = .ok (b', next)) : b.Spliced b' := by
  obtain ⟨before, after, htext, rfl, -, -⟩ := Token.of_find? hfind
  obtain ⟨literal, -, h⟩ := Outcome.bind_eq_ok_iff.mp h
  obtain ⟨b₁, hsplice, h⟩ := Outcome.bind_eq_ok_iff.mp h
  cases h
  exact ⟨_, _, literal, LineBuffer.inRange_of_eq_append htext, hsplice⟩

theorem passes_traceSymbol (mnemonic : Text) (address : Int) (s : Symbol)
    (fuel position : Nat) (b : LineBuffer) :
    Passes b (traceSymbol mnemonic address s fuel position b).2
      (traceSymbol mnemonic address s fuel position b).1.buffer := by
  induction fuel generalizing position b with
  | zero => exact .done b
  | succ fuel ih =>
    rw [traceSymbol]
    cases hfind : Token.find? b.text s.name position with
    | none => exact .done b
    | some i =>
      simp only
      cases hreplace : replaceAt mnemonic address s i b with
      | error e => exact .done b
      | ok r => exact .step (.inr (spliced_of_replaceAt hfind hreplace)) (ih r.2 r.1)

theorem passes_traceSymbols (mnemonic : Text) (address : Int) (us : List Symbol)
    (b : LineBuffer) :
    Passes b (traceSymbols mnemonic address us b).2
      (traceSymbols mnemonic address us b).1.buffer := by
  induction us generalizing b with
  | nil => exact .done b
  | cons s rest ih =>
    have hfirst := passes_traceSymbol mnemonic address s (b.text.length + 1) Token.operandStart b
    rw [traceSymbols]
    generalize traceSymbol mnemonic address s (b.text.length + 1) Token.operandStart b = r
      at hfirst
    obtain ⟨p, bs⟩ := r
    simp only
    cases p.failure with
    | some e => exact hfirst
    | none => exact hfirst.append (ih p.buffer)

theorem spliced_of_holdPlace {name : Text} {i : Option Nat}
    (h : holdPlace b name = .ok (b', i)) : b' = b ∨ b.Spliced b' := by
  rw [holdPlace] at h
  split at h
  · cases h
    exact .inl rfl
  · rename_i i hfind
    obtain ⟨before, after, htext, rfl, -, -⟩ := Token.of_find? hfind
    obtain ⟨b₁, hsplice, h⟩ := Outcome.bind_eq_ok_iff.mp h
    cases h
    exact .inr ⟨_, _, _, LineBuffer.inRange_of_eq_append htext, hsplice⟩

end Names

theorem Arithmetic.spliced_of_fold {b b' : LineBuffer} {folded : Bool}
    (h : fold b = .ok (b', folded)) : b' = b ∨ b.Spliced b' := by
  rw [fold] at h
  split at h
  · cases h
    exact .inl rfl
  · rename_i i s hfind
    obtain ⟨before, rest, htext, rfl, -, hsum, -⟩ := of_find? hfind
    obtain ⟨o, after, hparts⟩ := exists_parts_of_sumAt? hsum
    obtain ⟨text, -, h⟩ := Outcome.bind_eq_ok_iff.mp h
    obtain ⟨b₁, hsplice, h⟩ := Outcome.bind_eq_ok_iff.mp h
    cases h
    have hstretch : b.text = before ++ (s.left ++ (o ++ s.right)) ++ after := by
      rw [htext, hparts.text]
      simp only [List.append_assoc]
    rw [hparts.length] at hsplice
    exact .inr ⟨_, _, text, LineBuffer.inRange_of_eq_append hstretch, hsplice⟩

/-! ## Edits -/

namespace LineBuffer

/-- What can be done to a buffer. -/
inductive Edit where
  | splice (start length : Int) (replacement : Text)
  | resolve (table : SymbolTable) (address : Int)
  | holdPlace (name : Text)
  | fold
  deriving DecidableEq, Inhabited

/-- A stretch to be replaced lies inside the text. -/
def Edit.InRange (b : LineBuffer) : Edit → Prop
  | .splice start length _ => b.InRange start length
  | _ => True

/-- The buffer after an edit, and why the edit failed if it did.  What was done before the
failure stays. -/
def edit (b : LineBuffer) : Edit → LineBuffer × Option Failure
  | .splice start length replacement =>
      match b.splice start length replacement with
      | .ok b' => (b', none)
      | .error e => (b, some e)
  | .resolve table address =>
      let p := Names.resolve b table address
      (p.buffer, p.failure)
  | .holdPlace name =>
      match Names.holdPlace b name with
      | .ok (b', _) => (b', none)
      | .error e => (b, some e)
  | .fold =>
      match Arithmetic.fold b with
      | .ok (b', _) => (b', none)
      | .error e => (b, some e)

theorem edit_splice {b : LineBuffer} {start length : Int} (h : b.InRange start length)
    (replacement : Text) :
    b.edit (.splice start length replacement) =
      if b.text.length < (b.replaced start length replacement).length
          ∧ b.limit < (b.replaced start length replacement).length then
        (b, some (b.overflow (b.replaced start length replacement).length))
      else ({ b with text := b.replaced start length replacement }, none) := by
  rw [edit, splice_of_inRange h]
  by_cases hgrows : b.text.length < (b.replaced start length replacement).length
      ∧ b.limit < (b.replaced start length replacement).length
  · rw [if_pos hgrows, if_pos hgrows]
  · rw [if_neg hgrows, if_neg hgrows]

/-- The buffers that an edit goes through. -/
def passed (b : LineBuffer) : Edit → List LineBuffer
  | .resolve table address => (Names.traceSymbols (b.text.take 3) address table.symbols b).2
  | e => [(b.edit e).1]

theorem passes_edit {b : LineBuffer} {e : Edit} (h : e.InRange b) :
    Passes b (b.passed e) (b.edit e).1 := by
  cases e with
  | splice start length replacement =>
    refine .single ?_
    rw [edit]
    cases hsplice : b.splice start length replacement with
    | ok b' => exact .inr ⟨start, length, replacement, h, hsplice⟩
    | error e => exact .inl rfl
  | resolve table address =>
    have hpasses := Names.passes_traceSymbols (b.text.take 3) address table.symbols b
    rw [Names.fst_traceSymbols] at hpasses
    exact hpasses
  | holdPlace name =>
    refine .single ?_
    rw [edit]
    cases hhold : Names.holdPlace b name with
    | ok r => exact Names.spliced_of_holdPlace hhold
    | error e => exact .inl rfl
  | fold =>
    refine .single ?_
    rw [edit]
    cases hfold : Arithmetic.fold b with
    | ok r => exact Arithmetic.spliced_of_fold hfold
    | error e => exact .inl rfl

/-! ## Edits one after another -/

/-- The buffer after edits, whether they fail or not. -/
def afterEdits (b : LineBuffer) : List Edit → LineBuffer
  | [] => b
  | e :: rest => (b.edit e).1.afterEdits rest

/-- The buffers that edits go through. -/
def passedBy (b : LineBuffer) : List Edit → List LineBuffer
  | [] => []
  | e :: rest => b.passed e ++ (b.edit e).1.passedBy rest

/-- Every edit that replaces a stretch finds it inside the text. -/
def EditsInRange (b : LineBuffer) : List Edit → Prop
  | [] => True
  | e :: rest => e.InRange b ∧ (b.edit e).1.EditsInRange rest

theorem passes_edits {b : LineBuffer} {edits : List Edit} (h : b.EditsInRange edits) :
    Passes b (b.passedBy edits) (b.afterEdits edits) := by
  induction edits generalizing b with
  | nil => exact .done b
  | cons e rest ih => exact (passes_edit h.1).append (ih h.2)

end LineBuffer

end Cross6502
