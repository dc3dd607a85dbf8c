import Cross6502.Proofs.Numeral.Written
import Cross6502.Proofs.Substitution.Bulk
import Cross6502.Proofs.Substitution.Reported

/-!
# How editing a line can fail

Names are replaced in a line buffer.  Two things are reported when that goes wrong: a
branch that reaches too far, and a line that outgrows its buffer.  What must not happen is
that a number in the line comes to be too long to be read, or that a number in the report
is too long to be written.

A line is *light* (`Text.Light`) if its bulk and its combining dots stay within the number
of digits that are read.  Every edit of a light line leaves a light line or fails with an
error that can be written: that is what `EndsWell` says of one operation, and it carries
over to one operation after another (`EndsWell.bind`).  This module has it for names that
are replaced (`Names.endsWell_replaceSymbols`) and for names whose places are held
(`Names.endsWell_holdPlace`).
-/

namespace Cross6502

open Arithmetic (isLowerHexDigit)

/-! ## Outcomes -/

/-- An error of the source whose numbers can be written. -/
def Failure.IsWritten (f : Failure) : Prop :=
  ∃ e, f = .source e ∧ ∀ n ∈ e.cause.numbers, Text.isWritable n = true

/-- An error without numbers can be written. -/
theorem Failure.isWritten_ofCause {cause : SourceCause} (h : cause.numbers = []) :
    (ofCause cause).IsWritten := by
  refine ⟨{ cause := cause }, rfl, fun n hn => ?_⟩
  rw [h] at hn
  cases hn

/-- An operation succeeds with a result of a kind, or fails with an error that can be
written. -/
def EndsWell {α : Type} (p : α → Prop) : Except Failure α → Prop
  | .ok a => p a
  | .error f => f.IsWritten

namespace EndsWell

variable {α β : Type} {p : α → Prop} {q : β → Prop} {x : Except Failure α}

theorem bind (hx : EndsWell p x) {f : α → Except Failure β} (hf : ∀ a, p a → EndsWell q (f a)) :
    EndsWell q (x.bind f) := by
  cases x with
  | ok a => exact hf a hx
  | error e => exact hx

theorem mono {p' : α → Prop} (hx : EndsWell p x) (h : ∀ a, p a → p' a) : EndsWell p' x := by
  cases x with
  | ok a => exact h a hx
  | error e => exact hx

end EndsWell

/-- Numbers of six digits are far from the limit, which need not be written out to see it. -/
theorem Text.lt_limit_of_lt {n : Nat} (hn : n < 10 ^ 6) : n < Numeral.decimalLimit :=
  Nat.lt_of_lt_of_le hn (Nat.pow_le_pow_right (by decide) (by decide))

/-! ## Light lines -/

namespace Text

/-- A line that holds no number too long to be read. -/
structure Light (t : Text) : Prop where
  bulk_le : bulk 0 t ≤ digitLimit
  dots_le : t.count combiningDot ≤ digitLimit
  /-- A combining dot at the front is not counted, but there was a character for it. -/
  head_lt : t.head? = some combiningDot → bulk 0 t < digitLimit

namespace Light

variable {s x u ds t : Text}

theorem length_le (h : Light t) : t.length ≤ 6 * digitLimit := by
  have hlength := length_le_bulk 0 t
  have hbulk := h.bulk_le
  have hdots := h.dots_le
  omega

theorem splice (h : Light (s ++ x ++ u)) (hds : ∀ c ∈ ds, isLowerHexDigit c = true)
    (hlength : ds.length ≤ 4) (hx : 0 < bulk (freeAfter 0 s) x)
    (hu : bulk (freeAfter (freeAfter 0 s) x) u = bulk 0 u) : Light (s ++ '$' :: ds ++ u) := by
  have hbulk := bulk_splice_le hds hlength hx hu
  refine ⟨Nat.le_trans hbulk h.bulk_le, ?_, fun hhead => ?_⟩
  · have hnone : ('$' :: ds).count combiningDot = 0 := by
      rw [List.count_eq_zero, List.mem_cons, not_or]
      refine ⟨by decide, fun hdot => ?_⟩
      exact absurd (hds _ hdot) (by decide)
    have hdots := h.dots_le
    rw [List.count_append, List.count_append] at hdots
    rw [List.count_append, List.count_append, hnone]
    omega
  · cases s with
    | nil => cases hhead
    | cons c s => exact Nat.lt_of_le_of_lt hbulk (h.head_lt hhead)

end Light

theorem bulk_pos {c : Char} (hc : c ≠ combiningDot) (t : Text) : 0 < bulk 0 (c :: t) := by
  by_cases hdollar : c = '$'
  · rw [bulk, if_pos hdollar]
    exact Nat.succ_pos _
  · rw [bulk_zero_cons hdollar, if_neg hc]
    exact Nat.succ_pos _

end Text

namespace LineBuffer

/-- A buffer with a light line, and with a limit and a place that can be written. -/
structure IsLight (b : LineBuffer) : Prop where
  text : Text.Light b.text
  limit : Text.isWritable b.limit = true
  place : ((b.location.map Location.numbers).getD []).all Text.isWritable = true

/-- A literal is put in place of a part that counts. -/
theorem endsWell_splice {b : LineBuffer} (h : b.IsLight) {s x u : Text}
    (hb : b.text = s ++ x ++ u) (hx : 0 < Text.bulk (Text.freeAfter 0 s) x)
    (hu : Text.bulk (Text.freeAfter (Text.freeAfter 0 s) x) u = Text.bulk 0 u) (word : Bool)
    (n : Int) : EndsWell IsLight (b.splice s.length x.length (Replacement.literal word n)) := by
  have hlength := Replacement.length_literal word n
  have hplaces : Replacement.places word ≤ 4 := by
    cases word <;> decide
  rw [splice_middle hb]
  split
  · -- The line that does not fit is hardly longer than the one that is there.
    have hlimit : 6 * digitLimit + 5 < Numeral.decimalLimit := Text.lt_limit_of_lt (by decide)
    have hle := h.text.length_le
    rw [hb, List.length_append, List.length_append] at hle
    have hneeded : Text.isWritable
        (s.length + (Replacement.literal word n).length + u.length : Int) = true := by
      rw [Numeral.isWritable_iff]
      omega
    have hlimit : Text.isWritable (b.capacity - 1) = true := h.limit
    refine ⟨_, Failure.worded_of_writable ?_,
      List.forall_mem_cons.mpr ⟨hneeded, List.forall_mem_singleton.mpr hlimit⟩⟩
    rw [Failure.numbers, SourceError.numbers, SourceCause.numbers, List.all_append, h.place,
      List.all_cons, List.all_cons, hneeded, hlimit]
    rfl
  · refine ⟨?_, h.limit, h.place⟩
    rw [Replacement.literal_eq] at hlength ⊢
    rw [List.length_cons] at hlength
    exact (hb ▸ h.text).splice (Replacement.isHexRun_lowerHex word n).2 (by omega) hx hu

end LineBuffer

/-! ## Names -/

namespace Token

theorem of_standsAt {name rest : Text} {before : Option Char}
    (h : standsAt name before rest = true) :
    mayBegin before = true ∧ ∃ u, rest = name ++ u ∧ mayEnd u = true := by
  rw [standsAt, Bool.and_eq_true, Bool.and_eq_true, List.isPrefixOf_iff_prefix] at h
  obtain ⟨⟨hbegin, u, rfl⟩, hend⟩ := h
  rw [List.drop_left] at hend
  exact ⟨hbegin, u, rfl, hend⟩

theorem of_scan {name t : Text} {before : Option Char} {i j : Nat}
    (h : scan name before t i = some j) :
    ∃ s u, t = s ++ name ++ u ∧ j = i + s.length ∧ mayBegin (lastOr before s) = true
      ∧ mayEnd u = true := by
  induction t generalizing before i with
  | nil =>
    rw [scan] at h
    split at h
    · rename_i hstands
      obtain ⟨hbegin, u, hrest, hend⟩ := of_standsAt hstands
      cases h
      exact ⟨[], u, hrest, rfl, hbegin, hend⟩
    · cases h
  | cons c t ih =>
    rw [scan] at h
    split at h
    · rename_i hstands
      obtain ⟨hbegin, u, hrest, hend⟩ := of_standsAt hstands
      cases h
      exact ⟨[], u, hrest, rfl, hbegin, hend⟩
    · obtain ⟨s, u, rfl, rfl, hbegin, hend⟩ := ih h
      refine ⟨c :: s, u, rfl, by rw [List.length_cons]; omega, ?_, hend⟩
      rw [lastOr_cons]
      exact hbegin

/-- A name is found where it stands as a token. -/
theorem of_find? {text name : Text} {start i : Nat} (h : find? text name start = some i) :
    ∃ s u, text = s ++ name ++ u ∧ i = s.length ∧ mayBegin s.getLast? = true
      ∧ mayEnd u = true := by
  rw [find?] at h
  split at h
  · rename_i hstart
    obtain ⟨s, u, hdrop, rfl, hbegin, hend⟩ := of_scan h
    have hlength : (text.take start).length = start := List.length_take_of_le hstart
    refine ⟨text.take start ++ s, u, ?_, by rw [List.length_append, hlength], ?_, hend⟩
    · rw [List.append_assoc, List.append_assoc, ← List.append_assoc s, ← hdrop,
        List.take_append_drop]
    · rw [List.getLast?_append, ← before?_eq_getLast? hstart]
      exact hbegin
  · cases h

theorem freeAfter_of_mayBegin {s : Text} (h : mayBegin s.getLast? = true) :
    Text.freeAfter 0 s = 0 := by
  rcases List.eq_nil_or_concat s with rfl | ⟨s, c, rfl⟩
  · rfl
  · rw [List.concat_eq_append, List.getLast?_append, List.getLast?_singleton] at h
    have hc : opens c = true := h
    simp only [opens, Bool.or_eq_true, decide_eq_true_eq] at hc
    rw [List.concat_eq_append]
    rcases hc with (((rfl | rfl) | rfl) | rfl) | rfl <;>
      exact Text.freeAfter_concat (by decide) (by decide) 0 s

theorem bulk_of_mayEnd {u : Text} (h : mayEnd u = true) (free : Nat) :
    Text.bulk free u = Text.bulk 0 u := by
  refine Text.bulk_of_head (fun c hc => ?_) free
  cases u with
  | nil => cases hc
  | cons d u =>
    obtain rfl : d = c := Option.some_inj.mp hc
    have hd : closes d = true := h
    simp only [closes, Bool.or_eq_true, decide_eq_true_eq] at hd
    rcases hd with ((((rfl | rfl) | rfl) | rfl) | rfl) | rfl <;> decide

/-- A literal in place of a token that counts. -/
theorem endsWell_splice {b : LineBuffer} (h : b.IsLight) {name : Text} {start i : Nat}
    (hname : 0 < Text.bulk 0 name) (hfind : find? b.text name start = some i) (word : Bool)
    (n : Int) :
    EndsWell LineBuffer.IsLight (b.splice i name.length (Replacement.literal word n)) := by
  obtain ⟨s, u, htext, rfl, hbegin, hend⟩ := of_find? hfind
  have hfree := freeAfter_of_mayBegin hbegin
  refine LineBuffer.endsWell_splice h htext ?_ (bulk_of_mayEnd hend _) word n
  rw [hfree]
  exact hname

end Token

theorem Replacement.endsWell_text {mnemonic name : Text} {before : Option Char}
    {value address : Int} (hreach : Text.isWritable (displacement value address) = true) :
    EndsWell (fun t => ∃ word n, t = literal word n)
      (text mnemonic before value address name) := by
  cases htext : text mnemonic before value address name with
  | ok t =>
    obtain ⟨n, hn⟩ := exists_literal_of_text htext
    exact ⟨_, n, hn⟩
  | error e =>
    cases hbranch : Mnemonic.isBranchText mnemonic with
    | false =>
      rw [text_of_not_branch hbranch] at htext
      cases htext
    | true =>
      rw [text_of_branch hbranch] at htext
      split at htext
      · cases htext
      · cases htext
        refine ⟨_, Failure.worded_of_writable ?_, List.forall_mem_singleton.mpr hreach⟩
        exact List.all_eq_true.mpr (List.forall_mem_singleton.mpr hreach)

namespace Names

open LineBuffer (IsLight)

/-- A buffer is light, and if replacing stopped early, then for an error that can be
written. -/
structure Progress.EndsWell (p : Progress) : Prop where
  buffer : p.buffer.IsLight
  failure : ∀ e, p.failure = some e → e.IsWritten

/-- A symbol whose name counts, and to which the distance can be written. -/
structure Replaceable (address : Int) (s : Symbol) : Prop where
  name : 0 < Text.bulk 0 s.name
  reach : Text.isWritable (Replacement.displacement s.address address) = true

section Replace

variable {m : Text} {address : Int} {b : LineBuffer}

theorem endsWell_replaceAt {s : Symbol} {start i : Nat} (h : b.IsLight)
    (hs : Replaceable address s) (hfind : Token.find? b.text s.name start = some i) :
    EndsWell (fun r => r.1.IsLight) (replaceAt m address s i b) := by
  refine (Replacement.endsWell_text hs.reach).bind ?_
  rintro t ⟨word, n, rfl⟩
  exact (Token.endsWell_splice h hs.name hfind word n).bind fun _ hb => hb

theorem endsWell_replaceSymbol {s : Symbol} (hs : Replaceable address s) (fuel position : Nat)
    (h : b.IsLight) : (replaceSymbol m address s fuel position b).EndsWell := by
  induction fuel generalizing position b with
  | zero => exact ⟨h, fun e he => by cases he⟩
  | succ fuel ih =>
    rw [replaceSymbol]
    split
    · exact ⟨h, fun e he => by cases he⟩
    · rename_i i hfind
      have hat := endsWell_replaceAt (m := m) h hs hfind
      split
      · rename_i e he
        rw [he] at hat
        exact ⟨h, fun e' he' => Option.some_inj.mp he' ▸ hat⟩
      · rename_i b' next hok
        rw [hok] at hat
        obtain ⟨hbuffer, hfailure⟩ := ih next hat
        exact ⟨hbuffer, hfailure⟩

theorem endsWell_replaceSymbols {symbols : List Symbol}
    (hs : ∀ s ∈ symbols, Replaceable address s) (h : b.IsLight) :
    (replaceSymbols m address symbols b).EndsWell := by
  induction symbols generalizing b with
  | nil => exact ⟨h, fun e he => by cases he⟩
  | cons s symbols ih =>
    have hfirst := endsWell_replaceSymbol (m := m) (hs s List.mem_cons_self)
      (b.text.length + 1) Token.operandStart h
    rw [replaceSymbols]
    split
    · exact hfirst
    · obtain ⟨hbuffer, hfailure⟩ := ih (fun u hu => hs u (List.mem_cons_of_mem s hu)) hfirst.buffer
      exact ⟨hbuffer, hfailure⟩

end Replace

theorem endsWell_holdPlace {b : LineBuffer} {name : Text} (h : b.IsLight)
    (hname : 0 < Text.bulk 0 name) : EndsWell (fun r => r.1.IsLight) (holdPlace b name) := by
  rw [holdPlace]
  split
  · exact h
  · rename_i i hfind
    rw [Replacement.placeholder_eq]
    exact (Token.endsWell_splice h hname hfind _ 0).bind fun _ hb => hb

/-- Names that are left begin with a letter or an underscore, which counts. -/
theorem bulk_pos_of_mem_unresolved {line x : Text} (hx : x ∈ unresolved line) :
    0 < Text.bulk 0 x := by
  obtain ⟨⟨hne, -⟩, hfirst⟩ := isWord_of_mem_unresolved hx
  obtain ⟨c, word, rfl⟩ := List.exists_cons_of_ne_nil hne
  refine Text.bulk_pos ?_ _
  rintro rfl
  exact absurd (hfirst _ rfl) (by decide)

end Names

end Cross6502
