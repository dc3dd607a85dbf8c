import Cross6502.Proofs.Assembly.Steps
import Cross6502.Proofs.Substitution.Reported
import Cross6502.Proofs.Substitution.Simultaneous
import Mathlib.Data.List.Dedup

/-!
# Zeros for names that are left

A name that no table defines is replaced by a zero, one token for each time the name is asked
for, in the order in which the names are given.  A zero is the literal of a symbol without
distance or address (`nullSymbol`), so putting zeros in place of all tokens at once is a
substitution like any other.

Doing it token by token comes to the same.  When one token has become its literal, replacing
the others gives the line that replacing all of them would have given
(`Substituted.of_replaced`), and one token less is left to replace.  This is what asking for
one name does (`substituted_holdPlace`).  So a list that names every token as often as it
stands in the line is enough to replace them all (`substituted_holdPlaces`).
-/

namespace Cross6502

namespace Replacement

/-- A symbol that is written as zero wherever it stands in an instruction at address zero: a
branch to it has no distance, and everything else finds no address. -/
def nullSymbol (mnemonic name : Text) : Symbol where
  name := name
  address := if Mnemonic.isBranchText mnemonic then 2 else 0

theorem text_nullSymbol (mnemonic name : Text) (before : Option Char) :
    text mnemonic before (nullSymbol mnemonic name).address 0 name
      = .ok (placeholder mnemonic before) := by
  have hbyte : byteText 0 = "$00".toList := by decide
  have hword : wordText 0 = "$0000".toList := by decide
  unfold text placeholder nullSymbol
  cases Mnemonic.isBranchText mnemonic with
  | true => exact congrArg Except.ok hbyte
  | false =>
    cases isZeroPage mnemonic before with
    | true => exact congrArg Except.ok hbyte
    | false => exact congrArg Except.ok hword

/-- The symbols of names that are written as zeros. -/
def nullSymbols (mnemonic : Text) (names : List Text) : List Symbol :=
  names.dedup.map (nullSymbol mnemonic)

theorem map_name_nullSymbols (mnemonic : Text) (names : List Text) :
    (nullSymbols mnemonic names).map Symbol.name = names.dedup := by
  rw [nullSymbols, List.map_map]
  exact List.map_id _

theorem nullSymbol_mem_nullSymbols {mnemonic name : Text} {names : List Text} :
    nullSymbol mnemonic name ∈ nullSymbols mnemonic names ↔ name ∈ names := by
  rw [nullSymbols, List.mem_map]
  constructor
  · rintro ⟨n, hn, heq⟩
    obtain rfl : n = name := congrArg Symbol.name heq
    exact List.mem_dedup.mp hn
  · intro hname
    exact ⟨name, List.mem_dedup.mpr hname, rfl⟩

theorem exists_of_mem_nullSymbols {mnemonic : Text} {names : List Text} {s : Symbol}
    (hs : s ∈ nullSymbols mnemonic names) : ∃ name ∈ names, s = nullSymbol mnemonic name := by
  obtain ⟨name, hname, rfl⟩ := List.mem_map.mp hs
  exact ⟨name, List.mem_dedup.mp hname, rfl⟩

end Replacement

namespace Token

theorem lastOr_append (before : Option Char) (s t : Text) :
    lastOr before (s ++ t) = lastOr (lastOr before s) t := by
  rw [lastOr, lastOr, lastOr, List.getLast?_append, Option.or_assoc]

theorem field_append_of_opens {s : Text} (hs : ∃ c ∈ s, opens c = true) (t : Text) :
    field (s ++ t) = field s := by
  induction s with
  | nil => exact absurd hs (by simp)
  | cons c s ih =>
    rw [List.cons_append]
    cases hc : opens c with
    | true => rw [field_cons_of_opens hc, field_cons_of_opens hc]
    | false =>
      obtain ⟨d, hd, hopens⟩ := hs
      have hmem : d ∈ s := by
        rcases List.mem_cons.mp hd with rfl | hd
        · rw [hc] at hopens
          cases hopens
        · exact hd
      rw [field_cons_of_not_opens hc, field_cons_of_not_opens hc, ih ⟨d, hmem, hopens⟩]

/-- What follows a text behind which a token may begin has no part in the names at its
front. -/
theorem standsAt_append_eq {name front : Text} (hname : IsPlainName name) (hne : front ≠ [])
    {before : Option Char} (hbegin : mayBegin (lastOr before front) = true) (t : Text) :
    standsAt name before (front ++ t) = standsAt name before front := by
  have hopens : ∃ c ∈ front, opens c = true := by
    rw [lastOr, List.getLast?_eq_some_getLast hne, Option.some_or] at hbegin
    exact ⟨_, List.getLast_mem hne, hbegin⟩
  rw [← standsAt_field hname.opens_eq_false, field_append_of_opens hopens,
    standsAt_field hname.opens_eq_false]

end Token

namespace Names

open Token

namespace Substituted

variable {mnemonic : Text} {address : Int} {symbols : List Symbol} {before : Option Char}
  {t u v : Text} {names : List Text}

/-- Characters that open no token are kept behind one that opens none. -/
theorem append_of_not_opens {s : Text} (hs : ∀ c ∈ s, opens c = false)
    (hbefore : Token.mayBegin before = false)
    (h : Substituted mnemonic address symbols (lastOr before s) t u names) :
    Substituted mnemonic address symbols before (s ++ t) (s ++ u) names := by
  induction s generalizing before with
  | nil => exact h
  | cons c s ih =>
    obtain ⟨hc, hs⟩ := List.forall_mem_cons.mp hs
    rw [lastOr_cons] at h
    exact .other (fun w _ => standsAt_of_not_mayBegin hbefore _ _) (ih hs hc h)

/-- A literal is kept. -/
theorem append_literal (hplain : ∀ s ∈ symbols, IsPlainName s.name) {digits : Text}
    (hdigits : ∀ c ∈ digits, opens c = false)
    (h : Substituted mnemonic address symbols (lastOr before ('$' :: digits)) t u names) :
    Substituted mnemonic address symbols before (('$' :: digits) ++ t) (('$' :: digits) ++ u)
      names := by
  rw [lastOr_cons] at h
  refine .other (fun w hw => ?_) (append_of_not_opens hdigits rfl h)
  exact standsAt_cons_of_ne (hplain w hw).ne_nil ((hplain w hw).head?_ne (by decide)) _ _

/-- A token at the front that has become its literal is passed over as it would have been
replaced. -/
theorem of_front_replaced (hplain : ∀ s ∈ symbols, IsPlainName s.name)
    (hnodup : (symbols.map Symbol.name).Nodup) {s : Symbol} (hs : s ∈ symbols)
    {rest literal : Text} (hstands : standsAt s.name before (s.name ++ rest) = true)
    (hliteral : Replacement.text mnemonic before s.address address s.name = .ok literal)
    (h : Substituted mnemonic address symbols before (s.name ++ rest) v names) :
    ∃ names', Substituted mnemonic address symbols before (literal ++ rest) v names'
      ∧ names = s.name :: names' := by
  generalize htext : s.name ++ rest = text at h hstands
  cases h with
  | done =>
    rw [(hplain s hs).standsAt_nil] at hstands
    cases hstands
  | @token _ _ literal' rest' names' w hw hstands' hliteral' hrest =>
    have hname : s.name = w.name := by
      rw [eq_takeWhile_of_standsAt (hplain s hs) hstands,
        ← eq_takeWhile_of_standsAt (hplain w hw) hstands']
    obtain rfl := List.inj_on_of_nodup_map hnodup hs hw hname
    obtain rfl := Except.ok.inj (hliteral'.symm.trans hliteral)
    obtain ⟨digits, rfl, hdigits⟩ := Replacement.exists_digits_of_text hliteral
    rw [← htext, List.drop_left] at hrest
    refine ⟨names', append_literal hplain hdigits (hrest.of_not_mayBegin ?_ ?_), rfl⟩
    · exact (hplain s hs).mayBegin_lastOr before
    · exact mayBegin_lastOr_of_forall (List.cons_ne_nil _ _)
        (List.forall_mem_cons.mpr ⟨by decide, hdigits⟩) before
  | other hnone _ =>
    rw [hnone s hs] at hstands
    cases hstands

/-- When a token has become its literal, replacing the others gives what replacing all of them
gives. -/
theorem of_replaced (hplain : ∀ s ∈ symbols, IsPlainName s.name)
    (hnodup : (symbols.map Symbol.name).Nodup) {s : Symbol} (hs : s ∈ symbols)
    {front rest literal : Text}
    (hstands : standsAt s.name (lastOr before front) (s.name ++ rest) = true)
    (hliteral : Replacement.text mnemonic (lastOr before front) s.address address s.name
      = .ok literal)
    (h : Substituted mnemonic address symbols before (front ++ (s.name ++ rest)) v names) :
    ∃ names', Substituted mnemonic address symbols before (front ++ (literal ++ rest)) v names'
      ∧ names.Perm (s.name :: names') := by
  -- a token in front is passed over as a whole, so the induction is on the length
  induction hlength : front.length using Nat.strong_induction_on
    generalizing before front v names with
  | _ n ih =>
    subst hlength
    cases front with
    | nil =>
      obtain ⟨names', hall, rfl⟩ := of_front_replaced hplain hnodup hs hstands hliteral h
      exact ⟨names', hall, .refl _⟩
    | cons c front =>
      have hbegin := (of_standsAt hstands).1
      have hkept : ∀ w ∈ symbols, ∀ x, standsAt w.name before (c :: front ++ x)
          = standsAt w.name before (c :: front) := fun w hw x =>
        standsAt_append_eq (hplain w hw) (List.cons_ne_nil c front) hbegin x
      rw [List.cons_append] at h
      cases h with
      | @token _ _ literal' rest' names₁ w hw hstands' hliteral' hrest =>
        rw [← List.cons_append, hkept w hw] at hstands'
        obtain ⟨-, behind, hsplit, -⟩ := of_standsAt hstands'
        rw [hsplit, lastOr_append] at hstands hliteral
        have hshorter : behind.length < (c :: front).length := by
          have hpos := List.length_pos_iff.mpr (hplain w hw).ne_nil
          rw [hsplit, List.length_append]
          omega
        rw [← List.cons_append, hsplit, List.append_assoc, List.drop_left] at hrest
        obtain ⟨names', hall, hperm⟩ := ih _ hshorter hstands hliteral hrest rfl
        refine ⟨w.name :: names', .token hw ?_ hliteral' ?_,
          (hperm.cons _).trans (List.Perm.swap _ _ _)⟩
        · rw [hkept w hw]
          exact hstands'
        · rw [hsplit, List.append_assoc, List.drop_left]
          exact hall
      | other hnone hrest =>
        rw [lastOr_cons] at hstands hliteral
        obtain ⟨names', hall, hperm⟩ := ih _ (Nat.lt_succ_self _) hstands hliteral hrest rfl
        refine ⟨names', .other (fun w hw => ?_) hall, hperm⟩
        exact (hkept w hw _).trans ((hkept w hw _).symm.trans (hnone w hw))

/-- Where no token was replaced the text is the same. -/
theorem eq_of_nil (h : Substituted mnemonic address symbols before t u []) : u = t := by
  generalize hnames : ([] : List Text) = names at h
  induction h with
  | done => rfl
  | token => cases hnames
  | other hnone hrest ih => rw [ih hnames]

/-- A name that is not found is not replaced. -/
theorem not_mem_of_scan_eq_none (hplain : ∀ s ∈ symbols, IsPlainName s.name)
    (h : Substituted mnemonic address symbols before t u names) {name : Text} {i : Nat}
    (hscan : Token.scan name before t i = none) : name ∉ names := by
  induction h generalizing i with
  | done => exact List.not_mem_nil
  | @token before t literal rest names w hw hstands hliteral hrest ih =>
    obtain ⟨-, behind, rfl, -⟩ := of_standsAt hstands
    obtain ⟨c, word, hname⟩ := List.exists_cons_of_ne_nil (hplain w hw).ne_nil
    have hopens := (hplain w hw).opens_eq_false
    rw [hname] at hopens hstands hscan ih ⊢
    obtain ⟨hc, hword⟩ := List.forall_mem_cons.mp hopens
    rw [List.cons_append] at hstands hscan
    rw [Token.scan] at hscan
    split at hscan
    · cases hscan
    · rename_i hnot
      have hbegin : Token.mayBegin (some c) = false := hc
      rw [scan_append_of_not_mayBegin hword hbegin, ← lastOr_cons before] at hscan
      rw [List.drop_left] at ih
      refine List.not_mem_cons_of_ne_of_not_mem ?_ (ih hscan)
      rintro rfl
      exact hnot hstands
  | other hnone hrest ih =>
    rw [Token.scan] at hscan
    split at hscan
    · cases hscan
    · exact ih hscan

/-- The names that are replaced are the reported ones that are names of the table and tokens
where they were found.  At the start of an operand a name may be reported that is no token. -/
theorem names_eq (hname : ∀ s ∈ symbols, IsWord s.name ∧ ∀ c ∈ s.name.head?, isFirst c = true)
    {done : Text} {seen : Option Char} (hbefore : done.getLast? = before)
    (hseen : Token.mayBegin before = true → Names.mayBegin seen = true)
    (h : Substituted mnemonic address symbols before t u names) :
    names = ((places seen done.length t).filter fun p =>
      decide (p.name ∈ symbols.map Symbol.name) && p.isToken (done ++ t)).map Place.name := by
  induction h generalizing done seen with
  | done => rfl
  | @token before t literal rest names s hs hstands hliteral hrest ih =>
    obtain ⟨hbegin, behind, rfl, hend⟩ := of_standsAt hstands
    obtain ⟨⟨hne, hword⟩, hfirst⟩ := hname s hs
    obtain ⟨c, word, heq⟩ := List.exists_cons_of_ne_nil hne
    have hsame : lastOr before s.name = lastOr seen s.name := by
      rw [heq, lastOr_cons, lastOr_cons]
    have hplaces : places seen done.length (s.name ++ behind)
        = ⟨done.length, s.name⟩ :: places (lastOr seen s.name) (done ++ s.name).length behind := by
      rw [heq] at hword hfirst
      rw [heq, List.length_append]
      exact places_word (hfirst c rfl) (List.forall_mem_cons.mp hword).2 (mayEnd_of_token hend)
        (hseen hbegin) _
    have hhere : (decide (s.name ∈ symbols.map Symbol.name)
        && Place.isToken (done ++ (s.name ++ behind)) ⟨done.length, s.name⟩) = true := by
      rw [Place.isToken_append, hbefore, hstands, Bool.and_true, decide_eq_true_iff]
      exact List.mem_map_of_mem hs
    have hlast : (done ++ s.name).getLast? = lastOr before s.name := by
      rw [List.getLast?_append, hbefore, lastOr]
    have hlater := ih hlast fun h => by
      rw [hsame] at h
      exact mayBegin_of_token h
    rw [List.drop_left, List.append_assoc] at hlater
    rw [hplaces, List.filter_cons, if_pos hhere, List.map_cons, ← hlater]
  | @other before c t rest names hnone hrest ih =>
    have hlast : (done ++ [c]).getLast? = some c := List.getLast?_concat
    have hlater := ih hlast mayBegin_of_token
    rw [List.append_assoc, List.singleton_append, List.length_append, List.length_singleton]
      at hlater
    rw [places]
    split
    · rw [List.filter_cons, if_neg, ← hlater]
      rw [Place.isToken_append, hbefore, Bool.and_eq_true, decide_eq_true_iff]
      rintro ⟨hmem, hstands⟩
      obtain ⟨s, hs, heq⟩ := List.mem_map.mp hmem
      have hhere : s.name = c :: t.takeWhile isFurther := heq
      rw [← hhere, hnone s hs] at hstands
      cases hstands
    · exact hlater

end Substituted

/-- Zeros can be put in place of all tokens. -/
theorem exists_substituted_null (mnemonic : Text) {names : List Text}
    (hplain : ∀ n ∈ names, IsPlainName n) (before : Option Char) (t : Text) :
    ∃ u tokens,
      Substituted mnemonic 0 (Replacement.nullSymbols mnemonic names) before t u tokens := by
  induction hlength : t.length using Nat.strong_induction_on generalizing before t with
  | _ n ih =>
    subst hlength
    cases t with
    | nil => exact ⟨[], [], .done before⟩
    | cons c t =>
      by_cases hstands : ∃ name ∈ names, standsAt name before (c :: t) = true
      · obtain ⟨name, hname, hstands⟩ := hstands
        obtain ⟨u, tokens, hrest⟩ :=
          ih _ (length_drop_lt (hplain name hname) hstands) (lastOr before name) _ rfl
        have hmem : Replacement.nullSymbol mnemonic name ∈ Replacement.nullSymbols mnemonic names :=
          Replacement.nullSymbol_mem_nullSymbols.mpr hname
        exact ⟨_, _, .token hmem hstands (Replacement.text_nullSymbol mnemonic name before) hrest⟩
      · obtain ⟨u, tokens, hrest⟩ := ih _ (Nat.lt_succ_self _) (some c) t rfl
        refine ⟨_, _, .other (fun s hs => ?_) hrest⟩
        obtain ⟨name, hname, rfl⟩ := Replacement.exists_of_mem_nullSymbols hs
        exact Bool.eq_false_iff.mpr fun h => hstands ⟨name, hname, h⟩

/-! ## Token by token -/

/-- The first token of a name becomes its zero. -/
theorem holdPlace_middle {b : LineBuffer} {front name rest : Text}
    (hb : b.text = front ++ name ++ rest)
    (hfind : find? b.text name operandStart = some front.length)
    {r : LineBuffer × Option Nat} (h : holdPlace b name = .ok r) :
    r = ({ b with text := front ++ Replacement.placeholder (b.text.take 3) front.getLast? ++ rest },
      some front.length) := by
  rw [holdPlace, hfind] at h
  obtain ⟨b₁, hsplice, h⟩ := Outcome.bind_eq_ok_iff.mp h
  cases h
  have hbefore : before? b.text front.length = front.getLast? := by
    rw [hb, List.append_assoc, before?_append_length]
  rw [hbefore, LineBuffer.splice_middle hb] at hsplice
  split at hsplice
  · cases hsplice
  · cases hsplice
    rfl

section TokenByToken

variable {all : List Text} (hplain : ∀ n ∈ all, IsPlainName n) {b : LineBuffer}
  {done rest out : Text} {tokens : List Text}

include hplain

/-- A name is asked for and there is no token of it, or one token less is left to replace. -/
theorem substituted_holdPlace {name : Text} (hname : name ∈ all) (hb : b.text = done ++ rest)
    (hdone : done.length = operandStart)
    (hout : Substituted done 0 (Replacement.nullSymbols done all) done.getLast? rest out tokens)
    {r : LineBuffer × Option Nat} (h : holdPlace b name = .ok r) :
    r = (b, none) ∧ name ∉ tokens
      ∨ ∃ i rest' tokens', r = ({ b with text := done ++ rest' }, some i)
        ∧ Substituted done 0 (Replacement.nullSymbols done all) done.getLast? rest' out tokens'
        ∧ tokens.Perm (name :: tokens') := by
  have hsymbols : ∀ s ∈ Replacement.nullSymbols done all, IsPlainName s.name := by
    intro s hs
    obtain ⟨n, hn, rfl⟩ := Replacement.exists_of_mem_nullSymbols hs
    exact hplain n hn
  have hnodup : ((Replacement.nullSymbols done all).map Symbol.name).Nodup := by
    rw [Replacement.map_name_nullSymbols]
    exact List.nodup_dedup all
  have hfind := find?_append name done rest
  rw [← hb, hdone] at hfind
  cases hscan : Token.scan name done.getLast? rest operandStart with
  | none =>
    rw [holdPlace, hfind, hscan] at h
    cases h
    exact .inl ⟨rfl, hout.not_mem_of_scan_eq_none hsymbols hscan⟩
  | some i =>
    obtain ⟨front, behind, rfl, rfl, hbegin, hend⟩ := of_scan hscan
    have hsplit : b.text = (done ++ front) ++ name ++ behind := by
      rw [hb]
      simp only [List.append_assoc]
    have htake : b.text.take 3 = done := by
      rw [hb]
      exact List.take_left' hdone
    have hlast : (done ++ front).getLast? = lastOr done.getLast? front := by
      rw [lastOr, List.getLast?_append]
    have hstands : standsAt name (lastOr done.getLast? front) (name ++ behind) = true := by
      rw [standsAt, hbegin, List.isPrefixOf_iff_prefix.mpr (List.prefix_append name behind),
        List.drop_left, hend]
      rfl
    rw [hscan, ← hdone, ← List.length_append, hdone] at hfind
    rw [List.append_assoc] at hout
    obtain ⟨tokens', hout', hperm⟩ := hout.of_replaced hsymbols hnodup
      (Replacement.nullSymbol_mem_nullSymbols.mpr hname) hstands
      (Replacement.text_nullSymbol done name _)
    refine .inr ⟨(done ++ front).length, _, tokens', ?_, hout', hperm⟩
    rw [holdPlace_middle hsplit hfind h, htake, hlast, List.append_assoc, List.append_assoc]

/-- A list that names every token as often as it stands in the operand has them all replaced,
and gives back those. -/
theorem substituted_holdPlaces {number : Nat} {names pending : List Text} {b' : LineBuffer}
    (hnames : ∀ n ∈ names, n ∈ all) (hb : b.text = done ++ rest)
    (hdone : done.length = operandStart)
    (hout : Substituted done 0 (Replacement.nullSymbols done all) done.getLast? rest out tokens)
    (hcount : ∀ n, tokens.count n ≤ names.count n)
    (h : (Statement.holdPlaces number names b).outcome = .ok (b', pending)) :
    b' = { b with text := done ++ out } ∧ pending.Perm tokens := by
  induction names generalizing b pending tokens rest with
  | nil =>
    have htokens : tokens = [] := by
      refine List.eq_nil_iff_forall_not_mem.mpr fun n hn => ?_
      have hpos := List.count_pos_iff.mpr hn
      have hzero := hcount n
      rw [List.count_nil] at hzero
      omega
    subst htokens
    cases h
    rw [hout.eq_of_nil, ← hb]
    exact ⟨rfl, .refl _⟩
  | cons name names ih =>
    obtain ⟨hname, hnames⟩ := List.forall_mem_cons.mp hnames
    obtain ⟨b₁, hhold, hrest⟩ | ⟨b₁, i, more, hhold, hrest, rfl⟩ :=
      Statement.outcome_holdPlaces_cons_eq_ok_iff.mp h
    · obtain ⟨heq, hnot⟩ | ⟨_, _, _, heq, -⟩ :=
        substituted_holdPlace hplain hname hb hdone hout hhold
      · cases heq
        refine ih hnames hb hout (fun n => ?_) hrest
        by_cases hn : n = name
        · rw [hn, List.count_eq_zero_of_not_mem hnot]
          exact Nat.zero_le _
        · have hle := hcount n
          rwa [List.count_cons_of_ne (Ne.symm hn)] at hle
      · cases heq
    · obtain ⟨heq, -⟩ | ⟨_, rest', tokens', heq, hout', hperm⟩ :=
        substituted_holdPlace hplain hname hb hdone hout hhold
      · cases heq
      · cases heq
        have hless : ∀ n, tokens'.count n ≤ names.count n := by
          intro n
          have hle := hcount n
          rw [hperm.count_eq, List.count_cons, List.count_cons] at hle
          exact Nat.le_of_add_le_add_right hle
        obtain ⟨hbuffer, hpending⟩ := ih hnames rfl hout' hless hrest
        exact ⟨hbuffer, (hpending.cons name).trans hperm.symm⟩

end TokenByToken

end Names

end Cross6502
