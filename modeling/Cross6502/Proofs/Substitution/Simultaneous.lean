import Cross6502.Proofs.Outcome
import Cross6502.Proofs.Substitution.PlainName
import Cross6502.Proofs.Symbol.Table

/-!
# All names at once

The names of a table are replaced one after another, each from left to right, in a line
that changes under the search.  For names made of letters, digits and underscores the
order does not matter: the result is the line in which every token that is a name of the
table has become its literal, all at once, and everything else is as it was
(`Names.Substituted`).

Two observations carry the proof.  A token begins behind an opener, and neither a name nor
a literal holds one.  So what is inside a name or a literal is passed over, and a
replacement further on does not touch the text up to the next opener, which decides whether
a name stands here.  And a literal begins with a dollar sign, with which no name begins, so
no name stands where a literal was put.

Hence replacing one symbol and then the others is replacing all of them
(`Names.Substituted.comp`), what is replaced does not depend on the order of the table, and
in the result there is nothing left to replace.
-/

namespace Cross6502

/-- What stands in for a name is a dollar sign, and nothing behind it opens a token. -/
theorem Replacement.exists_digits_of_text {mnemonic name literal : Text} {before : Option Char}
    {value address : Int} (h : text mnemonic before value address name = .ok literal) :
    ∃ digits, literal = '$' :: digits ∧ ∀ c ∈ digits, Token.opens c = false := by
  obtain ⟨n, rfl⟩ := exists_literal_of_text h
  exact ⟨_, literal_eq _ n, fun c hc =>
    Token.opens_of_mem_literal (isHexRun_lowerHex _ n) (List.mem_cons_of_mem '$' hc)⟩

namespace Names

open Token

/-! ## Replacing all tokens at once -/

/-- A text in which every token that is a name of one of the symbols has become its
literal, given the character before the text, and the names in the order they stand in.

The literal depends on the character before the name.  Any other character is kept. -/
inductive Substituted (mnemonic : Text) (address : Int) (symbols : List Symbol) :
    Option Char → Text → Text → List Text → Prop
  | done (before : Option Char) : Substituted mnemonic address symbols before [] [] []
  | token {before : Option Char} {t literal rest : Text} {names : List Text} {s : Symbol}
      (hs : s ∈ symbols) (hstands : standsAt s.name before t = true)
      (hliteral : Replacement.text mnemonic before s.address address s.name = .ok literal)
      (hrest : Substituted mnemonic address symbols (lastOr before s.name)
        (t.drop s.name.length) rest names) :
      Substituted mnemonic address symbols before t (literal ++ rest) (s.name :: names)
  | other {before : Option Char} {c : Char} {t rest : Text} {names : List Text}
      (hnone : ∀ s ∈ symbols, standsAt s.name before (c :: t) = false)
      (hrest : Substituted mnemonic address symbols (some c) t rest names) :
      Substituted mnemonic address symbols before (c :: t) (c :: rest) names

namespace Substituted

variable {mnemonic : Text} {address : Int} {symbols : List Symbol} {before before' : Option Char}
  {t u v : Text} {names names' : List Text}

/-- Where no token can begin, it does not matter which character is in front. -/
theorem of_not_mayBegin (h : Substituted mnemonic address symbols before t u names)
    (hbefore : Token.mayBegin before = false) (hbefore' : Token.mayBegin before' = false) :
    Substituted mnemonic address symbols before' t u names := by
  cases h with
  | done => exact .done before'
  | token hs hstands hliteral hrest =>
    rw [standsAt_of_not_mayBegin hbefore] at hstands
    cases hstands
  | other hnone hrest => exact .other (fun s _ => standsAt_of_not_mayBegin hbefore' _ _) hrest

/-- Characters that open no token are kept behind one that opens none. -/
theorem of_append {s : Text} (hs : ∀ c ∈ s, opens c = false)
    (hbefore : Token.mayBegin before = false)
    (h : Substituted mnemonic address symbols before (s ++ t) u names) :
    ∃ rest, u = s ++ rest
      ∧ Substituted mnemonic address symbols (lastOr before s) t rest names := by
  induction s generalizing before u with
  | nil => exact ⟨u, rfl, h⟩
  | cons c s ih =>
    rw [List.cons_append] at h
    cases h with
    | token hmem hstands hliteral hrest =>
      rw [standsAt_of_not_mayBegin hbefore] at hstands
      cases hstands
    | other hnone hrest =>
      have hc : Token.mayBegin (some c) = false := hs c List.mem_cons_self
      obtain ⟨rest, rfl, hrest⟩ := ih (fun d hd => hs d (List.mem_cons_of_mem c hd)) hc hrest
      exact ⟨rest, rfl, by rwa [lastOr_cons]⟩

/-- Behind a character that opens no token, everything is kept up to the next opener. -/
theorem field_eq (h : Substituted mnemonic address symbols before t u names)
    (hbefore : Token.mayBegin before = false) : field u = field t := by
  induction h with
  | done => rfl
  | token hs hstands hliteral hrest ih =>
    rw [standsAt_of_not_mayBegin hbefore] at hstands
    cases hstands
  | @other before c t rest names hnone hrest ih =>
    cases hc : opens c with
    | true => rw [field_cons_of_opens hc, field_cons_of_opens hc]
    | false => rw [field_cons_of_not_opens hc, field_cons_of_not_opens hc, ih hc]

/-- A replacement further on does not change whether a plain name stands here. -/
theorem standsAt_cons {c : Char} {name : Text} (hname : IsPlainName name)
    (h : Substituted mnemonic address symbols (some c) t u names) (before : Option Char) :
    standsAt name before (c :: u) = standsAt name before (c :: t) := by
  cases hc : opens c with
  | true =>
    have hne : name.head? ≠ some c := fun hhead => by
      rw [hname.opens_eq_false c (List.mem_of_mem_head? hhead)] at hc
      cases hc
    rw [standsAt_cons_of_ne hname.ne_nil hne, standsAt_cons_of_ne hname.ne_nil hne]
  | false =>
    rw [← standsAt_field hname.opens_eq_false before (c :: u),
      ← standsAt_field hname.opens_eq_false before (c :: t), field_cons_of_not_opens hc,
      field_cons_of_not_opens hc, h.field_eq hc]

/-- A plain name that stands where nothing is replaced is kept. -/
theorem behind_name {c : Char} {name : Text} (hname : IsPlainName name)
    (hstands : standsAt name before (c :: t) = true)
    (h : Substituted mnemonic address symbols (some c) t u names) :
    Substituted mnemonic address symbols (lastOr before name) ((c :: t).drop name.length)
      ((c :: u).drop name.length) names := by
  obtain ⟨-, rest, hsplit, -⟩ := of_standsAt hstands
  obtain ⟨d, word, rfl⟩ := List.exists_cons_of_ne_nil hname.ne_nil
  rw [List.cons_append] at hsplit
  obtain ⟨rfl, rfl⟩ := List.cons.inj hsplit
  obtain ⟨hc, hword⟩ := List.forall_mem_cons.mp hname.opens_eq_false
  have hbegin : Token.mayBegin (some c) = false := hc
  obtain ⟨u', rfl, hrest⟩ := h.of_append hword hbegin
  rw [← List.cons_append, ← List.cons_append, List.drop_left, List.drop_left, lastOr_cons]
  exact hrest

/-- A literal is passed over: no name begins with a dollar sign, and behind the sign nothing
opens a token. -/
theorem of_literal {digits : Text} (hplain : ∀ s ∈ symbols, IsPlainName s.name)
    (hdigits : ∀ c ∈ digits, opens c = false)
    (h : Substituted mnemonic address symbols before (('$' :: digits) ++ t) u names) :
    ∃ rest, u = ('$' :: digits) ++ rest
      ∧ Substituted mnemonic address symbols (lastOr before ('$' :: digits)) t rest names := by
  rw [List.cons_append] at h
  cases h with
  | token hs hstands _ _ =>
    have hne := (hplain _ hs).head?_ne (c := '$') (by decide)
    rw [standsAt_cons_of_ne (hplain _ hs).ne_nil hne] at hstands
    cases hstands
  | other hnone hrest =>
    obtain ⟨rest, rfl, hrest⟩ := of_append hdigits rfl hrest
    exact ⟨rest, rfl, by rwa [lastOr_cons]⟩

/-- Replacing one symbol and then others is replacing all of them. -/
theorem comp {s : Symbol} (hs : IsPlainName s.name) (hplain : ∀ w ∈ symbols, IsPlainName w.name)
    (h : Substituted mnemonic address [s] before t u names)
    (h' : Substituted mnemonic address symbols before u v names') :
    ∃ all, Substituted mnemonic address (s :: symbols) before t v all
      ∧ all.Perm (names ++ names') := by
  induction hlength : t.length using Nat.strong_induction_on
    generalizing before t u v names names' with
  | _ n ih =>
    subst hlength
    cases h with
    | done =>
      cases h' with
      | done => exact ⟨[], .done before, .refl _⟩
      | token hw hstands _ _ =>
        obtain ⟨-, rest, hnil, -⟩ := of_standsAt hstands
        exact absurd (List.append_eq_nil_iff.mp hnil.symm).1 (hplain _ hw).ne_nil
    | @token _ _ literal rest names₁ w hmem hstands hliteral hrest =>
      obtain rfl := List.mem_singleton.mp hmem
      obtain ⟨digits, rfl, hdigits⟩ := Replacement.exists_digits_of_text hliteral
      obtain ⟨v', rfl, hrest'⟩ := of_literal hplain hdigits h'
      have hbehind := hrest'.of_not_mayBegin
        (mayBegin_lastOr_of_forall (List.cons_ne_nil _ _)
          (List.forall_mem_cons.mpr ⟨by decide, hdigits⟩) before)
        (hs.mayBegin_lastOr before)
      obtain ⟨all, hall, hperm⟩ := ih _ (length_drop_lt hs hstands) hrest hbehind rfl
      exact ⟨w.name :: all, .token List.mem_cons_self hstands hliteral hall, hperm.cons _⟩
    | @other _ c t rest names₁ hnone hrest =>
      cases h' with
      | token hw hstands hliteral hrest' =>
        rw [hrest.standsAt_cons (hplain _ hw)] at hstands
        obtain ⟨all, hall, hperm⟩ := ih _ (length_drop_lt (hplain _ hw) hstands)
          (hrest.behind_name (hplain _ hw) hstands) hrest' rfl
        exact ⟨_, .token (List.mem_cons_of_mem s hw) hstands hliteral hall,
          (hperm.cons _).trans List.perm_middle.symm⟩
      | other hnone' hrest' =>
        obtain ⟨all, hall, hperm⟩ := ih _ (Nat.lt_succ_self _) hrest hrest' rfl
        refine ⟨all, .other (List.forall_mem_cons.mpr ⟨hnone s (List.mem_singleton_self s),
          fun w hw => ?_⟩) hall, hperm⟩
        rw [← hrest.standsAt_cons (hplain w hw)]
        exact hnone' w hw

/-- What is replaced depends on the symbols and not on their order. -/
theorem of_mem_iff {symbols' : List Symbol} (hmem : ∀ s, s ∈ symbols ↔ s ∈ symbols')
    (h : Substituted mnemonic address symbols before t u names) :
    Substituted mnemonic address symbols' before t u names := by
  induction h with
  | done before => exact .done before
  | token hs hstands hliteral _ ih => exact .token ((hmem _).mp hs) hstands hliteral ih
  | other hnone _ ih => exact .other (fun s hs => hnone s ((hmem s).mpr hs)) ih

/-- Replacing has one result only. -/
theorem unique (hplain : ∀ s ∈ symbols, IsPlainName s.name)
    (hnodup : (symbols.map Symbol.name).Nodup)
    (h : Substituted mnemonic address symbols before t u names)
    (h' : Substituted mnemonic address symbols before t v names') : u = v ∧ names = names' := by
  induction h generalizing v names' with
  | done =>
    cases h' with
    | done => exact ⟨rfl, rfl⟩
    | token hs hstands _ _ => exact absurd (length_drop_lt (hplain _ hs) hstands) (by simp)
  | @token before t literal rest names s hs hstands hliteral hrest ih =>
    cases h' with
    | done => exact absurd (length_drop_lt (hplain _ hs) hstands) (by simp)
    | @token _ _ literal' rest' names₁ w hw hstands' hliteral' hrest' =>
      have hname : s.name = w.name := by
        rw [eq_takeWhile_of_standsAt (hplain s hs) hstands,
          ← eq_takeWhile_of_standsAt (hplain w hw) hstands']
      obtain rfl := List.inj_on_of_nodup_map hnodup hs hw hname
      rw [hliteral] at hliteral'
      obtain rfl := Except.ok.inj hliteral'
      obtain ⟨rfl, rfl⟩ := ih hrest'
      exact ⟨rfl, rfl⟩
    | other hnone _ =>
      rw [hnone s hs] at hstands
      cases hstands
  | other hnone hrest ih =>
    cases h' with
    | token hs hstands _ _ =>
      rw [hnone _ hs] at hstands
      cases hstands
    | other _ hrest' =>
      obtain ⟨rfl, rfl⟩ := ih hrest'
      exact ⟨rfl, rfl⟩

/-- In the result no name is left. -/
theorem scan_eq_none (hplain : ∀ s ∈ symbols, IsPlainName s.name)
    (h : Substituted mnemonic address symbols before t u names) {s : Symbol} (hs : s ∈ symbols)
    (i : Nat) : Token.scan s.name before u i = none := by
  induction h generalizing i with
  | done => rw [Token.scan, if_neg (by simp [(hplain s hs).standsAt_nil])]
  | @token before t literal rest names w hw hstands hliteral hrest ih =>
    obtain ⟨digits, rfl, hdigits⟩ := Replacement.exists_digits_of_text hliteral
    have hdollar := (hplain s hs).head?_ne (c := '$') (by decide)
    have hlast := mayBegin_lastOr_of_forall (List.cons_ne_nil '$' digits)
      (List.forall_mem_cons.mpr ⟨by decide, hdigits⟩) before
    rw [List.cons_append, Token.scan,
      if_neg (by simp [standsAt_cons_of_ne (hplain s hs).ne_nil hdollar]),
      scan_append_of_not_mayBegin hdigits rfl, ← lastOr_cons before,
      scan_of_not_mayBegin hlast ((hplain w hw).mayBegin_lastOr before), ih]
  | other hnone hrest ih =>
    rw [Token.scan, hrest.standsAt_cons (hplain s hs), if_neg (by simp [hnone s hs]), ih]

/-- A text in which no symbol is found is left alone. -/
theorem of_scan_eq_none {i : Nat}
    (h : ∀ s ∈ symbols, Token.scan s.name before t i = none) :
    Substituted mnemonic address symbols before t t [] := by
  induction t generalizing before i with
  | nil => exact .done before
  | cons c t ih =>
    have hscan : ∀ s ∈ symbols, standsAt s.name before (c :: t) = false
        ∧ Token.scan s.name (some c) t (i + 1) = none := by
      intro s hs
      have hnone := h s hs
      rw [Token.scan] at hnone
      split at hnone
      · cases hnone
      · rename_i hstands
        exact ⟨Bool.eq_false_iff.mpr hstands, hnone⟩
    exact .other (fun s hs => (hscan s hs).1) (ih fun s hs => (hscan s hs).2)

/-- Up to the place where a symbol is found, a text is left alone. -/
theorem of_scan_eq_some (mnemonic : Text) (address : Int) {s : Symbol} {i j : Nat}
    (h : Token.scan s.name before t i = some j) :
    ∃ front back, t = front ++ back ∧ j = i + front.length
      ∧ standsAt s.name (lastOr before front) back = true
      ∧ ∀ u names, Substituted mnemonic address [s] (lastOr before front) back u names →
        Substituted mnemonic address [s] before t (front ++ u) names := by
  induction t generalizing before i with
  | nil =>
    rw [Token.scan] at h
    split at h
    · rename_i hstands
      cases h
      exact ⟨[], [], rfl, rfl, hstands, fun u names hu => hu⟩
    · cases h
  | cons c t ih =>
    rw [Token.scan] at h
    split at h
    · rename_i hstands
      cases h
      exact ⟨[], c :: t, rfl, rfl, hstands, fun u names hu => hu⟩
    · rename_i hstands
      obtain ⟨front, back, rfl, rfl, hfound, hall⟩ := ih h
      rw [← lastOr_cons before] at hfound hall
      refine ⟨c :: front, back, rfl, by rw [List.length_cons]; omega, hfound, fun u names hu => ?_⟩
      exact .other (List.forall_mem_singleton.mpr (Bool.eq_false_iff.mpr hstands)) (hall u names hu)

end Substituted

/-! ## Replacing symbol by symbol -/

variable {mnemonic : Text} {address : Int}

theorem of_replaceAt {s : Symbol} {b b' : LineBuffer} {front back : Text} {next : Nat}
    (hb : b.text = front ++ s.name ++ back)
    (h : replaceAt mnemonic address s front.length b = .ok (b', next)) :
    ∃ literal, Replacement.text mnemonic front.getLast? s.address address s.name = .ok literal
      ∧ b' = { b with text := (front ++ literal) ++ back }
      ∧ next = (front ++ literal).length := by
  obtain ⟨literal, hliteral, h⟩ := Outcome.bind_eq_ok_iff.mp h
  obtain ⟨b₁, hsplice, h⟩ := Outcome.bind_eq_ok_iff.mp h
  rw [hb, List.append_assoc, before?_append_length] at hliteral
  rw [LineBuffer.splice_middle hb] at hsplice
  split at hsplice
  · cases hsplice
  · cases hsplice
    cases h
    exact ⟨literal, hliteral, rfl, by rw [List.length_append]⟩

/-- One symbol is replaced wherever it stands behind a position. -/
theorem substituted_replaceSymbol {s : Symbol} (hs : IsPlainName s.name) {fuel : Nat}
    {b : LineBuffer} {done rest : Text} (hb : b.text = done ++ rest) (hfuel : rest.length < fuel)
    (h : (replaceSymbol mnemonic address s fuel done.length b).failure = none) :
    ∃ out, (replaceSymbol mnemonic address s fuel done.length b).buffer
        = { b with text := done ++ out }
      ∧ Substituted mnemonic address [s] done.getLast? rest out
        (replaceSymbol mnemonic address s fuel done.length b).replaced := by
  induction fuel generalizing b done rest with
  | zero => omega
  | succ fuel ih =>
    rw [replaceSymbol, hb, find?_append] at h ⊢
    cases hscan : Token.scan s.name done.getLast? rest done.length with
    | none =>
      exact ⟨rest, by rw [← hb], .of_scan_eq_none (List.forall_mem_singleton.mpr hscan)⟩
    | some i =>
      simp only [hscan] at h ⊢
      obtain ⟨front, back, rfl, rfl, hstands, hall⟩ :=
        Substituted.of_scan_eq_some mnemonic address hscan
      have hshorter := length_drop_lt hs hstands
      obtain ⟨-, rest, rfl, -⟩ := of_standsAt hstands
      rw [List.drop_left] at hshorter
      rw [← List.length_append] at h ⊢
      cases hat : replaceAt mnemonic address s (done ++ front).length b with
      | error e =>
        rw [hat] at h
        cases h
      | ok r =>
        obtain ⟨b', next⟩ := r
        simp only [hat] at h ⊢
        have hsplit : b.text = done ++ front ++ s.name ++ rest := by
          rw [hb]
          simp only [List.append_assoc]
        obtain ⟨literal, hliteral, rfl, rfl⟩ := of_replaceAt hsplit hat
        rw [List.length_append] at hfuel
        obtain ⟨out, hbuffer, hout⟩ := @ih _ (done ++ front ++ literal) rest rfl (by omega) h
        refine ⟨front ++ (literal ++ out), ?_, hall _ _ (.token List.mem_cons_self hstands ?_ ?_)⟩
        · rw [hbuffer]
          simp only [List.append_assoc]
        · rwa [lastOr, ← List.getLast?_append]
        · obtain ⟨digits, rfl, hdigits⟩ := Replacement.exists_digits_of_text hliteral
          rw [List.drop_left]
          refine hout.of_not_mayBegin ?_ (hs.mayBegin_lastOr _)
          rw [List.getLast?_append]
          exact mayBegin_lastOr_of_forall (List.cons_ne_nil _ _)
            (List.forall_mem_cons.mpr ⟨by decide, hdigits⟩) _

/-- All symbols are replaced in the operand of a line. -/
theorem substituted_replaceSymbols {symbols : List Symbol}
    (hplain : ∀ s ∈ symbols, IsPlainName s.name) {b : LineBuffer} {done rest : Text}
    (hb : b.text = done ++ rest) (hdone : done.length = operandStart)
    (h : (replaceSymbols mnemonic address symbols b).failure = none) :
    ∃ out names, (replaceSymbols mnemonic address symbols b).buffer = { b with text := done ++ out }
      ∧ Substituted mnemonic address symbols done.getLast? rest out names
      ∧ (replaceSymbols mnemonic address symbols b).replaced.Perm names := by
  induction symbols generalizing b rest with
  | nil =>
    have hnone : ∀ s ∈ ([] : List Symbol), Token.scan s.name done.getLast? rest 0 = none :=
      fun s hs => absurd hs List.not_mem_nil
    exact ⟨rest, [], by rw [← hb, replaceSymbols], .of_scan_eq_none hnone, .refl _⟩
  | cons s symbols ih =>
    obtain ⟨hs, hplain⟩ := List.forall_mem_cons.mp hplain
    have hfuel : rest.length < b.text.length + 1 := by
      rw [hb, List.length_append]
      omega
    rw [replaceSymbols, ← hdone] at h ⊢
    cases hfirst : (replaceSymbol mnemonic address s (b.text.length + 1) done.length b).failure with
    | some e =>
      simp only [hfirst] at h
      cases h
    | none =>
      simp only [hfirst] at h ⊢
      obtain ⟨out, hbuffer, hout⟩ := substituted_replaceSymbol hs hb hfuel hfirst
      rw [hbuffer] at h ⊢
      obtain ⟨out', names, hbuffer', hout', hperm⟩ := ih hplain rfl h
      obtain ⟨all, hall, hperm'⟩ := hout.comp hs hplain hout'
      exact ⟨out', all, hbuffer', hall, (hperm.append_left _).trans hperm'.symm⟩

/-- The names of a table are replaced in the operand, and nothing else is. -/
theorem substituted_resolve {b : LineBuffer} {table : SymbolTable}
    (hplain : ∀ s ∈ table.symbols, IsPlainName s.name)
    (h : (resolve b table address).failure = none) :
    ∃ operand names,
      Substituted (b.text.take 3) address table.symbols (before? b.text operandStart)
        (b.text.drop operandStart) operand names
      ∧ (resolve b table address).buffer
        = { b with text := b.text.take operandStart ++ operand }
      ∧ (resolve b table address).replaced.Perm names := by
  by_cases hlength : operandStart ≤ b.text.length
  · obtain ⟨out, names, hbuffer, hout, hperm⟩ := substituted_replaceSymbols hplain
      (List.take_append_drop operandStart b.text).symm (List.length_take_of_le hlength) h
    rw [← before?_eq_getLast? hlength] at hout
    exact ⟨out, names, hout, hbuffer, hperm⟩
  · -- a line that is too short has no operand
    have habsent : Absent table.symbols b.text := fun s _ => if_neg hlength
    have hdrop : b.text.drop operandStart = [] := List.drop_eq_nil_of_le (by omega)
    have htake : b.text.take operandStart = b.text := List.take_of_length_le (by omega)
    rw [resolve, replaceSymbols_of_absent habsent, hdrop, htake]
    exact ⟨[], [], .done _, by rw [List.append_nil], .refl _⟩

/-- Where the names of a table were replaced, none of them is left. -/
theorem absent_of_substituted {symbols : List Symbol} (hplain : ∀ s ∈ symbols, IsPlainName s.name)
    {t operand : Text} {names : List Text}
    (h : Substituted mnemonic address symbols (before? t operandStart) (t.drop operandStart) operand
      names) :
    Absent symbols (t.take operandStart ++ operand) := by
  intro s hs
  by_cases hlength : operandStart ≤ t.length
  · have hfind := find?_append s.name (t.take operandStart) operand
    rw [List.length_take_of_le hlength, ← before?_eq_getLast? hlength] at hfind
    rw [hfind, h.scan_eq_none hplain hs]
  · rw [List.drop_eq_nil_of_le (by omega)] at h
    cases h with
    | done => exact if_neg (by rw [List.append_nil, List.length_take]; omega)
    | token hw hstands _ _ => exact absurd (length_drop_lt (hplain _ hw) hstands) (by simp)

/-- **Simultaneous substitution.**  Where the names of a table are letters, digits and
underscores and replacing them in a line succeeds, the line that comes out is the one in
which every token of the operand that is a name of the table has become its literal, and
every other character is kept.  A name is given back once for every token that was
replaced.  Another order of the table gives the same line, and doing it again changes
nothing. -/
theorem resolve_simultaneous {b : LineBuffer} {table : SymbolTable} {address : Int}
    (hnodup : table.NamesNodup) (hplain : ∀ s ∈ table.symbols, IsPlainName s.name)
    (h : (resolve b table address).failure = none) :
    (∃ operand names,
      Substituted (b.text.take 3) address table.symbols (before? b.text operandStart)
        (b.text.drop operandStart) operand names
      ∧ (resolve b table address).buffer
        = { b with text := b.text.take operandStart ++ operand }
      ∧ (resolve b table address).replaced.Perm names)
    ∧ (∀ table' : SymbolTable, table'.symbols.Perm table.symbols →
      (resolve b table' address).failure = none →
      (resolve b table' address).buffer = (resolve b table address).buffer)
    ∧ ∀ address', resolve (resolve b table address).buffer table address'
      = ⟨(resolve b table address).buffer, [], none⟩ := by
  obtain ⟨operand, names, hall, hbuffer, hreplaced⟩ := substituted_resolve hplain h
  refine ⟨⟨operand, names, hall, hbuffer, hreplaced⟩, ?_, ?_⟩
  · intro table' hperm h'
    obtain ⟨operand', names', hall', hbuffer', -⟩ :=
      substituted_resolve (fun s hs => hplain s (hperm.mem_iff.mp hs)) h'
    obtain ⟨rfl, -⟩ := hall.unique hplain hnodup (hall'.of_mem_iff fun s => hperm.mem_iff)
    rw [hbuffer, hbuffer']
  · intro address'
    rw [hbuffer]
    exact replaceSymbols_of_absent (absent_of_substituted hplain hall) _ address'

/-- A table with a name that is a part of another. -/
def loops : SymbolTable where
  symbols := [.ofLabel "loop2".toList 0x1234 1, .ofLabel "loop".toList 0xABCD 2]

/-- A line with both names.  The shorter one is a token at the end only: behind a sign no
token begins. -/
def loopLine : LineBuffer where
  text := "lda loop2+loop,loop22 *loop".toList

theorem resolve_simultaneous_loops :
    (resolve loopLine loops 0).failure = none
      ∧ (resolve loopLine loops 0).buffer.text = "lda $1234+loop,loop22 *$cd".toList
      ∧ resolve (resolve loopLine loops 0).buffer loops 0
        = ⟨(resolve loopLine loops 0).buffer, [], none⟩ := by
  have hnodup : loops.NamesNodup := by
    unfold SymbolTable.NamesNodup
    decide
  have hmem : ∀ s ∈ loops.symbols, s.name ≠ [] ∧ ∀ c ∈ s.name, isWordChar c = true := by decide
  have hplain : ∀ s ∈ loops.symbols, IsPlainName s.name := fun s hs =>
    ⟨(hmem s hs).1, (hmem s hs).2⟩
  exact ⟨rfl, rfl, (resolve_simultaneous hnodup hplain rfl).2.2 0⟩

end Names

end Cross6502
