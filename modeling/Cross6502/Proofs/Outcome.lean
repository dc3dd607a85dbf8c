import Cross6502.Log

/-!
# Outcomes

How a sequence of operations that may fail ends well: each of them does.  It fails as the
first of them does that fails.  For operations that also log, the events do not matter to
the outcome, so such a sequence is taken apart in the same way (`Logged.outcome_bind`).
The events of one kind are those of the steps (`Logged.filter_log_bind_of_ok`).

Two sequences that go through related states end alike if they do so step by step
(`Logged.Alike.bind`).
-/

namespace Cross6502

namespace Outcome

variable {ε α β : Type}

theorem bind_eq_ok_iff {x : Except ε α} {f : α → Except ε β} {b : β} :
    x.bind f = .ok b ↔ ∃ a, x = .ok a ∧ f a = .ok b := by
  cases x with
  | error e => simp [Except.bind]
  | ok a => simp [Except.bind]

theorem bind_eq_error_iff {x : Except ε α} {f : α → Except ε β} {e : ε} :
    x.bind f = .error e ↔ x = .error e ∨ ∃ a, x = .ok a ∧ f a = .error e := by
  cases x with
  | error e => simp [Except.bind]
  | ok a => simp [Except.bind]

theorem map_eq_ok_iff {x : Except ε α} {f : α → β} {b : β} :
    x.map f = .ok b ↔ ∃ a, x = .ok a ∧ f a = b := by
  cases x with
  | error e => simp [Except.map]
  | ok a => simp [Except.map]

end Outcome

namespace Logged

variable {α β : Type}

@[simp] theorem outcome_bind (x : Logged α) (f : α → Logged β) :
    (x >>= f).outcome = x.outcome.bind fun a => (f a).outcome := by
  obtain ⟨log, outcome⟩ := x
  cases outcome <;> rfl

@[simp] theorem outcome_ofExcept (x : Except Failure α) : (ofExcept x).outcome = x := rfl

@[simp] theorem outcome_say (e : Event) : (say e).outcome = .ok () := rfl

@[simp] theorem outcome_ok (a : α) : (ok a).outcome = .ok a := rfl

@[simp] theorem outcome_fail (e : Failure) : (fail e : Logged α).outcome = .error e := rfl

@[simp] theorem outcome_tell (es : List Event) : (tell es).outcome = .ok () := rfl

/-- Taking a failure for another one does not make a success of it. -/
theorem outcome_mapFailure_eq_ok_iff {f : Failure → Failure} {x : Logged α} {a : α} :
    (x.mapFailure f).outcome = .ok a ↔ x.outcome = .ok a := by
  obtain ⟨log, outcome⟩ := x
  cases outcome with
  | ok b => exact Iff.rfl
  | error e =>
    constructor <;> (intro h; cases h)

/-- Events that can be told are. -/
theorem report_of_canBeTold {es : List Event} (h : ∀ e ∈ es, e.canBeTold = true) :
    report es = ⟨es, .ok ()⟩ := by
  induction es with
  | nil => rfl
  | cons e es ih =>
    obtain ⟨he, hes⟩ := List.forall_mem_cons.mp h
    rw [report, if_pos he, ih hes]

/-- The events of a step that succeeds come before those of what follows it. -/
theorem log_bind_of_ok {x : Logged α} {a : α} (h : x.outcome = .ok a) (f : α → Logged β) :
    (x >>= f).log = x.log ++ (f a).log := by
  obtain ⟨log, outcome⟩ := x
  cases h
  rfl

/-- The events of one kind in a step that succeeds and in what follows it. -/
theorem filter_log_bind_of_ok (kind : Event → Bool) {x : Logged α} {a : α}
    (h : x.outcome = .ok a) (f : α → Logged β) :
    (x >>= f).log.filter kind = x.log.filter kind ++ (f a).log.filter kind := by
  rw [log_bind_of_ok h, List.filter_append]

/-- Steps that log no event of a kind log none together. -/
theorem filter_log_bind_eq_nil {kind : Event → Bool} {x : Logged α} {f : α → Logged β}
    (hx : x.log.filter kind = []) (hf : ∀ a, (f a).log.filter kind = []) :
    (x >>= f).log.filter kind = [] := by
  cases h : x.outcome with
  | ok a => rw [filter_log_bind_of_ok kind h, hx, hf a, List.nil_append]
  | error e =>
    obtain ⟨log, outcome⟩ := x
    cases h
    exact hx

/-! ## Operations that end alike -/

variable {γ δ : Type}

/-- Both operations fail, or both succeed with related results. -/
def Alike (R : α → β → Prop) (x : Logged α) (y : Logged β) : Prop :=
  match x.outcome, y.outcome with
  | .ok a, .ok b => R a b
  | .error _, .error _ => True
  | _, _ => False

section Alike

variable {R : α → β → Prop} {S : γ → δ → Prop} {x : Logged α} {y : Logged β}

theorem alike_of_ok {a : α} {b : β} (hx : x.outcome = .ok a) (hy : y.outcome = .ok b)
    (h : R a b) : Alike R x y := by
  rw [Alike, hx, hy]
  exact h

theorem alike_of_error {e e' : Failure} (hx : x.outcome = .error e) (hy : y.outcome = .error e') :
    Alike R x y := by
  rw [Alike, hx, hy]
  trivial

theorem alike_of_outcome_eq {x y : Logged α} (h : x.outcome = y.outcome) : Alike Eq x y := by
  cases hy : y.outcome with
  | ok a => exact alike_of_ok (h.trans hy) hy rfl
  | error e => exact alike_of_error (h.trans hy) hy

theorem Alike.cases (h : Alike R x y) :
    (∃ a b, x.outcome = .ok a ∧ y.outcome = .ok b ∧ R a b)
      ∨ ∃ e e', x.outcome = .error e ∧ y.outcome = .error e' := by
  rw [Alike] at h
  cases hx : x.outcome with
  | ok a =>
    cases hy : y.outcome with
    | ok b =>
      rw [hx, hy] at h
      exact .inl ⟨a, b, rfl, rfl, h⟩
    | error e =>
      rw [hx, hy] at h
      cases h
  | error e =>
    cases hy : y.outcome with
    | ok b =>
      rw [hx, hy] at h
      cases h
    | error e' => exact .inr ⟨e, e', rfl, rfl⟩

/-- What follows a step that ends alike ends alike, if it does so from related states. -/
theorem Alike.bind (h : Alike R x y) {f : α → Logged γ} {g : β → Logged δ}
    (hfg : ∀ a b, x.outcome = .ok a → y.outcome = .ok b → R a b → Alike S (f a) (g b)) :
    Alike S (x >>= f) (y >>= g) := by
  rcases h.cases with ⟨a, b, hx, hy, hab⟩ | ⟨e, e', hx, hy⟩
  · have hnext := hfg a b hx hy hab
    rw [Alike, outcome_bind, outcome_bind, hx, hy]
    exact hnext
  · have hleft : (x >>= f).outcome = .error e := by
      rw [outcome_bind, hx]
      rfl
    have hright : (y >>= g).outcome = .error e' := by
      rw [outcome_bind, hy]
      rfl
    exact alike_of_error hleft hright

/-- Operations that end alike succeed together, and with related results. -/
theorem Alike.succeed (h : Alike R x y) :
    ((∃ a, x.outcome = .ok a) ↔ ∃ b, y.outcome = .ok b)
      ∧ ∀ a b, x.outcome = .ok a → y.outcome = .ok b → R a b := by
  rcases h.cases with ⟨a, b, hx, hy, hab⟩ | ⟨e, e', hx, hy⟩
  · refine ⟨⟨fun _ => ⟨b, hy⟩, fun _ => ⟨a, hx⟩⟩, fun a' b' ha hb => ?_⟩
    rw [hx] at ha
    rw [hy] at hb
    cases ha
    cases hb
    exact hab
  · refine ⟨⟨?_, ?_⟩, ?_⟩
    · rintro ⟨a, ha⟩
      rw [hx] at ha
      cases ha
    · rintro ⟨b, hb⟩
      rw [hy] at hb
      cases hb
    · intro a b ha
      rw [hx] at ha
      cases ha

end Alike

end Logged

end Cross6502
