import Cross6502.Command.Console
import Cross6502.Proofs.Outcome

/-!
# What a tool does to its directory

What a tool prints has no effect on what it does next.  So a step on consoles is as good as
a step on directories that ends in the same way and leaves the same directory (`Does`), and
the steps of a tool are looked at one by one without the texts it prints.

The smallest such step is an *update*: it puts one directory in the place of another, or it
fails and leaves the directory as it was.
-/

namespace Cross6502

namespace Command

variable {ε α β : Type}

/-! ## Steps on directories -/

/-- How a step ended and the directory it left. -/
def ending : EStateM.Result ε Console α → EStateM.Result ε Directory α
  | .ok a c => .ok a c.directory
  | .error e c => .error e c.directory

/-- A step does to the directory what another one does that works on directories alone. -/
def Does (t : EStateM ε Console α) (u : EStateM ε Directory α) : Prop :=
  ∀ c, ending (t c) = u c.directory

/-- A computation that may fail, as a step. -/
def lift : Except ε α → EStateM ε Directory α
  | .ok a => pure a
  | .error e => throw e

/-- Put another directory in the place of one, unless that fails. -/
def update (f : Directory → Except ε Directory) : EStateM ε Directory Unit := fun d =>
  match f d with
  | .ok d' => .ok () d'
  | .error e => .error e d

theorem update_of_ok {f : Directory → Except ε Directory} {d d' : Directory}
    (h : f d = .ok d') : update f d = .ok () d' := by
  rw [update, h]

theorem update_of_error {f : Directory → Except ε Directory} {d : Directory} {e : ε}
    (h : f d = .error e) : update f d = .error e d := by
  rw [update, h]

namespace Does

theorem pure (a : α) : Does (Pure.pure a : EStateM ε Console α) (Pure.pure a) := fun _ => rfl

theorem throw (e : ε) :
    Does (MonadExcept.throw e : EStateM ε Console α) (MonadExcept.throw e) := fun _ => rfl

theorem bind {t : EStateM ε Console α} {f : α → EStateM ε Console β} {u : EStateM ε Directory α}
    {g : α → EStateM ε Directory β} (h : Does t u) (hf : ∀ a, Does (f a) (g a)) :
    Does (t >>= f) (u >>= g) := by
  intro c
  have hc := h c
  change ending (EStateM.bind t f c) = EStateM.bind u g c.directory
  rw [EStateM.bind, EStateM.bind]
  cases ht : t c with
  | ok a c' =>
    rw [ht] at hc
    rw [← hc]
    exact hf a c'
  | error e c' =>
    rw [ht] at hc
    rw [← hc]
    rfl

/-- A step that does nothing to the directory may be left out. -/
theorem pure_bind {t : EStateM ε Console α} {f : α → EStateM ε Console β} {a : α}
    {u : EStateM ε Directory β} (h : Does t (Pure.pure a)) (hf : ∀ a, Does (f a) u) :
    Does (t >>= f) u := h.bind hf

theorem bind_pure {t : EStateM ε Console Unit} {f : Unit → EStateM ε Console Unit}
    {u : EStateM ε Directory Unit} (h : Does t u) (hf : ∀ a, Does (f a) (Pure.pure ())) :
    Does (t >>= f) u := by
  intro c
  refine (h.bind hf c).trans ?_
  change EStateM.bind u _ c.directory = _
  rw [EStateM.bind]
  cases u c.directory <;> rfl

/-- A step that looks at the directory first. -/
theorem get_bind {f : Console → EStateM ε Console α} {g : Directory → EStateM ε Directory α}
    (h : ∀ c, Does (f c) (g c.directory)) : Does (get >>= f) (get >>= g) := fun c => h c c

/-- A step that leaves the directory alone does nothing to it. -/
theorem modify {f : Console → Console} (h : ∀ c, (f c).directory = c.directory) :
    Does (modify f : EStateM ε Console PUnit) (Pure.pure ()) := by
  intro c
  change EStateM.Result.ok () (f c).directory = .ok () c.directory
  rw [h c]

theorem ite {b : Bool} {t t' : EStateM ε Console α} {u : EStateM ε Directory α} (h : Does t u)
    (h' : Does t' u) : Does (if b then t else t') u := by
  cases b with
  | true => exact h
  | false => exact h'

/-- What is done to the directory may be said in another way. -/
theorem of_eq {t : EStateM ε Console α} {u v : EStateM ε Directory α} (h : Does t u)
    (huv : ∀ d, u d = v d) : Does t v := fun c => (h c).trans (huv c.directory)

end Does

theorem does_say (line : String) : Does (say line) (pure ()) := Does.modify fun _ => rfl

theorem does_sayVerbose (line : String) : Does (sayVerbose line) (pure ()) := by
  refine Does.modify fun c => ?_
  split <;> rfl

theorem does_ofExcept (x : Except Failure α) : Does (Task.ofExcept x) (lift x) := by
  cases x with
  | ok a => exact .pure a
  | error e => exact .throw e

theorem does_ofLogged (x : Logged α) : Does (Task.ofLogged x) (lift x.outcome) :=
  Does.bind (Does.modify fun c => c.directory_log x.log) fun _ => does_ofExcept x.outcome

theorem does_setDirectory (d : Directory) : Does (Task.setDirectory d) (set d) := fun _ => rfl

/-! ## Failures that end a tool -/

/-- How a tool ends that reports a failure. -/
def reported (e : Failure) : Exit := { code := exitCode e }

/-- How a tool ends with a failure that it does not report. -/
def escaped (e : Failure) : Exit := { code := .buildError, escaped := some e }

theorem exitCode_ne_success (e : Failure) : exitCode e ≠ .success := by
  unfold exitCode
  split <;> exact nofun

theorem Does.guarded {t : Task α} {u : EStateM Failure Directory α} (h : Does t u)
    (activity : String) : Does (guarded activity t) (u.adaptExcept reported) := by
  intro c
  have hc := h c
  rw [Command.guarded, EStateM.adaptExcept]
  cases ht : t c with
  | ok a c' =>
    rw [ht] at hc
    rw [← hc]
    rfl
  | error e c' =>
    rw [ht] at hc
    rw [← hc]
    simp only [ending, Console.directory_report]
    rfl

theorem Does.unguarded {t : Task α} {u : EStateM Failure Directory α} (h : Does t u) :
    Does (unguarded t) (u.adaptExcept escaped) := by
  intro c
  have hc := h c
  rw [Command.unguarded, EStateM.adaptExcept]
  cases ht : t c with
  | ok a c' =>
    rw [ht] at hc
    rw [← hc]
    rfl
  | error e c' =>
    rw [ht] at hc
    rw [← hc]
    rfl

theorem does_quit (code : ExitCode) (line : String) :
    Does (quit code line : Tool α) (throw { code := code }) :=
  Does.bind (Does.modify fun c => c.directory_printError line) fun _ => .throw _

/-! ## Outcomes -/

section Outcome

variable {t : Tool Unit} {u : EStateM Exit Directory Unit} {d d' : Directory}

theorem Does.outcome_of_ok (h : Does t u) (hu : u d = .ok () d') (verbose : Bool) :
    (t.outcome verbose d).exit.code = .success
      ∧ (t.outcome verbose d).console.directory = d' := by
  have hstart := h { directory := d, verbose := verbose }
  rw [hu] at hstart
  rw [Tool.outcome]
  cases ht : t { directory := d, verbose := verbose } with
  | ok a c =>
    rw [ht] at hstart
    cases hstart
    exact ⟨rfl, rfl⟩
  | error e c =>
    rw [ht] at hstart
    cases hstart

theorem Does.outcome_of_error (h : Does t u) {e : Exit} (hu : u d = .error e d')
    (verbose : Bool) :
    (t.outcome verbose d).exit = e ∧ (t.outcome verbose d).console.directory = d' := by
  have hstart := h { directory := d, verbose := verbose }
  rw [hu] at hstart
  rw [Tool.outcome]
  cases ht : t { directory := d, verbose := verbose } with
  | ok a c =>
    rw [ht] at hstart
    cases hstart
  | error e' c =>
    rw [ht] at hstart
    cases hstart
    exact ⟨rfl, rfl⟩

end Outcome

/-- The exit code of a run.  A command line that is wrong ends it too. -/
def finalCode : Except UsageError Outcome → ExitCode
  | .ok o => o.exit.code
  | .error _ => .invalidArguments

/-- The directory after a run.  Nothing has been done when a command line is wrong. -/
def finalDirectory (d : Directory) : Except UsageError Outcome → Directory
  | .ok o => o.console.directory
  | .error _ => d

namespace Interface

variable {f : Interface} {tool : Invocation → Tool Unit} {d : Directory} {words : List Text}

theorem run_of_read {i : Invocation} (h : f.read d words = .ok i) :
    f.run tool d words = .ok (f.carryOut tool d i) := by
  rw [run, h]

/-- A command line that is refused fails and changes nothing. -/
theorem run_of_refused {e : Refusal} (h : f.read d words = .error e) :
    finalCode (f.run tool d words) ≠ .success
      ∧ finalDirectory d (f.run tool d words) = d := by
  rw [run, h]
  cases e with
  | usage e => exact ⟨nofun, rfl⟩
  | failure e => exact ⟨nofun, rfl⟩

theorem carryOut_of_question {i : Invocation} {q : Question} (h : i.question? = some q) :
    f.carryOut tool d i = { console := { directory := d, output := f.answer q } } := by
  rw [carryOut, h]

theorem carryOut_of_no_question {i : Invocation} (h : i.question? = none) :
    f.carryOut tool d i = (tool i).outcome (i.has "verbose") d := by
  rw [carryOut, h]

end Interface

end Command

end Cross6502
