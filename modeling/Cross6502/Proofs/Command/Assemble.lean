import Cross6502.Command.Assemble
import Cross6502.Proofs.Command.Artifacts
import Cross6502.Proofs.Command.Words

/-!
# Traces of a run that failed

The assembler works through its inputs one by one.  For each it writes the object, then the
listing and then the sidecar, as far as they are asked for, and stops at the first that
cannot be written (`does_input`).  Nothing is undone.  So a run that fails leaves what
separate runs of the inputs before leave, and of the input that failed the files in front of
its failure.

An input that has errors writes nothing at all.  A trace is left when a file behind the
object cannot be written.

This holds for all options, however they are read (`failed_tool_unchanged_iff`).  For a
command line it is said once more in terms of runs by words (`failed_run_unchanged_iff`).
-/

namespace Cross6502

namespace Command

namespace Assemble

/-! ## The files of one input -/

/-- The object of an assembly. -/
def objectFile (o : Options) (output : Path) (a : Assembly) : Except Failure Artifact :=
  (Stored.write o.format a.object).outcome.map fun bytes => ⟨output.text, bytes⟩

/-- The listing, if one is asked for. -/
def listingFiles (o : Options) (a : Assembly) : List (Except Failure Artifact) :=
  o.listing.toList.map fun p => .ok ⟨p.text, Utf8.encode (Save.listingText a)⟩

/-- The sidecar, if there is to be one. -/
def sidecarFiles (o : Options) (output : Path) (a : Assembly) : List (Except Failure Artifact) :=
  match sidecarPath o output with
  | .error e => [.error e]
  | .ok p => p.toList.map fun p => .ok ⟨p.text, Utf8.encode (Sidecar.text a.object)⟩

/-- All files of an input in the order they are written.  An input that cannot be assembled
has none but its failure. -/
def files (o : Options) (s : Settings) (path output : Path) (d : Directory) :
    List (Except Failure Artifact) :=
  match (Load.assembled d s o.compileOnly path).bind fun a => a.result.map fun _ => a with
  | .error e => [.error e]
  | .ok a => objectFile o output a :: (listingFiles o a ++ sidecarFiles o output a)

section Steps

variable (o : Options) (output : Path) (a : Assembly)

theorem does_writeObject :
    Does (writeObject o output a) (update (save (objectFile o output a))) := by
  have hsteps : Does (writeObject o output a) (get >>= fun d =>
      lift (Save.object d output.text o.format a.object).outcome >>= fun r => set r.1) :=
    .get_bind fun c => .bind (does_ofLogged _) fun r => .bind_pure (does_setDirectory _) fun _ =>
      .pure_bind (does_ofLogged _) fun _ => does_sayVerbose _
  refine hsteps.of_eq fun d => ?_
  rw [update, save, objectFile]
  change EStateM.bind (lift (Save.object d output.text o.format a.object).outcome) _ d = _
  rw [Save.object]
  cases (Stored.write o.format a.object).outcome with
  | error e => rfl
  | ok bytes =>
    simp only [Except.map, Except.bind]
    cases d.writeAt output.text bytes with
    | error e => rfl
    | ok d' => rfl

theorem does_writeText (path : Path) (t : Text) (what : String) (e : Event) :
    Does (writeText path t what e) (update (save (.ok ⟨path.text, Utf8.encode t⟩))) := by
  have hsteps : Does (writeText path t what e) (get >>= fun d =>
      lift (Save.text d path.text t) >>= set) :=
    .get_bind fun c => .bind (does_ofExcept _) fun d' => .bind_pure (does_setDirectory _) fun _ =>
      .pure_bind (does_ofLogged _) fun _ => does_sayVerbose _
  refine hsteps.of_eq fun d => ?_
  rw [update, save]
  change EStateM.bind (lift (d.writeAt path.text (Utf8.encode t))) _ d = _
  simp only [Except.bind]
  cases d.writeAt path.text (Utf8.encode t) with
  | error e => rfl
  | ok d' => rfl

theorem does_writeListing : Does (writeListing o a) (writeAll (listingFiles o a)) := by
  rw [writeListing, listingFiles]
  cases o.listing with
  | none => exact .pure ()
  | some p => exact (does_writeText p _ _ _).of_eq fun d => (writeAll_singleton _ d).symm

theorem does_writeSidecar :
    Does (writeSidecar o output a) (writeAll (sidecarFiles o output a)) := by
  have hsteps : Does (writeSidecar o output a) (lift (sidecarPath o output) >>= fun p =>
      writeAll (p.toList.map fun p => .ok ⟨p.text, Utf8.encode (Sidecar.text a.object)⟩)) := by
    refine .bind (does_ofExcept _) fun p => ?_
    cases p with
    | none => exact .pure ()
    | some p => exact (does_writeText p _ _ _).of_eq fun d => (writeAll_singleton _ d).symm
  refine hsteps.of_eq fun d => ?_
  rw [sidecarFiles]
  cases sidecarPath o output with
  | error e => rfl
  | ok p => rfl

theorem does_input (s : Settings) (path : Path) :
    Does (input o s path output) (fun d => writeAll (files o s path output d) d) := by
  have hsteps : Does (input o s path output) (get >>= fun d =>
      lift (Load.assembled d s o.compileOnly path) >>= fun a => lift a.result >>= fun _ =>
        update (save (objectFile o output a)) >>= fun _ => writeAll (listingFiles o a) >>= fun _ =>
          writeAll (sidecarFiles o output a)) := by
    refine .pure_bind (does_sayVerbose _) fun _ => .get_bind fun c =>
      .bind (does_ofExcept _) fun a => .bind (does_ofLogged _) fun _ => ?_
    have hwrites := (does_writeObject o output a).bind fun _ =>
      (does_writeListing o a).bind fun _ => (does_writeSidecar o output a).bind_pure fun _ =>
        does_sayVerbose ("Defined " ++ Text.decimalString a.symbols.size ++ " symbols")
    have htable := Does.ite (b := o.printTable)
      (.pure_bind (does_say (String.ofList a.symbols.dump)) fun _ => hwrites) hwrites
    exact .ite (.pure_bind (does_say _) fun _ => htable) htable
  refine hsteps.of_eq fun d => ?_
  rw [files]
  change EStateM.bind (lift (Load.assembled d s o.compileOnly path)) _ d = _
  cases Load.assembled d s o.compileOnly path with
  | error e => rfl
  | ok a =>
    change EStateM.bind (lift a.result) _ d = _
    simp only [Except.bind]
    cases a.result with
    | error e => rfl
    | ok _ =>
      change EStateM.bind (update (save (objectFile o output a))) _ d
        = EStateM.bind (update (save (objectFile o output a))) _ d
      simp only [EStateM.bind]
      cases update (save (objectFile o output a)) d with
      | error e d' => rfl
      | ok _ d' =>
        exact (writeAll_append _ _ d').symm

end Steps

/-! ## The inputs in turn -/

/-- All files of an input.  One without a path for its object has none but its failure. -/
def filesOf (o : Options) (s : Settings) (path : Path) (d : Directory) :
    List (Except Failure Artifact) :=
  match outputPath o path with
  | .error e => [.error e]
  | .ok output => files o s path output d

/-- How a run ends with the failure of an input.  A missing path for the object is not
reported. -/
def exitOf (o : Options) (path : Path) : Failure → Exit :=
  match outputPath o path with
  | .error _ => escaped
  | .ok _ => reported

/-- What an input does to the directory. -/
def step (o : Options) (s : Settings) (path : Path) : EStateM Exit Directory Unit := fun d =>
  (writeAll (filesOf o s path d)).adaptExcept (exitOf o path) d

/-- What inputs do in turn. -/
def steps (o : Options) (s : Settings) : List Path → EStateM Exit Directory Unit
  | [] => pure ()
  | path :: rest => step o s path >>= fun _ => steps o s rest

theorem does_inputs (o : Options) (s : Settings) (paths : List Path) :
    Does (inputs o s paths) (steps o s paths) := by
  induction paths with
  | nil => exact .pure ()
  | cons path rest ih =>
    have hsteps := (does_ofExcept (outputPath o path)).unguarded.bind fun output =>
      ((does_input o output s path).guarded "").bind fun _ => ih
    refine hsteps.of_eq fun d => ?_
    change EStateM.bind _ _ d = EStateM.bind (step o s path) _ d
    simp only [EStateM.bind, step, EStateM.adaptExcept]
    cases houtput : outputPath o path with
    | error e => simp only [filesOf, exitOf, houtput]; rfl
    | ok output => simp only [filesOf, exitOf, houtput]; rfl

/-! ## The tool -/

/-- The settings that the inputs are worked through with.  There are none if one path is given
for several inputs, or if the environment is refused. -/
def begun (environment : Settings.Environment) (o : Options) : Option Settings :=
  if 1 < o.inputs.length && o.namesOutput then none
  else (Settings.ofEnvironment environment).toOption.map fun s => s.override o.overrides

/-- The options for one input. -/
def Options.alone (o : Options) (path : Path) : Options := { o with inputs := [path] }

/-- The tool is run for one input after another, and succeeds each time. -/
inductive InTurn (environment : Settings.Environment) (o : Options) (verbose : Bool) :
    Directory → List Path → Directory → Prop
  | nothing (d : Directory) : InTurn environment o verbose d [] d
  | input {d d' : Directory} {path : Path} {rest : List Path}
      (hsuccess : ((tool environment (o.alone path)).outcome verbose d).exit.code = .success)
      (hrest : InTurn environment o verbose
        ((tool environment (o.alone path)).outcome verbose d).console.directory rest d') :
      InTurn environment o verbose d (path :: rest) d'

section Tool

variable {environment : Settings.Environment} {o : Options} {verbose : Bool} {d d' : Directory}
  {s : Settings}

/-- A tool that does not begin with its inputs changes nothing. -/
theorem directory_of_not_begun (h : begun environment o = none) :
    ((tool environment o).outcome verbose d).console.directory = d := by
  have hquit : ∃ e, Does (tool environment o) (throw e) := by
    rw [tool]
    split
    · exact ⟨_, does_quit _ _⟩
    · rename_i hone
      rw [begun, if_neg hone] at h
      cases hsettings : Settings.ofEnvironment environment with
      | error e => exact ⟨_, does_quit _ _⟩
      | ok s₀ =>
        rw [hsettings] at h
        cases h
  obtain ⟨e, hquit⟩ := hquit
  exact (hquit.outcome_of_error rfl _).2

theorem does_tool (h : begun environment o = some s) :
    Does (tool environment o) (steps o s o.inputs) := by
  rw [begun] at h
  split at h
  · cases h
  · rename_i hone
    rw [tool, if_neg hone]
    cases hsettings : Settings.ofEnvironment environment with
    | error e =>
      rw [hsettings] at h
      cases h
    | ok s₀ =>
      rw [hsettings] at h
      cases h
      exact does_inputs _ _ _

/-- Several inputs have no path for a file. -/
theorem namesOutput_of_begun (h : begun environment o = some s) (hmany : 1 < o.inputs.length) :
    o.namesOutput = false := by
  rw [begun, decide_eq_true hmany, Bool.true_and] at h
  cases hnames : o.namesOutput with
  | false => rfl
  | true =>
    rw [hnames] at h
    cases h

theorem begun_alone (h : begun environment o = some s) (path : Path) :
    begun environment (o.alone path) = some s := by
  rw [begun] at h
  split at h
  · cases h
  · exact h

/-- Alone, an input does what it does among others. -/
theorem steps_alone (path : Path) : steps (o.alone path) s [path] d = step o s path d := by
  change EStateM.bind (step o s path) _ d = _
  rw [EStateM.bind]
  cases step o s path d <;> rfl

theorem alone_of_ok (h : begun environment o = some s) (verbose : Bool) {path : Path}
    (hstep : step o s path d = .ok () d') :
    ((tool environment (o.alone path)).outcome verbose d).exit.code = .success
      ∧ ((tool environment (o.alone path)).outcome verbose d).console.directory = d' :=
  (does_tool (begun_alone h path)).outcome_of_ok ((steps_alone path).trans hstep) verbose

theorem alone_of_error (h : begun environment o = some s) (verbose : Bool) {path : Path}
    {e : Exit}
    (hstep : step o s path d = .error e d') :
    ((tool environment (o.alone path)).outcome verbose d).exit = e
      ∧ ((tool environment (o.alone path)).outcome verbose d).console.directory = d' :=
  (does_tool (begun_alone h path)).outcome_of_error ((steps_alone path).trans hstep) verbose

/-- The files that an input wrote, whether it failed in the end or not. -/
theorem wrote_of_step (o : Options) (path : Path) :
    Wrote d (written d (filesOf o s path d)) (stateOf (step o s path d)) := by
  have hwrote := wrote_written (filesOf o s path d) d
  rw [step, EStateM.adaptExcept]
  cases hall : writeAll (filesOf o s path d) d with
  | ok a d' =>
    rw [hall] at hwrote
    exact hwrote
  | error e d' =>
    rw [hall] at hwrote
    exact hwrote

/-- The files that were written for an input alone. -/
theorem wrote_of_alone (h : begun environment o = some s) (verbose : Bool) (path : Path)
    (d : Directory) :
    Wrote d (written d (filesOf o s path d))
      ((tool environment (o.alone path)).outcome verbose d).console.directory := by
  have hwrote := wrote_of_step (d := d) (s := s) o path
  cases hstep : step o s path d with
  | ok _ d' =>
    rw [hstep] at hwrote
    rw [(alone_of_ok h verbose hstep).2]
    exact hwrote
  | error e d' =>
    rw [hstep] at hwrote
    rw [(alone_of_error h verbose hstep).2]
    exact hwrote

/-- Inputs that fail do so at one of them, after those before have succeeded in turn. -/
theorem exists_failing (h : begun environment o = some s) (verbose : Bool) {paths : List Path}
    {e : Exit}
    (hfails : steps o s paths d = .error e d') :
    ∃ done path rest d₁, paths = done ++ path :: rest
      ∧ InTurn environment o verbose d done d₁ ∧ step o s path d₁ = .error e d' := by
  induction paths generalizing d with
  | nil => cases hfails
  | cons path rest ih =>
    change EStateM.bind (step o s path) _ d = _ at hfails
    rw [EStateM.bind] at hfails
    cases hstep : step o s path d with
    | error e' d'' =>
      rw [hstep] at hfails
      cases hfails
      exact ⟨[], path, rest, d, rfl, .nothing d, hstep⟩
    | ok _ d₁ =>
      rw [hstep] at hfails
      obtain ⟨done, next, rest', d₂, rfl, hdone, hfailing⟩ := ih hfails
      obtain ⟨hcode, hdirectory⟩ := alone_of_ok h verbose hstep
      exact ⟨path :: done, next, rest', d₂, rfl, .input hcode (hdirectory.symm ▸ hdone),
        hfailing⟩

end Tool

/-- Files are written for an input only if it can be assembled. -/
theorem exists_result_of_written {o : Options} {s : Settings} {path : Path} {d d' : Directory}
    (h : written d' (filesOf o s path d) ≠ []) :
    ∃ a object, Load.assembled d s o.compileOnly path = .ok a ∧ a.result = .ok object := by
  rw [filesOf] at h
  split at h
  · exact absurd rfl h
  · rw [files] at h
    cases hassembled : Load.assembled d s o.compileOnly path with
    | error e =>
      rw [hassembled] at h
      exact absurd rfl h
    | ok a =>
      rw [hassembled] at h
      simp only [Except.bind] at h
      cases hresult : a.result with
      | error e =>
        rw [hresult] at h
        exact absurd rfl h
      | ok object => exact ⟨a, object, rfl, hresult⟩

/-- **Traces of a tool that fails**, whatever its options are.  If it does not begin with its
inputs, it changes nothing.  Otherwise it fails at one of them.  The inputs before that one
leave what the tool leaves for each of them alone, and for the input itself it then fails in the
same way and leaves the same directory.

No file has been created or changed for this input and the ones behind it exactly if the
files that were written for it in front of the failure were there already.  There are such
files only if the input can be assembled. -/
theorem failed_tool_unchanged_iff (environment : Settings.Environment) (o : Options)
    (verbose : Bool) (d : Directory)
    (hfailed : ((tool environment o).outcome verbose d).exit.code ≠ .success) :
    (begun environment o = none → ((tool environment o).outcome verbose d).console.directory = d)
    ∧ ∀ s, begun environment o = some s → ∃ done path rest d₁,
      o.inputs = done ++ path :: rest
      ∧ InTurn environment o verbose d done d₁
      ∧ ((tool environment (o.alone path)).outcome verbose d₁).exit
        = ((tool environment o).outcome verbose d).exit
      ∧ ((tool environment (o.alone path)).outcome verbose d₁).console.directory
        = ((tool environment o).outcome verbose d).console.directory
      ∧ ((∀ q, Directory.entry? ((tool environment o).outcome verbose d).console.directory q
          = d₁.entry? q)
        ↔ ∀ f ∈ written d₁ (filesOf o s path d₁),
          ((tool environment o).outcome verbose d).console.directory.look f.path
            = d₁.look f.path)
      ∧ (written d₁ (filesOf o s path d₁) ≠ [] → ∃ a object,
        Load.assembled d₁ s o.compileOnly path = .ok a ∧ a.result = .ok object) := by
  refine ⟨directory_of_not_begun, fun s hbegun => ?_⟩
  cases hsteps : steps o s o.inputs d with
  | ok _ d' => exact absurd ((does_tool hbegun).outcome_of_ok hsteps verbose).1 hfailed
  | error e d' =>
    obtain ⟨hexit, hdirectory⟩ := (does_tool hbegun).outcome_of_error hsteps verbose
    obtain ⟨done, path, rest, d₁, hsplit, hdone, hstep⟩ :=
      exists_failing hbegun verbose hsteps
    obtain ⟨hexit₁, hdirectory₁⟩ := alone_of_error hbegun verbose hstep
    have hwrote := wrote_of_alone hbegun verbose path d₁
    rw [hdirectory₁] at hwrote
    refine ⟨done, path, rest, d₁, hsplit, hdone, hexit₁.trans hexit.symm,
      hdirectory₁.trans hdirectory.symm, ?_, exists_result_of_written⟩
    rw [hdirectory]
    exact hwrote.unchanged_iff

/-! ## Command lines -/

/-- The command line and the settings that a run works through its inputs with.  There are
none if the command line is refused or only asks a question, or if the tool does not begin. -/
def started (environment : Settings.Environment) (d : Directory) (words : List Text) :
    Option (Invocation × Settings) :=
  match interface.read d words with
  | .error _ => none
  | .ok i =>
      match i.question? with
      | some _ => none
      | none => (begun environment (.ofInvocation i)).map (i, ·)

/-- Runs for one input each, with the same options, that all succeed. -/
inductive Separately (environment : Settings.Environment) (options : List GivenOption) :
    Directory → List Text → Directory → Prop
  | nothing (d : Directory) : Separately environment options d [] d
  | input {d d' : Directory} {t : Text} {rest : List Text}
      (hsuccess : finalCode (run environment d (wordsOf options [t])) = .success)
      (hrest : Separately environment options
        (finalDirectory d (run environment d (wordsOf options [t]))) rest d') :
      Separately environment options d (t :: rest) d'

theorem distinct_parameters :
    Distinct (interface.parameters ++ Question.all.map Question.parameter) where
  long_ne_nil := by decide
  ne_equals := by decide
  find?_eq := by decide

section Words

variable {environment : Settings.Environment} {d d' d₀ d₁ : Directory} {words : List Text}
  {i : Invocation} {s : Settings}

theorem started_eq_some_iff : started environment d words = some (i, s)
    ↔ interface.read d words = .ok i ∧ i.question? = none
      ∧ begun environment (.ofInvocation i) = some s := by
  rw [started]
  cases interface.read d words with
  | error e => simp
  | ok j =>
    simp only [Except.ok.injEq]
    cases hasks : j.question? with
    | some q =>
      refine iff_of_false nofun ?_
      rintro ⟨rfl, hnone, -⟩
      rw [hasks] at hnone
      cases hnone
    | none =>
      simp only [Option.map_eq_some_iff, Prod.mk.injEq]
      constructor
      · rintro ⟨s', hbegun, rfl, rfl⟩
        exact ⟨rfl, hasks, hbegun⟩
      · rintro ⟨rfl, -, hbegun⟩
        exact ⟨s, hbegun, rfl, rfl⟩

theorem run_of_not_asks (environment : Settings.Environment)
    (hread : interface.read d words = .ok i) (hasks : i.question? = none) :
    run environment d words
      = .ok ((tool environment (.ofInvocation i)).outcome (i.has "verbose") d) := by
  rw [run, Interface.run_of_read hread, Interface.carryOut_of_no_question hasks]

/-- A run that does not begin with its inputs changes nothing. -/
theorem finalDirectory_of_not_started (h : started environment d words = none) :
    finalDirectory d (run environment d words) = d := by
  cases hread : interface.read d words with
  | error e => exact (Interface.run_of_refused hread).2
  | ok i =>
    cases hasks : i.question? with
    | some q =>
      rw [run, Interface.run_of_read hread, Interface.carryOut_of_question hasks]
      rfl
    | none =>
      have hbegun : begun environment (.ofInvocation i) = none := by
        simpa [started, hread, hasks] using h
      rw [run_of_not_asks environment hread hasks]
      exact directory_of_not_begun hbegun

/-- Without a path for a file, the checks of the options do not look into the directory. -/
theorem checkOptions_of_not_namesOutput (h : (Options.ofInvocation i).namesOutput = false) :
    i.checkOptions d' interface.parameters = i.checkOptions d interface.parameters := by
  have hvalues : i.value? "output" = none ∧ i.value? "symbols" = none
      ∧ i.value? "listing" = none := by
    simpa [Options.namesOutput, Options.ofInvocation, Invocation.path?, and_assoc] using h
  have hlong : ∀ p ∈ interface.parameters,
      p.kind = some .outputFile ∨ p.kind = some .inputFile →
      p.long = "output" ∨ p.long = "symbols" ∨ p.long = "listing" := by decide
  refine Invocation.checkOptions_congr fun p hp hkind => ?_
  rcases hlong p hp hkind with hlong | hlong | hlong
  · rw [hlong, hvalues.1]
  · rw [hlong, hvalues.2.1]
  · rw [hlong, hvalues.2.2]

/-- The options of a command line with one argument are those options for one input. -/
theorem run_wordsOf (environment : Settings.Environment)
    (hread : interface.read d words = .ok i) (hasks : i.question? = none) {t : Text}
    {bytes : List UInt8} (hfile : d'.readAt t = .ok bytes)
    (hsame : d' = d ∨ (Options.ofInvocation i).namesOutput = false) :
    run environment d' (wordsOf i.options [t])
      = .ok ((tool environment ((Options.ofInvocation i).alone (.ofText t))).outcome
          (i.has "verbose") d') := by
  have hoptions : i.checkOptions d' interface.parameters
      = i.checkOptions d interface.parameters := by
    rcases hsame with rfl | hnames
    · rfl
    · exact checkOptions_of_not_namesOutput hnames
  have hagain : interface.read d' (wordsOf i.options [t]) = .ok { i with arguments := [t] } :=
    Interface.read_wordsOf distinct_parameters rfl hasks hread hoptions hfile
  exact run_of_not_asks environment hagain hasks

/-- What the tool does in turn, separate runs do, as long as the inputs may be read. -/
theorem separately_of_inTurn (h : started environment d words = some (i, s))
    {arguments : List Text} (hfiles : ∀ t ∈ arguments, ∃ bytes, d₀.readAt t = .ok bytes)
    (hnames : (Options.ofInvocation i).namesOutput = false)
    (hturn : InTurn environment (.ofInvocation i) (i.has "verbose") d₀
      (arguments.map Path.ofText) d₁) :
    Separately environment i.options d₀ arguments d₁
      ∧ ∀ t bytes, d₀.readAt t = .ok bytes → ∃ bytes', d₁.readAt t = .ok bytes' := by
  obtain ⟨hread, hasks, hbegun⟩ := started_eq_some_iff.mp h
  induction arguments generalizing d₀ with
  | nil =>
    cases hturn
    exact ⟨.nothing _, fun t bytes hbytes => ⟨bytes, hbytes⟩⟩
  | cons t rest ih =>
    obtain ⟨⟨bytes, hfile⟩, hrest⟩ := List.forall_mem_cons.mp hfiles
    cases hturn with
    | input hsuccess hturn =>
      have hrun := run_wordsOf environment hread hasks hfile (.inr hnames)
      have hwrote := wrote_of_alone hbegun (i.has "verbose") (.ofText t) d₀
      obtain ⟨hseparately, hkept⟩ :=
        ih (fun u hu => (hrest u hu).elim fun _ hu => hwrote.isReadable hu) hturn
      refine ⟨.input ?_ ?_, fun u old hu => ?_⟩
      · rw [hrun]
        exact hsuccess
      · rw [hrun]
        exact hseparately
      · obtain ⟨new, hnew⟩ := hwrote.isReadable hu
        exact hkept u new hnew

end Words

/-- **Traces of a failed run.**  A run that fails before its first input changes nothing.
Otherwise it fails at one of them.  The inputs before that one leave what separate runs
leave, which all succeed, and a separate run of the input itself then fails in the same way
and leaves the same directory.

No file has been created or changed for this input and the ones behind it exactly if the
files that were written for it in front of the failure were there already.  There are such
files only if the input can be assembled. -/
theorem failed_run_unchanged_iff (environment : Settings.Environment) (d : Directory)
    (words : List Text) (hfailed : finalCode (run environment d words) ≠ .success) :
    (started environment d words = none → finalDirectory d (run environment d words) = d)
    ∧ ∀ i s, started environment d words = some (i, s) → ∃ done t rest d₁,
      i.arguments = done ++ t :: rest
      ∧ Separately environment i.options d done d₁
      ∧ finalCode (run environment d₁ (wordsOf i.options [t]))
        = finalCode (run environment d words)
      ∧ finalDirectory d₁ (run environment d₁ (wordsOf i.options [t]))
        = finalDirectory d (run environment d words)
      ∧ ((∀ q, Directory.entry? (finalDirectory d (run environment d words)) q = d₁.entry? q)
        ↔ ∀ f ∈ written d₁ (filesOf (.ofInvocation i) s (.ofText t) d₁),
          (finalDirectory d (run environment d words)).look f.path = d₁.look f.path)
      ∧ (written d₁ (filesOf (.ofInvocation i) s (.ofText t) d₁) ≠ [] → ∃ a object,
        Load.assembled d₁ s (Options.ofInvocation i).compileOnly (.ofText t) = .ok a
          ∧ a.result = .ok object) := by
  refine ⟨finalDirectory_of_not_started, fun i s hstarted => ?_⟩
  obtain ⟨hread, hasks, hbegun⟩ := started_eq_some_iff.mp hstarted
  have hrun := run_of_not_asks environment hread hasks
  have hfiles := Interface.isFile_of_read rfl hasks hread
  rw [hrun] at hfailed ⊢
  obtain ⟨-, hfails⟩ := failed_tool_unchanged_iff environment _ _ d hfailed
  obtain ⟨done', path, rest', d₁, hsplit, hturn, hexit, hdirectory, hiff, hwritten⟩ :=
    hfails s hbegun
  obtain ⟨done, tail, harguments, rfl, htail⟩ := List.map_eq_append_iff.mp hsplit
  obtain ⟨t, rest, rfl, rfl, -⟩ := List.map_eq_cons_iff.mp htail
  rw [harguments] at hfiles
  obtain ⟨hbefore, hbehind⟩ := List.forall_mem_append.mp hfiles
  obtain ⟨bytes, hfile⟩ := hbehind t List.mem_cons_self
  have hseparate : Separately environment i.options d done d₁ ∧ (∃ new, d₁.readAt t = .ok new)
      ∧ (d₁ = d ∨ (Options.ofInvocation i).namesOutput = false) := by
    cases done with
    | nil =>
      cases hturn
      exact ⟨.nothing d, ⟨bytes, hfile⟩, .inl rfl⟩
    | cons first done =>
      -- several inputs are given, and so no path for a file
      have hnames : (Options.ofInvocation i).namesOutput = false :=
        namesOutput_of_begun hbegun (by
          rw [hsplit, List.length_append, List.map_cons, List.length_cons, List.length_cons]
          omega)
      obtain ⟨hseparately, hkept⟩ := separately_of_inTurn hstarted hbefore hnames hturn
      exact ⟨hseparately, hkept t bytes hfile, .inr hnames⟩
  obtain ⟨hseparately, ⟨new, hnew⟩, hsame⟩ := hseparate
  have hlast := run_wordsOf environment hread hasks hnew hsame
  refine ⟨done, t, rest, d₁, harguments, hseparately, ?_, ?_, hiff, hwritten⟩
  · rw [hlast]
    exact congrArg Exit.code hexit
  · rw [hlast]
    exact hdirectory

/-- Two sources, the second of which is wrong. -/
def twoSources : Directory where
  entries :=
    [(["good.s".toList], .file (Utf8.encode " nop\n".toList)),
     (["bad.s".toList], .file (Utf8.encode " nop 1\n".toList))]

/-- Both sources as inputs. -/
def bothInputs : List Text := ["good.s".toList, "bad.s".toList]

theorem failed_run_unchanged_iff_second :
    finalCode (run [] twoSources bothInputs) = .buildError
      ∧ started [] twoSources bothInputs = some ({ arguments := bothInputs }, {})
      ∧ ∃ done t rest d₁, bothInputs = done ++ t :: rest ∧ Separately [] [] twoSources done d₁
        ∧ ((∀ q, Directory.entry? (finalDirectory twoSources (run [] twoSources bothInputs)) q
            = d₁.entry? q)
          ↔ ∀ f ∈ written d₁
              (filesOf (.ofInvocation { arguments := bothInputs }) {} (.ofText t) d₁),
            (finalDirectory twoSources (run [] twoSources bothInputs)).look f.path
              = d₁.look f.path) := by
  have hcode : finalCode (run [] twoSources bothInputs) = .buildError := by decide +kernel
  have hstarted : started [] twoSources bothInputs = some ({ arguments := bothInputs }, {}) := by
    decide
  have hfailed : finalCode (run [] twoSources bothInputs) ≠ .success := by
    rw [hcode]
    exact nofun
  obtain ⟨done, t, rest, d₁, hsplit, hdone, -, -, hiff, -⟩ :=
    (failed_run_unchanged_iff [] twoSources bothInputs hfailed).2 _ _ hstarted
  exact ⟨hcode, hstarted, done, t, rest, d₁, hsplit, hdone, hiff⟩

/-- A source on its own. -/
def oneSource : Directory where
  entries := [(["prog.s".toList], .file (Utf8.encode " nop\n".toList))]

/-- The source as input, and a listing in a folder that is not there. -/
def strayListing : List Text := ["-l".toList, "missing/prog.lst".toList, "prog.s".toList]

/-- The listing cannot be written, and the object stays behind. -/
theorem object_stays_behind :
    finalCode (run [] oneSource strayListing) = .invalidArguments
      ∧ oneSource.entry? ["prog.o".toList] = none
      ∧ Directory.entry? (finalDirectory oneSource (run [] oneSource strayListing))
        ["prog.o".toList] = some (.file [0xEA]) := by
  decide +kernel

end Assemble

end Command

end Cross6502
