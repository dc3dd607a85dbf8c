import Cross6502.Proofs.Command.Effect
import Cross6502.Proofs.Files.Writing

/-!
# Files written one after another

A tool that writes several files writes them in order and stops at the first that cannot be
made or written (`writeAll`).  The files in front of it stay (`written`): unlike one update,
a sequence of them is not undone.

Files that are written change the places their paths lead to and no others, and folders stay
folders.  So a directory is as it was exactly if those paths lead to what they led to before
(`Wrote.unchanged_iff`).
-/

namespace Cross6502

namespace Command

/-- A file to write. -/
structure Artifact where
  path : Text
  bytes : List UInt8
  deriving DecidableEq, Inhabited

/-- Files were written in order. -/
inductive Wrote : Directory → List Artifact → Directory → Prop
  | nothing (d : Directory) : Wrote d [] d
  | file {d d₁ d' : Directory} {f : Artifact} {rest : List Artifact}
      (hwrite : d.writeAt f.path f.bytes = .ok d₁) (hrest : Wrote d₁ rest d') :
      Wrote d (f :: rest) d'

namespace Wrote

variable {d d' : Directory} {fs : List Artifact}

theorem isFolder_iff (h : Wrote d fs d') (q : Place) :
    d'.entry? q = some .folder ↔ d.entry? q = some .folder := by
  induction h with
  | nothing => exact Iff.rfl
  | file hwrite _ ih =>
    obtain ⟨place, -, hfolder, -, -, rfl⟩ := Directory.exists_of_writeAt hwrite
    exact ih.trans (Directory.isFolder_put_iff hfolder _)

theorem isClosed_eq (h : Wrote d fs d') (q : Place) : d'.isClosed q = d.isClosed q := by
  induction h with
  | nothing => rfl
  | file hwrite _ ih =>
    obtain ⟨place, -, -, -, -, rfl⟩ := Directory.exists_of_writeAt hwrite
    exact ih

theorem placeOf_eq_ok_iff (h : Wrote d fs d') {t : Text} {q : Place} :
    d'.placeOf t = .ok q ↔ d.placeOf t = .ok q :=
  Directory.placeOf_eq_ok_iff_of_folders h.isFolder_iff h.isClosed_eq

/-- Places that no path leads to stay as they are. -/
theorem entry?_eq (h : Wrote d fs d') {q : Place} (hq : ∀ f ∈ fs, d.placeOf f.path ≠ .ok q) :
    d'.entry? q = d.entry? q := by
  induction h with
  | nothing => rfl
  | @file d d₁ d' f rest hwrite _ ih =>
    obtain ⟨hf, hrest⟩ := List.forall_mem_cons.mp hq
    have hfirst : Wrote d [f] d₁ := .file hwrite (.nothing d₁)
    obtain ⟨place, hplace, hfolder, -, -, rfl⟩ := Directory.exists_of_writeAt hwrite
    have hne : q ≠ place := by
      rintro rfl
      exact hf hplace
    rw [ih fun g hg heq => hrest g hg (hfirst.placeOf_eq_ok_iff.mp heq),
      Directory.entry?_put_of_ne _ hne]

/-- What the tools are kept from stays as it is. -/
theorem entry?_of_isKept (h : Wrote d fs d') {q : Place} (hkept : d.isKept q = true) :
    d'.entry? q = d.entry? q := by
  induction h with
  | nothing => rfl
  | file hwrite _ ih =>
    have hfirst := Directory.entry?_of_writeAt_of_isKept hwrite hkept
    obtain ⟨place, -, -, -, -, rfl⟩ := Directory.exists_of_writeAt hwrite
    exact (ih hkept).trans hfirst

/-- Files stay files. -/
theorem isFile (h : Wrote d fs d') {t : Text} {old : List UInt8}
    (hlook : d.look t = .ok (.file old)) : ∃ new, d'.look t = .ok (.file new) := by
  induction h generalizing old with
  | nothing => exact ⟨old, hlook⟩
  | file hwrite _ ih =>
    obtain ⟨new, hnew⟩ := Directory.isFile_of_writeAt hwrite hlook
    exact ih hnew

/-- Files that may be read stay so. -/
theorem isReadable (h : Wrote d fs d') {t : Text} {old : List UInt8}
    (hread : d.readAt t = .ok old) : ∃ new, d'.readAt t = .ok new := by
  obtain ⟨hlook, hmay⟩ := Directory.readAt_eq_ok_iff.mp hread
  obtain ⟨place, hplace, hclosed⟩ := Directory.mayRead_eq_true_iff.mp hmay
  obtain ⟨new, hnew⟩ := h.isFile hlook
  exact ⟨new, Directory.readAt_eq_ok_iff.mpr ⟨hnew, Directory.mayRead_eq_true_iff.mpr
    ⟨place, h.placeOf_eq_ok_iff.mpr hplace, (h.isClosed_eq place).trans hclosed⟩⟩⟩

/-- A path that was written to leads to a file. -/
theorem exists_file (h : Wrote d fs d') {f : Artifact} (hf : f ∈ fs) :
    ∃ bytes, d'.look f.path = .ok (.file bytes) := by
  induction h with
  | nothing => exact absurd hf List.not_mem_nil
  | file hwrite hrest ih =>
    rcases List.mem_cons.mp hf with rfl | hf
    · exact hrest.isFile (Directory.look_of_writeAt hwrite)
    · exact ih hf

/-- Nothing has changed if what was written was there before. -/
theorem unchanged_iff (h : Wrote d fs d') :
    (∀ q, d'.entry? q = d.entry? q) ↔ ∀ f ∈ fs, d'.look f.path = d.look f.path := by
  constructor
  · intro hsame f hf
    obtain ⟨bytes, hlook⟩ := h.exists_file hf
    obtain ⟨place, hplace, hentry, hasks⟩ := Directory.look_eq_ok_file_iff.mp hlook
    rw [hlook]
    have hentry₀ : d.entry? place = some (.file bytes) := (hsame place).symm.trans hentry
    exact (Directory.look_eq_ok_file_iff.mpr
      ⟨place, h.placeOf_eq_ok_iff.mp hplace, hentry₀, hasks⟩).symm
  · intro hsame q
    by_cases hq : ∃ f ∈ fs, d.placeOf f.path = .ok q
    · obtain ⟨f, hf, hplace⟩ := hq
      obtain ⟨bytes, hlook⟩ := h.exists_file hf
      have hlook₀ := (hsame f hf).symm.trans hlook
      obtain ⟨q₁, hq₁, hentry, -⟩ := Directory.look_eq_ok_file_iff.mp hlook
      obtain ⟨q₀, hq₀, hentry₀, -⟩ := Directory.look_eq_ok_file_iff.mp hlook₀
      rw [h.placeOf_eq_ok_iff, hplace] at hq₁
      rw [hplace] at hq₀
      cases hq₁
      cases hq₀
      rw [hentry, hentry₀]
    · exact h.entry?_eq fun f hf hplace => hq ⟨f, hf, hplace⟩

end Wrote

/-! ## Writing until something fails -/

/-- Write a file.  One that cannot be made is the failure instead. -/
def save (p : Except Failure Artifact) (d : Directory) : Except Failure Directory :=
  p.bind fun f => d.writeAt f.path f.bytes

/-- Write files in order. -/
def writeAll : List (Except Failure Artifact) → EStateM Failure Directory Unit
  | [] => pure ()
  | p :: rest => update (save p) >>= fun _ => writeAll rest

/-- The files in front of the first that cannot be made or written. -/
def written : Directory → List (Except Failure Artifact) → List Artifact
  | _, [] => []
  | _, .error _ :: _ => []
  | d, .ok f :: rest =>
      match d.writeAt f.path f.bytes with
      | .ok d' => f :: written d' rest
      | .error _ => []

theorem writeAll_singleton (p : Except Failure Artifact) (d : Directory) :
    writeAll [p] d = update (save p) d := by
  change EStateM.bind (update (save p)) _ d = _
  rw [EStateM.bind, update]
  cases save p d <;> rfl

theorem writeAll_append (ps qs : List (Except Failure Artifact)) (d : Directory) :
    writeAll (ps ++ qs) d = (writeAll ps >>= fun _ => writeAll qs) d := by
  induction ps generalizing d with
  | nil => rfl
  | cons p ps ih =>
    change EStateM.bind (update _) _ d = EStateM.bind (EStateM.bind (update _) _) _ d
    simp only [EStateM.bind]
    cases update (save p) d with
    | ok a d' => exact ih d'
    | error e d' => rfl

/-- The directory that is left. -/
def stateOf {ε α : Type} : EStateM.Result ε Directory α → Directory
  | .ok _ d => d
  | .error _ d => d

/-- However it ends, the files up to the failure have been written. -/
theorem wrote_written (ps : List (Except Failure Artifact)) (d : Directory) :
    Wrote d (written d ps) (stateOf (writeAll ps d)) := by
  induction ps generalizing d with
  | nil => exact .nothing d
  | cons p ps ih =>
    change Wrote d _ (stateOf (EStateM.bind (update (save p)) _ d))
    rw [EStateM.bind]
    cases p with
    | error e => exact .nothing d
    | ok f =>
      rw [written]
      cases hwrite : d.writeAt f.path f.bytes with
      | error e =>
        have hsave : save (.ok f) d = .error e := hwrite
        rw [update_of_error hsave]
        exact .nothing d
      | ok d' =>
        have hsave : save (.ok f) d = .ok d' := hwrite
        rw [update_of_ok hsave]
        exact .file hwrite (ih d')

end Command

end Cross6502
