import Cross6502.Files.Directory
import Cross6502.Proofs.Outcome

/-!
# Files that were written

A file that is written is found under the path it was written to, and every file at
another place stays as it was.  Two paths may lead to one place, so places are compared
and not paths.

Writing cannot lead paths astray: it puts a file where there was none or another file,
and the steps of a path that leads anywhere pass through folders only
(`placeOf_put_iff`).  What may be written may be read, so a file that was written is read
back (`readAt_of_writeAt`).
-/

namespace Cross6502

namespace Directory

variable {d d' : Directory}

/-! ## Entries -/

theorem lookup_filter_of_ne {entries : List (Place × FileEntry)} {place q : Place}
    (h : q ≠ place) :
    (entries.filter fun x => x.1 != place).lookup q = entries.lookup q := by
  induction entries with
  | nil => rfl
  | cons x entries ih =>
    obtain ⟨p, e⟩ := x
    by_cases hp : p = place
    · have hq : (q == p) = false := by
        rw [hp]
        exact beq_eq_false_iff_ne.mpr h
      rw [List.filter_cons_of_neg (by simp [hp]), List.lookup_cons, hq, ih]
    · rw [List.filter_cons_of_pos (by simp [hp]), List.lookup_cons, List.lookup_cons, ih]

theorem entry?_put_self {place : Place} (e : FileEntry)
    (h : (isAbove place || place == [rootName]) = false) :
    Directory.entry? (d.put place e) place = some e := by
  have hnone : (d.entries.filter fun x => x.1 != place).lookup place = none := by
    rw [List.lookup_eq_none_iff]
    intro x hx
    have hne : x.1 ≠ place := bne_iff_ne.mp (List.mem_filter.mp hx).2
    exact bne_iff_ne.mpr hne.symm
  rw [ entry?, h, put, List.lookup_append, hnone]
  simp

theorem entry?_put_of_ne {place q : Place} (e : FileEntry) (h : q ≠ place) :
    Directory.entry? (d.put place e) q = d.entry? q := by
  rw [ entry?, entry?, put, List.lookup_append, lookup_filter_of_ne h, List.lookup_cons,
    beq_eq_false_iff_ne.mpr h]
  simp

/-- A place that is no folder is not one of those that are there without being listed. -/
theorem listed_of_not_folder {place : Place} (h : d.entry? place ≠ some .folder) :
    (isAbove place || place == [rootName]) = false := by
  rw [Bool.eq_false_iff]
  intro habove
  rw [ entry?, if_pos habove] at h
  exact h rfl

/-- Putting a file where no folder is makes no folder and takes none away. -/
theorem isFolder_put_iff {place q : Place} (hplace : d.entry? place ≠ some .folder)
    (bytes : List UInt8) :
    Directory.entry? (d.put place (.file bytes)) q = some .folder ↔ d.entry? q = some .folder := by
  by_cases hq : q = place
  · rw [hq, entry?_put_self _ (listed_of_not_folder hplace)]
    exact ⟨nofun, fun h => absurd h hplace⟩
  · rw [entry?_put_of_ne _ hq]

/-! ## Paths -/

/-- Where a step leads from a folder. -/
def step? (here : Place) (name : Text) : Option Place :=
  if name = hereName then some here
  else if name = upName then some (above here)
  else if isTooLong name then none
  else some (here ++ [name])

/-- A path leads somewhere if each of its steps does and starts from a folder that is not
closed. -/
theorem follow_cons_eq_ok_iff {here q : Place} {name : Text} {rest : List Text} :
    d.follow here (name :: rest) = .ok q
      ↔ d.entry? here = some .folder ∧ d.isClosed here = false
        ∧ ∃ next, step? here name = some next ∧ d.follow next rest = .ok q := by
  rw [follow, step?]
  cases d.entry? here with
  | none => simp
  | some e =>
    cases e with
    | file bytes => simp
    | folder =>
      cases d.isClosed here with
      | true => simp
      | false =>
        simp only [true_and, Bool.false_eq_true, if_false]
        split
        · simp
        · split
          · simp
          · split <;> simp

/-- Where a path leads depends on the folders only, if it leads anywhere. -/
theorem follow_eq_ok_iff_of_folders
    (hfolders : ∀ q, d.entry? q = some .folder ↔ d'.entry? q = some .folder)
    (hclosed : ∀ q, d.isClosed q = d'.isClosed q) {here q : Place} {steps : List Text} :
    d.follow here steps = .ok q ↔ d'.follow here steps = .ok q := by
  induction steps generalizing here with
  | nil => rw [follow, follow]
  | cons name rest ih => simp only [follow_cons_eq_ok_iff, hfolders here, hclosed here, ih]

theorem placeOf_eq_ok_iff_of_folders
    (hfolders : ∀ q, d.entry? q = some .folder ↔ d'.entry? q = some .folder)
    (hclosed : ∀ q, d.isClosed q = d'.isClosed q) {t : Text} {q : Place} :
    d.placeOf t = .ok q ↔ d'.placeOf t = .ok q := by
  rw [placeOf, placeOf]
  split
  · exact Iff.rfl
  · split
    · exact Iff.rfl
    · split
      · exact Iff.rfl
      · exact follow_eq_ok_iff_of_folders hfolders hclosed

/-- A path leads to the same place after a file was put where no folder is. -/
theorem placeOf_put_iff {place : Place} (hplace : d.entry? place ≠ some .folder)
    (bytes : List UInt8) {t : Text} {q : Place} :
    (d.put place (.file bytes)).placeOf t = .ok q ↔ d.placeOf t = .ok q :=
  placeOf_eq_ok_iff_of_folders (fun _ => isFolder_put_iff hplace bytes) fun _ => rfl

/-! ## Writing -/

theorem target_eq_ok_iff {t : Text} {place : Place} :
    d.target t = .ok place ↔ d.placeOf t = .ok place ∧ d.entry? place ≠ some .folder
      ∧ asksForFolder t = false ∧ d.mayWrite place = true := by
  rw [target]
  cases d.placeOf t with
  | error e => simp
  | ok q =>
    simp only [Except.ok.injEq]
    constructor
    · intro h
      split at h
      · cases h
      · rename_i hfolder
        split at h
        · cases h
        · rename_i hasks
          split at h
          · rename_i hmay
            cases h
            exact ⟨rfl, hfolder, by simpa using hasks, hmay⟩
          · cases h
    · rintro ⟨rfl, hfolder, hasks, hmay⟩
      split
      · exact absurd ‹_› hfolder
      · rw [hasks, hmay]
        rfl

/-- What may be written may be read. -/
theorem isClosed_of_mayWrite {place : Place} (h : d.mayWrite place = true) :
    d.isClosed place = false := by
  rw [mayWrite, isKept, Bool.and_eq_true] at h
  rw [isClosed]
  cases hlookup : d.restrictions.lookup place with
  | none => rfl
  | some r =>
    rw [hlookup] at h
    exact absurd h.1 Bool.false_ne_true

/-- What it takes to write a file. -/
theorem exists_of_writeAt {t : Text} {bytes : List UInt8} (h : d.writeAt t bytes = .ok d') :
    ∃ place, d.placeOf t = .ok place ∧ d.entry? place ≠ some .folder ∧ asksForFolder t = false
      ∧ d.mayWrite place = true ∧ d' = d.put place (.file bytes) := by
  obtain ⟨place, htarget, h⟩ := Outcome.bind_eq_ok_iff.mp h
  cases h
  obtain ⟨hplace, hfolder, hasks, hmay⟩ := target_eq_ok_iff.mp htarget
  exact ⟨place, hplace, hfolder, hasks, hmay, rfl⟩

/-- What the tools are kept from stays as it is. -/
theorem entry?_of_writeAt_of_isKept {t : Text} {bytes : List UInt8} {q : Place}
    (h : d.writeAt t bytes = .ok d') (hkept : d.isKept q = true) : d'.entry? q = d.entry? q := by
  obtain ⟨place, -, -, -, hmay, rfl⟩ := exists_of_writeAt h
  refine entry?_put_of_ne _ ?_
  rintro rfl
  rw [mayWrite, hkept] at hmay
  exact absurd hmay Bool.false_ne_true

section Look

variable {t u : Text} {bytes : List UInt8}

/-- What a path leads to is at its place. -/
theorem look_eq_ok_file_iff : d.look t = .ok (.file bytes)
    ↔ ∃ place, d.placeOf t = .ok place ∧ d.entry? place = some (.file bytes)
      ∧ asksForFolder t = false := by
  constructor
  · intro h
    obtain ⟨place, hplace, h⟩ := Outcome.bind_eq_ok_iff.mp h
    refine ⟨place, hplace, ?_⟩
    split at h
    · cases h
    · rename_i hentry
      split at h
      · cases h
      · rename_i hasks
        cases h
        exact ⟨hentry, Bool.eq_false_iff.mpr hasks⟩
    · cases h
  · rintro ⟨place, hplace, hentry, hasks⟩
    rw [look, hplace]
    simp [bind, Except.bind, hentry, hasks]

theorem mayRead_eq_true_iff :
    d.mayRead t = true ↔ ∃ place, d.placeOf t = .ok place ∧ d.isClosed place = false := by
  rw [mayRead]
  cases d.placeOf t with
  | error e => simp
  | ok place => simp

theorem look_of_writeAt (h : d.writeAt t bytes = .ok d') : d'.look t = .ok (.file bytes) := by
  obtain ⟨place, hplace, hfolder, hasks, -, rfl⟩ := exists_of_writeAt h
  exact look_eq_ok_file_iff.mpr ⟨place, (placeOf_put_iff hfolder bytes).mpr hplace,
    entry?_put_self _ (listed_of_not_folder hfolder), hasks⟩

/-- The path leads to the place where the file is. -/
theorem exists_placeOf_of_writeAt (h : d.writeAt t bytes = .ok d') :
    ∃ place, d'.placeOf t = .ok place := by
  obtain ⟨place, hplace, hfolder, -, -, rfl⟩ := exists_of_writeAt h
  exact ⟨place, (placeOf_put_iff hfolder bytes).mpr hplace⟩

/-- What may be read may be read still. -/
theorem mayRead_of_writeAt (h : d.writeAt t bytes = .ok d') (hmay : d.mayRead u = true) :
    d'.mayRead u = true := by
  obtain ⟨place, -, hfolder, -, -, rfl⟩ := exists_of_writeAt h
  obtain ⟨q, hq, hclosed⟩ := mayRead_eq_true_iff.mp hmay
  exact mayRead_eq_true_iff.mpr ⟨q, (placeOf_put_iff hfolder bytes).mpr hq, hclosed⟩

/-- What was written may be read. -/
theorem mayRead_self_of_writeAt (h : d.writeAt t bytes = .ok d') : d'.mayRead t = true := by
  obtain ⟨place, hplace, -, -, hmay, -⟩ := exists_of_writeAt h
  exact mayRead_of_writeAt h
    (mayRead_eq_true_iff.mpr ⟨place, hplace, isClosed_of_mayWrite hmay⟩)

/-- Files at other places stay. -/
theorem look_of_writeAt_of_ne (h : d.writeAt t bytes = .ok d') (hne : d.placeOf u ≠ d.placeOf t)
    {e : FileEntry} (hlook : d.look u = .ok e) : d'.look u = .ok e := by
  obtain ⟨place, hplace, hfolder, -, -, rfl⟩ := exists_of_writeAt h
  rw [look] at hlook ⊢
  obtain ⟨q, hq, hlook⟩ := Outcome.bind_eq_ok_iff.mp hlook
  have hne' : q ≠ place := by
    rintro rfl
    exact hne (hq.trans hplace.symm)
  rw [(placeOf_put_iff hfolder bytes).mpr hq]
  simp only [bind, Except.bind, entry?_put_of_ne _ hne']
  exact hlook

/-- What was a file is a file still, though perhaps with other bytes. -/
theorem isFile_of_writeAt (h : d.writeAt t bytes = .ok d') {old : List UInt8}
    (hlook : d.look u = .ok (.file old)) : ∃ new, d'.look u = .ok (.file new) := by
  obtain ⟨place, -, hfolder, -, -, rfl⟩ := exists_of_writeAt h
  obtain ⟨q, hq, hentry, hasks⟩ := look_eq_ok_file_iff.mp hlook
  have hq' := (placeOf_put_iff hfolder bytes).mpr hq
  by_cases hplace : q = place
  · subst hplace
    exact ⟨bytes, look_eq_ok_file_iff.mpr
      ⟨q, hq', entry?_put_self _ (listed_of_not_folder hfolder), hasks⟩⟩
  · exact ⟨old, look_eq_ok_file_iff.mpr ⟨q, hq', (entry?_put_of_ne _ hplace).trans hentry, hasks⟩⟩

/-- A file that may be read is read. -/
theorem readAt_eq_ok_iff : d.readAt t = .ok bytes
    ↔ d.look t = .ok (.file bytes) ∧ d.mayRead t = true := by
  rw [readAt]
  cases d.look t with
  | error e => simp
  | ok e =>
    cases d.mayRead t with
    | false => simp
    | true => cases e <;> simp

theorem readAt_of_writeAt (h : d.writeAt t bytes = .ok d') : d'.readAt t = .ok bytes :=
  readAt_eq_ok_iff.mpr ⟨look_of_writeAt h, mayRead_self_of_writeAt h⟩

/-- Files at other places are read as before. -/
theorem readAt_of_writeAt_of_ne (h : d.writeAt t bytes = .ok d')
    (hne : d.placeOf u ≠ d.placeOf t) {old : List UInt8} (hread : d.readAt u = .ok old) :
    d'.readAt u = .ok old := by
  obtain ⟨hlook, hmay⟩ := readAt_eq_ok_iff.mp hread
  exact readAt_eq_ok_iff.mpr ⟨look_of_writeAt_of_ne h hne hlook, mayRead_of_writeAt h hmay⟩

/-- A path that is read leads somewhere. -/
theorem has_of_readAt {p : Path} (h : d.readAt p.text = .ok bytes) : d.has p = .ok true := by
  rw [has, (readAt_eq_ok_iff.mp h).1]

end Look

end Directory

end Cross6502
