import Cross6502.Proofs.Files.Writing

/-!
# The file beside another

The sidecar of a file has the path of the file with another suffix.  Written out, the two
paths have the same steps up to the last: a path in its normal form is followed through
the same folders as the path it was made from (`follow_filter`, `stepsOf_text`).  So the
sidecar lies in the same folder under another name, and never where the file itself is,
unless the file has a sidecar's name already (`placeOf_sidecar_ne`).
-/

namespace Cross6502

/-! ## Steps of a path -/

namespace Text

theorem splitOnP_joinWith {parts : List Text} (hne : parts ≠ [])
    (h : ∀ part ∈ parts, ∀ c ∈ part, c ≠ '/') :
    (joinWith ['/'] parts).splitOnP (· = '/') = parts := by
  induction parts with
  | nil => exact absurd rfl hne
  | cons part rest ih =>
    have hpart : ∀ c ∈ part, decide (c = '/') = false := fun c hc => by
      simpa using h part List.mem_cons_self c hc
    cases rest with
    | nil => rw [joinWith_singleton, List.splitOnP_eq_singleton hpart]
    | cons next rest =>
      rw [joinWith, List.append_assoc, List.singleton_append,
        List.splitOnP_append_cons_of_forall_mem hpart '/' (by decide),
        ih (List.cons_ne_nil _ _) fun q hq => h q (List.mem_cons_of_mem part hq)]

theorem ne_of_mem_splitOnP {t part : Text} (hpart : part ∈ t.splitOnP (· = '/')) :
    ∀ c ∈ part, c ≠ '/' := by
  induction t generalizing part with
  | nil =>
    rw [List.mem_singleton.mp hpart]
    exact fun c hc => absurd hc List.not_mem_nil
  | cons d t ih =>
    rw [List.splitOnP_cons_eq_if_modifyHead] at hpart
    split at hpart
    · rcases List.mem_cons.mp hpart with rfl | hpart
      · exact fun c hc => absurd hc List.not_mem_nil
      · exact ih hpart
    · rename_i hd
      obtain ⟨first, rest, hsplit⟩ :=
        List.exists_cons_of_ne_nil (List.splitOnP_ne_nil (fun c => decide (c = '/')) t)
      rw [hsplit] at ih hpart
      rcases List.mem_cons.mp hpart with rfl | hpart
      · intro c hc
        rcases List.mem_cons.mp hc with rfl | hc
        · simpa using hd
        · exact ih List.mem_cons_self c hc
      · exact ih (List.mem_cons_of_mem first hpart)

end Text

namespace Path

/-- A path whose parts are names. -/
structure Normal (p : Path) : Prop where
  root : p.root = [] ∨ p.root = ['/'] ∨ p.root = ['/', '/']
  part : ∀ part ∈ p.parts, part ≠ [] ∧ ∀ c ∈ part, c ≠ '/'

theorem normal_ofText (t : Text) : Normal (ofText t) where
  root := by
    change rootOf t = [] ∨ rootOf t = ['/'] ∨ rootOf t = ['/', '/']
    rw [rootOf.eq_def]
    split <;> simp
  part part hpart := by
    obtain ⟨hmem, hkeep⟩ := List.mem_filter.mp hpart
    rw [Bool.and_eq_true] at hkeep
    exact ⟨by simpa using hkeep.1, Text.ne_of_mem_splitOnP hmem⟩

theorem mem_of_mem_stem {part : Text} {c : Char} (hc : c ∈ stem part) : c ∈ part := by
  rw [stem] at hc
  split at hc
  · exact hc
  · have hfront := List.mem_of_mem_drop (List.mem_reverse.mp hc)
    exact List.mem_reverse.mp ((List.dropWhile_sublist _).subset hfront)

/-- The path of a sidecar has another name in the place of the last. -/
theorem exists_of_sidecar {p beside : Path} (h : p.sidecar = .ok beside) :
    ∃ front name, p.parts = front ++ [name]
      ∧ beside = { p with parts := front ++ [stem name ++ ".sym".toList] } := by
  rw [sidecar, withSuffix] at h
  split at h
  · cases h
  · rename_i name hname
    cases h
    obtain ⟨front, hparts⟩ := List.getLast?_eq_some_iff.mp hname
    refine ⟨front, name, hparts, ?_⟩
    rw [hparts, List.dropLast_concat]

theorem Normal.sidecar {p beside : Path} (hp : Normal p) (h : p.sidecar = .ok beside) :
    Normal beside := by
  obtain ⟨front, name, hparts, rfl⟩ := exists_of_sidecar h
  refine ⟨hp.root, fun part hpart => ?_⟩
  have hold := hp.part
  rw [hparts] at hold
  rcases List.mem_append.mp hpart with hpart | hpart
  · exact hold part (List.mem_append_left _ hpart)
  · rw [List.mem_singleton.mp hpart]
    refine ⟨List.append_ne_nil_of_right_ne_nil _ (by decide), fun c hc => ?_⟩
    rcases List.mem_append.mp hc with hc | hc
    · exact (hold name (List.mem_append_right _ List.mem_cons_self)).2 c (mem_of_mem_stem hc)
    · rintro rfl
      exact absurd hc (by decide)

end Path

namespace Directory

/-- The steps of a path in its normal form. -/
def stepsTo (p : Path) : List Text := if p.root.isEmpty then p.parts else rootName :: p.parts

theorem stepsOf_text {p : Path} (hp : p.Normal) (hne : p.parts ≠ []) :
    stepsOf p.text = stepsTo p := by
  have hsplit := Text.splitOnP_joinWith hne fun part hpart => (hp.part part hpart).2
  have hkeep : (p.parts.filter fun part => !part.isEmpty) = p.parts := by
    rw [List.filter_eq_self]
    intro part hpart
    simpa using (hp.part part hpart).1
  have htext : p.text = p.root ++ Text.joinWith ['/'] p.parts := by
    rw [Path.text, if_neg (by simp [hne])]
  have hslash : ∀ t : Text, ('/' :: t).splitOnP (· = '/') = [] :: t.splitOnP (· = '/') := by
    intro t
    rw [List.splitOnP_cons_eq_if_modifyHead, if_pos (by decide)]
  rw [stepsOf, stepsTo, htext]
  rcases hp.root with hroot | hroot | hroot
  · have hhead : (Text.joinWith ['/'] p.parts).head? ≠ some '/' := by
      obtain ⟨part, rest, hparts⟩ := List.exists_cons_of_ne_nil hne
      have hpart := hp.part part (hparts ▸ List.mem_cons_self)
      obtain ⟨c, u, rfl⟩ := List.exists_cons_of_ne_nil hpart.1
      rw [hparts]
      intro h
      refine hpart.2 c List.mem_cons_self ?_
      cases rest <;> exact Option.some.inj h
    rw [hroot, List.nil_append, if_neg hhead, hsplit, hkeep]
    rfl
  · rw [hroot, List.singleton_append, hslash, hsplit]
    simp [hkeep]
  · rw [hroot, List.cons_append, List.singleton_append, hslash, hslash, hsplit]
    simp [hkeep]

theorem isEmpty_rootOf (t : Text) : (Path.rootOf t).isEmpty = true ↔ t.head? ≠ some '/' := by
  rw [Path.rootOf.eq_def]
  split
  · simp
  · simp
  · simp
  · rename_i hroot
    cases t with
    | nil => simp
    | cons c t =>
      simp only [List.head?_cons, ne_eq, Option.some.injEq]
      constructor
      · rintro - rfl
        exact hroot t rfl
      · exact fun _ => rfl

/-- A written path has the steps of its normal form, and some that lead nowhere. -/
theorem filter_stepsOf (t : Text) :
    (stepsOf t).filter (· != hereName) = stepsTo (Path.ofText t) := by
  have hparts : ((t.splitOnP (· = '/')).filter fun step => !step.isEmpty).filter (· != hereName)
      = Path.partsOf t := by
    rw [List.filter_filter, Path.partsOf]
    exact List.filter_congr fun part _ => Bool.and_comm _ _
  change _ = if (Path.rootOf t).isEmpty then Path.partsOf t else rootName :: Path.partsOf t
  rw [stepsOf]
  by_cases hroot : t.head? = some '/'
  · rw [if_pos hroot, if_neg (by rw [isEmpty_rootOf]; simp [hroot]),
      List.filter_cons_of_pos (by decide), hparts]
  · rw [if_neg hroot, if_pos ((isEmpty_rootOf t).mpr hroot), hparts]

variable {d : Directory} {here q : Place}

/-- Steps that stay in a folder may be left out. -/
theorem follow_filter {steps : List Text} (h : d.follow here steps = .ok q) :
    d.follow here (steps.filter (· != hereName)) = .ok q := by
  induction steps generalizing here with
  | nil => exact h
  | cons name rest ih =>
    obtain ⟨hfolder, hopen, next, hnext, hrest⟩ := follow_cons_eq_ok_iff.mp h
    by_cases hname : name = hereName
    · rw [step?, if_pos hname] at hnext
      cases hnext
      rw [List.filter_cons_of_neg (by simp [hname])]
      exact ih hrest
    · rw [List.filter_cons_of_pos (by simp [hname])]
      exact follow_cons_eq_ok_iff.mpr ⟨hfolder, hopen, next, hnext, ih hrest⟩

/-- The last step leads up, or to a name in the folder before it. -/
theorem follow_concat {front : List Text} {name : Text} (hname : name ≠ hereName)
    (h : d.follow here (front ++ [name]) = .ok q) :
    ∃ p, d.follow here front = .ok p
      ∧ (name = upName ∧ q = above p ∨ name ≠ upName ∧ q = p ++ [name]) := by
  induction front generalizing here with
  | nil =>
    obtain ⟨-, -, next, hnext, hrest⟩ := follow_cons_eq_ok_iff.mp h
    cases hrest
    refine ⟨here, rfl, ?_⟩
    rw [step?, if_neg hname] at hnext
    split at hnext
    · cases hnext
      exact .inl ⟨‹_›, rfl⟩
    · split at hnext
      · cases hnext
      · cases hnext
        exact .inr ⟨‹_›, rfl⟩
  | cons first front ih =>
    obtain ⟨hfolder, hopen, next, hnext, hrest⟩ := follow_cons_eq_ok_iff.mp h
    obtain ⟨p, hp, hlast⟩ := ih hrest
    exact ⟨p, follow_cons_eq_ok_iff.mpr ⟨hfolder, hopen, next, hnext, hp⟩, hlast⟩

theorem above_ne_concat (p : Place) {name : Text} (hname : name ≠ upName) :
    above p ≠ p ++ [name] := by
  rw [above]
  split
  · intro h
    exact hname (List.singleton_inj.mp (List.append_cancel_left h)).symm
  · split
    · intro h
      have := congrArg List.length h
      simp at this
    · intro h
      have := congrArg List.length h
      simp at this

theorem follow_of_placeOf {t : Text} (h : d.placeOf t = .ok q) :
    d.follow [] (stepsOf t) = .ok q := by
  rw [placeOf] at h
  split at h
  · cases h
  · split at h
    · cases h
    · split at h
      · cases h
      · exact h

/-- A sidecar is not where its file is, unless the file is named like one. -/
theorem placeOf_sidecar_ne {path : Text} {beside : Path}
    (hbeside : (Path.ofText path).sidecar = .ok beside) (hne : beside ≠ Path.ofText path)
    (hplace : d.placeOf path = .ok q) : d.placeOf beside.text ≠ .ok q := by
  intro hplace'
  obtain ⟨front, name, hparts, hpath⟩ := Path.exists_of_sidecar hbeside
  have hsteps : ∃ steps, stepsTo (Path.ofText path) = steps ++ [name]
      ∧ stepsTo beside = steps ++ [Path.stem name ++ ".sym".toList] := by
    rw [stepsTo, stepsTo, hpath, hparts]
    split
    · exact ⟨front, rfl, rfl⟩
    · exact ⟨rootName :: front, rfl, rfl⟩
  obtain ⟨steps, hold, hnew⟩ := hsteps
  have hfollow : d.follow [] (steps ++ [name]) = .ok q := by
    rw [← hold, ← filter_stepsOf]
    exact follow_filter (follow_of_placeOf hplace)
  have hfollow' : d.follow [] (steps ++ [Path.stem name ++ ".sym".toList]) = .ok q := by
    rw [← hnew, ← stepsOf_text ((Path.normal_ofText path).sidecar hbeside) (by simp [hpath])]
    exact follow_of_placeOf hplace'
  have hhere : name ≠ hereName := by
    have hmem : name ∈ (Path.ofText path).parts :=
      hparts ▸ List.mem_append_right front List.mem_cons_self
    have hkeep := (List.mem_filter.mp hmem).2
    rw [Bool.and_eq_true] at hkeep
    exact bne_iff_ne.mp hkeep.2
  -- the name of a sidecar ends in a letter
  have hlast : (Path.stem name ++ ".sym".toList).getLast? = some 'm' := by simp
  obtain ⟨p, hp, hstep⟩ := follow_concat hhere hfollow
  obtain ⟨p', hp', hstep'⟩ := follow_concat (fun h => by rw [h] at hlast; cases hlast) hfollow'
  cases hp.symm.trans hp'
  rcases hstep' with ⟨hup, -⟩ | ⟨hup, hq⟩
  · rw [hup] at hlast
    cases hlast
  · rcases hstep with ⟨-, hq'⟩ | ⟨-, hq'⟩
    · exact above_ne_concat p hup (hq'.symm.trans hq)
    · have hname := List.singleton_inj.mp (List.append_cancel_left (hq.symm.trans hq'))
      refine hne (hpath.trans ?_)
      rw [hname, ← hparts]

end Directory

end Cross6502
