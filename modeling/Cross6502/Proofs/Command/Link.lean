import Cross6502.Command.Link
import Cross6502.Proofs.Command.Effect
import Cross6502.Proofs.Container.Cartridge
import Cross6502.Proofs.Files.Writing

/-!
# All of the image or nothing

The linker loads, links and lays out the whole image before it opens a file, so to its
directory it is a single update (`Link.does_task`).  Whatever goes wrong, in an input, in the
link or with the output, leaves the directory as it was (`Link.tool_all_or_nothing`).  That
holds for all options, however they are read; a command line that is refused does nothing at
all.
-/

namespace Cross6502

/-- The image of a linked program is read back as the program and the character data,
filled up to whole banks. -/
theorem Link.Linked.read_of_cartridge {l : Linked} {p : Cartridge.Properties}
    {bytes : List UInt8} (h : (l.cartridge p).outcome = .ok bytes) :
    ∃ q, (Cartridge.read bytes).outcome
        = .ok (Cartridge.objectOf (Cartridge.extended Cartridge.prgUnit l.object.first.data)
          (Cartridge.extended Cartridge.chrUnit ((l.chr.map Segment.data).getD [])), q)
      ∧ q.video = p.video := by
  have hfits : ¬ (255 < Cartridge.bankCount l.object.first.data.length Cartridge.prgUnit
      ∨ 255 < Cartridge.bankCount ((l.chr.map Segment.data).getD []).length Cartridge.chrUnit) := by
    intro hlarge
    rw [cartridge, Cartridge.write_eq_fail_iff.mpr hlarge] at h
    cases h
  rw [not_or, Nat.not_lt, Nat.not_lt] at hfits
  rw [cartridge, Cartridge.write_of_le hfits.1 hfits.2] at h
  cases h
  rw [← Cartridge.padded_eq_extended, ← Cartridge.padded_eq_extended]
  exact ⟨_, Cartridge.read_of_isImage (Cartridge.isImage_write hfits.1 hfits.2), rfl⟩

namespace Command

namespace Link

/-- The path the image is written to. -/
def Options.outputText (o : Options) : Text := (Path.ofText o.output.text).text

/-- The bytes of the image. -/
def image (o : Options) (d : Directory) : Except Failure (List UInt8) :=
  (linked o d).outcome.bind fun l => (l.cartridge { video := o.video }).outcome

/-- The directory with the image in it. -/
def saved (o : Options) (d : Directory) : Except Failure Directory :=
  (image o d).bind fun bytes => d.writeAt o.outputText bytes

/-- Saving an image lays it out and then writes it. -/
theorem outcome_saveImage (d : Directory) (path : Text) (l : Cross6502.Link.Linked)
    (p : Cartridge.Properties) :
    (Save.image d path l p).outcome = (l.cartridge p).outcome.bind fun bytes =>
      (d.writeAt (Path.ofText path).text bytes).map fun d' => (d', bytes.length) := by
  rw [Save.image, Logged.outcome_bind]
  congr 1
  funext bytes
  rw [Logged.outcome_bind, Logged.outcome_ofExcept, Directory.write]
  cases d.writeAt (Path.ofText path).text bytes <;> rfl

/-- The linker replaces the directory at once or not at all. -/
theorem does_task (o : Options) : Does (task o) (update (saved o)) := by
  have hsteps : Does (task o) (get >>= fun d => lift (linked o d).outcome >>= fun l =>
      get >>= fun d => lift (Save.image d o.output.text l { video := o.video }).outcome >>= fun r =>
        set r.1) := by
    refine .get_bind fun c => .bind (does_ofLogged _) fun l => .get_bind fun c' =>
      .bind (does_ofLogged _) fun r => .bind_pure (does_setDirectory _) fun _ =>
        .pure_bind (does_sayVerbose _) fun _ => .pure_bind (does_sayVerbose _) fun _ => ?_
    cases l.chr with
    | none => exact .pure_bind (.pure ()) fun _ => does_sayVerbose _
    | some chr => exact .pure_bind (does_sayVerbose _) fun _ => does_sayVerbose _
  refine hsteps.of_eq fun d => ?_
  simp only [outcome_saveImage]
  rw [update, saved, image]
  change EStateM.bind (lift (linked o d).outcome) _ d = _
  cases (linked o d).outcome with
  | error e => rfl
  | ok l =>
    change EStateM.bind (lift (Except.bind (l.cartridge { video := o.video }).outcome _)) _ d = _
    simp only [Except.bind]
    cases (l.cartridge { video := o.video }).outcome with
    | error e => rfl
    | ok bytes =>
      simp only [Options.outputText]
      cases d.writeAt (Path.ofText o.output.text).text bytes with
      | error e => rfl
      | ok d' => rfl

/-- To its directory the linker is one update. -/
theorem does_tool (o : Options) : Does (tool o) ((update (saved o)).adaptExcept reported) :=
  (does_task o).guarded "Link"

/-! ## Runs -/

/-- The second directory is the first one with the whole image of a link at the place of
the output.  Read as an image, the output holds the program and the character data, filled
up to whole banks. -/
structure ImageWritten (o : Options) (d d' : Directory) (l : Cross6502.Link.Linked)
    (bytes : List UInt8) (place : Place) : Prop where
  linked : (linked o d).outcome = .ok l
  laidOut : (l.cartridge { video := o.video }).outcome = .ok bytes
  complete : ∃ q, (Cartridge.read bytes).outcome
      = .ok (Cartridge.objectOf (Cartridge.extended Cartridge.prgUnit l.object.first.data)
        (Cartridge.extended Cartridge.chrUnit ((l.chr.map Segment.data).getD [])), q)
    ∧ q.video = o.video
  leads : d.placeOf o.outputText = .ok place
  holds : d'.look o.outputText = .ok (.file bytes)
  others : ∀ q, q ≠ place → d'.entry? q = d.entry? q

theorem exists_imageWritten {o : Options} {d d' : Directory} (h : saved o d = .ok d') :
    ∃ l bytes place, ImageWritten o d d' l bytes place := by
  obtain ⟨bytes, himage, hwrite⟩ := Outcome.bind_eq_ok_iff.mp h
  obtain ⟨l, hlinked, hcartridge⟩ := Outcome.bind_eq_ok_iff.mp himage
  obtain ⟨place, hplace, -, -, -, hput⟩ := Directory.exists_of_writeAt hwrite
  refine ⟨l, bytes, place, hlinked, hcartridge, l.read_of_cartridge hcartridge, hplace,
    Directory.look_of_writeAt hwrite, fun q hq => ?_⟩
  rw [hput, Directory.entry?_put_of_ne _ hq]

/-- **All of the image or nothing**, whatever the options are.  The linker that does not succeed
leaves the directory as it was, and one that does has written the whole image of its link and
changed no other place.  It succeeds whenever the image can be saved. -/
theorem tool_all_or_nothing (o : Options) (verbose : Bool) (d : Directory) :
    (((tool o).outcome verbose d).exit.code ≠ .success →
      ((tool o).outcome verbose d).console.directory = d)
    ∧ (((tool o).outcome verbose d).exit.code = .success → ∃ l bytes place,
      ImageWritten o d ((tool o).outcome verbose d).console.directory l bytes place)
    ∧ ∀ d', saved o d = .ok d' → ((tool o).outcome verbose d).exit.code = .success := by
  cases hsaved : saved o d with
  | error e =>
    have hupdate : (update (saved o)).adaptExcept reported d = .error (reported e) d := by
      rw [EStateM.adaptExcept, update_of_error hsaved]
    obtain ⟨hexit, hdirectory⟩ := (does_tool o).outcome_of_error hupdate verbose
    have hcode : ((tool o).outcome verbose d).exit.code ≠ .success := by
      rw [hexit]
      exact exitCode_ne_success e
    exact ⟨fun _ => hdirectory, fun hsuccess => absurd hsuccess hcode, nofun⟩
  | ok d' =>
    have hupdate : (update (saved o)).adaptExcept reported d = .ok () d' := by
      rw [EStateM.adaptExcept, update_of_ok hsaved]
    obtain ⟨hcode, hdirectory⟩ := (does_tool o).outcome_of_ok hupdate verbose
    refine ⟨fun hfailed => absurd hcode hfailed, fun _ => ?_, fun _ _ => hcode⟩
    rw [hdirectory]
    exact exists_imageWritten hsaved

/-- An answer to a question changes nothing. -/
theorem run_of_question {d : Directory} {words : List Text} {i : Invocation}
    (hread : interface.read d words = .ok i) (hasks : i.question? ≠ none) :
    finalCode (run d words) = .success ∧ finalDirectory d (run d words) = d := by
  obtain ⟨q, hq⟩ := Option.ne_none_iff_exists'.mp hasks
  rw [run, Interface.run_of_read hread, Interface.carryOut_of_question hq]
  exact ⟨rfl, rfl⟩

/-- **All of the image or nothing.**  A run of the linker that does not succeed leaves the
directory as it was.  One that succeeds has answered a question and changed nothing, or has
written the whole image of its link to the output and changed no other place.  It succeeds
whenever the inputs can be linked and the image can be laid out and written. -/
theorem run_all_or_nothing (d : Directory) (words : List Text) :
    (finalCode (run d words) ≠ .success → finalDirectory d (run d words) = d)
    ∧ (finalCode (run d words) = .success → ∃ i, interface.read d words = .ok i
      ∧ ((i.question? ≠ none ∧ finalDirectory d (run d words) = d)
        ∨ (i.question? = none ∧ ∃ l bytes place,
          ImageWritten (.ofInvocation i) d (finalDirectory d (run d words)) l bytes place)))
    ∧ ∀ i d', interface.read d words = .ok i → saved (.ofInvocation i) d = .ok d' →
      finalCode (run d words) = .success := by
  cases hread : interface.read d words with
  | error e =>
    obtain ⟨hcode, hdirectory⟩ : finalCode (run d words) ≠ .success
      ∧ finalDirectory d (run d words) = d := Interface.run_of_refused hread
    exact ⟨fun _ => hdirectory, fun hsuccess => absurd hsuccess hcode, nofun⟩
  | ok i =>
    by_cases hasks : i.question? = none
    · obtain ⟨hfails, hsucceeds, hsaves⟩ :=
        tool_all_or_nothing (.ofInvocation i) (i.has "verbose") d
      rw [run, Interface.run_of_read hread, Interface.carryOut_of_no_question hasks]
      refine ⟨hfails, fun hsuccess => ⟨i, rfl, .inr ⟨hasks, hsucceeds hsuccess⟩⟩, ?_⟩
      rintro _ d' ⟨⟩ hsaved
      exact hsaves d' hsaved
    · obtain ⟨hcode, hdirectory⟩ := run_of_question hread hasks
      exact ⟨fun _ => hdirectory, fun _ => ⟨i, rfl, .inl ⟨hasks, hdirectory⟩⟩,
        fun _ _ _ _ => hcode⟩

/-- An object without bytes, and an image that is all header. -/
example :
    finalDirectory { entries := [(["a.o".toList], .file [])] }
      (run { entries := [(["a.o".toList], .file [])] }
        ["--pal".toList, "-o".toList, "a.nes".toList, "a.o".toList])
    = { entries := [(["a.o".toList], .file []),
        (["a.nes".toList],
          .file [0x4E, 0x45, 0x53, 0x1A, 0, 0, 0, 0, 0, 1, 0, 0, 0, 0, 0, 0])] } := by
  decide

end Link

end Command

end Cross6502
