import Breadboard.Command.Run
import Breadboard.Proofs.Saving

/-!
# What a request does

The exit code of a request and the disk it leaves. Assembling a file succeeds exactly if the file holds
a text, the text has an image and the disk takes the image, and then the image is all that the run
leaves (`Image.Saved`). Up to the saving no file is touched, and a failed saving leaves at most one
temporary file less (`Image.Unsaved`). Everything is said of the disk before the run, so source,
destination and temporary file may be the same file.
-/

namespace Breadboard

open DiskM

/-- The file at a path holds a text in UTF-8. -/
def Disk.HoldsText (disk : Disk) (path text : String) : Prop :=
  ∃ bytes, disk.read path = .ok bytes ∧ bytes.toByteArray = text.toUTF8

/-- A text assembles to a program that fits in the memory, with this image. -/
def HasImage (text : String) (image : Image) : Prop :=
  ∃ program, assemble text = .ok program ∧ program.image = .ok image

theorem decodeText_eq_ok_iff {bytes : List UInt8} {text : String} :
    decodeText bytes = .ok text ↔ bytes.toByteArray = text.toUTF8 := by
  unfold decodeText String.fromUTF8?
  by_cases hvalid : bytes.toByteArray.IsValidUTF8
  · simp only [hvalid, dif_pos, Except.ok.injEq]
    constructor
    · rintro rfl
      rfl
    · intro h
      exact String.toByteArray_inj.1 h
  · simp only [hvalid, dif_neg, not_false_eq_true, reduceCtorEq, false_iff]
    intro h
    exact hvalid (h ▸ text.isValidUTF8)

theorem Disk.HoldsText.unique {disk : Disk} {path text text' : String}
    (h : disk.HoldsText path text) (h' : disk.HoldsText path text') : text = text' := by
  obtain ⟨bytes, hread, htext⟩ := h
  obtain ⟨bytes', hread', htext'⟩ := h'
  obtain rfl : bytes = bytes' := Except.ok.inj (hread.symm.trans hread')
  exact String.toByteArray_inj.1 (htext.symm.trans htext')

theorem HasImage.unique {text : String} {image image' : Image} (h : HasImage text image)
    (h' : HasImage text image') : image = image' := by
  obtain ⟨program, hassemble, himage⟩ := h
  obtain ⟨program', hassemble', himage'⟩ := h'
  obtain rfl : program = program' := Except.ok.inj (hassemble.symm.trans hassemble')
  exact Except.ok.inj (himage.symm.trans himage')

theorem build_eq_ok_iff {text : String} {program : Program} {image : Image} :
    build text = .ok (program, image) ↔
      assemble text = .ok program ∧ program.image = .ok image := by
  simp only [build, bind_eq_ok_iff, mapError_eq_ok_iff, pure, Except.pure, Except.ok.injEq,
    Prod.mk.injEq]
  constructor
  · rintro ⟨program, hassemble, image, himage, rfl, rfl⟩
    exact ⟨hassemble, himage⟩
  · rintro ⟨hassemble, himage⟩
    exact ⟨program, hassemble, image, himage, rfl, rfl⟩

/-- A report has at least the line end of its first line. -/
theorem Diagnostic.report_ne_empty (file : String) (diagnostic : Diagnostic) :
    diagnostic.report file ≠ "" := by
  intro h
  have hlength := congrArg String.length h
  simp [report, reportLines, String.join_cons] at hlength

namespace Job

variable {job : Job} {trouble : Trouble} {disk : Disk}

/-- The text of the source, or the fault that keeps it from being read. -/
def sourceText (job : Job) (disk : Disk) : Except Fault String :=
  (disk.read job.source >>= decodeText).mapError (.unreadable job.source)

theorem sourceText_eq_ok_iff {text : String} :
    job.sourceText disk = .ok text ↔ disk.HoldsText job.source text := by
  simp only [sourceText, mapError_eq_ok_iff, bind_eq_ok_iff, decodeText_eq_ok_iff, Disk.HoldsText]

/-- The stages of a run: only the last one acts on the disk. -/
theorem run_eq (job : Job) (trouble : Trouble) (disk : Disk) :
    (job.run : DiskM _) trouble disk =
      match job.sourceText disk with
      | .error fault => (job.failure job.readingText (.general fault), disk)
      | .ok text =>
        match build text with
        | .error diagnostic => (job.failure (job.readingText ++ assemblingText) diagnostic, disk)
        | .ok (program, image) =>
          let out := job.readingText ++ assemblingText ++ job.summaryText program ++ savingText
          match (image.save job.dest : DiskM _) trouble disk with
          | (.error fault, after) => (job.failure out (.general fault), after)
          | (.ok _, after) => (⟨0, out ++ job.savedText, ""⟩, after) := by
  unfold run
  rw [bind_apply]
  change (match job.sourceText disk with | .error _ => _ | .ok _ => _ : DiskM Outcome) trouble disk = _
  cases job.sourceText disk with
  | error fault => rfl
  | ok text =>
    dsimp only
    cases build text with
    | error diagnostic => rfl
    | ok built =>
      obtain ⟨program, image⟩ := built
      dsimp only
      rw [bind_apply]
      rcases (image.save job.dest : DiskM _) trouble disk with ⟨- | -, after⟩ <;> rfl

/-- The first two stages of a run succeed with an image. -/
theorem exists_image_iff : (∃ text image, disk.HoldsText job.source text ∧ HasImage text image) ↔
    ∃ text program image, job.sourceText disk = .ok text ∧ build text = .ok (program, image) := by
  simp only [sourceText_eq_ok_iff, build_eq_ok_iff, HasImage]
  constructor
  · rintro ⟨text, image, htext, program, himage⟩
    exact ⟨text, program, image, htext, himage⟩
  · rintro ⟨text, program, image, htext, himage⟩
    exact ⟨text, image, htext, program, himage⟩

/-- What is asked for besides the listing decides about the exit code and the disk. -/
theorem run_listing (job : Job) (listing : Bool) (trouble : Trouble) (disk : Disk) :
    (({ job with listing := listing }.run : DiskM _) trouble disk).1.code =
        ((job.run : DiskM _) trouble disk).1.code ∧
      (({ job with listing := listing }.run : DiskM _) trouble disk).2 =
        ((job.run : DiskM _) trouble disk).2 := by
  have hsource : ({ job with listing := listing } : Job).sourceText disk = job.sourceText disk := rfl
  have hdest : ({ job with listing := listing } : Job).dest = job.dest := rfl
  rw [run_eq, run_eq, hsource, hdest]
  cases job.sourceText disk with
  | error fault => simp [failure]
  | ok text =>
    dsimp only
    cases build text with
    | error diagnostic => simp [failure]
    | ok built =>
      obtain ⟨program, image⟩ := built
      dsimp only
      rcases (image.save job.dest : DiskM _) trouble disk with ⟨- | -, after⟩ <;> simp [failure]

/-- The exit code and the disk after a job that was run on `disk`, where `dest` is the path of the
image. -/
structure Effects (job : Job) (dest : String) (trouble : Trouble) (disk : Disk) (outcome : Outcome)
    (after : Disk) : Prop where
  /-- A run succeeds exactly if all its stages do. -/
  code_eq_zero_iff : outcome.code = 0 ↔
    ∃ text image, disk.HoldsText job.source text ∧ HasImage text image ∧
      ((image.save dest : DiskM _) trouble disk).1 = .ok ()
  /-- The last stage depends on the disk and the destination alone. -/
  saves_iff : ∀ image : Image, ((image.save dest : DiskM _) trouble disk).1 = .ok () ↔
    Image.Takes trouble disk dest
  /-- The image is that of the text which the source held before the run. -/
  saved : outcome.code = 0 → ∀ text image, disk.HoldsText job.source text → HasImage text image →
    image.Saved dest disk after
  /-- There is one exit code for failures, and none is silent. -/
  failed : outcome.code ≠ 0 → outcome.code = 1 ∧ outcome.err ≠ ""
  /-- Without an image nothing is touched. -/
  untouched : (¬ ∃ text image, disk.HoldsText job.source text ∧ HasImage text image) → after = disk
  /-- With an image that cannot be saved, at most a temporary file is gone. -/
  unsaved : outcome.code ≠ 0 → (∃ text image, disk.HoldsText job.source text ∧ HasImage text image) →
    Image.Unsaved dest disk after
  /-- The listing is text and nothing else. -/
  listing : ∀ listing, (({ job with listing := listing }.run : DiskM _) trouble disk).1.code =
      outcome.code ∧ (({ job with listing := listing }.run : DiskM _) trouble disk).2 = after

/-- A run that ends before there is an image. -/
theorem effects_of_no_image {out : String} {diagnostic : Diagnostic}
    (himage : ¬ ∃ text image, disk.HoldsText job.source text ∧ HasImage text image)
    (hrun : (job.run : DiskM _) trouble disk = (job.failure out diagnostic, disk)) :
    job.Effects job.dest trouble disk (job.failure out diagnostic) disk where
  code_eq_zero_iff := by
    refine ⟨nofun, ?_⟩
    rintro ⟨text, image, htext, hprogram, -⟩
    exact absurd ⟨text, image, htext, hprogram⟩ himage
  saves_iff _ := Image.save_eq_ok_iff
  saved hcode := nomatch hcode
  failed _ := ⟨rfl, diagnostic.report_ne_empty job.source⟩
  untouched _ := rfl
  unsaved _ h := absurd h himage
  listing listing := by simpa only [hrun] using job.run_listing listing trouble disk

/-- A run that comes to the saving of an image: what the text is and what its image is cannot change
any more. -/
theorem effects_of_image {text : String} {image : Image} {outcome : Outcome} {after : Disk}
    (htext : disk.HoldsText job.source text) (himage : HasImage text image)
    (hrun : (job.run : DiskM _) trouble disk = (outcome, after))
    (hcode : outcome.code = 0 ↔ Image.Takes trouble disk job.dest)
    (hsaved : outcome.code = 0 → image.Saved job.dest disk after)
    (hunsaved : outcome.code ≠ 0 → Image.Unsaved job.dest disk after)
    (hfailed : outcome.code ≠ 0 → outcome.code = 1 ∧ outcome.err ≠ "") :
    job.Effects job.dest trouble disk outcome after where
  code_eq_zero_iff := by
    rw [hcode]
    constructor
    · intro htakes
      exact ⟨text, image, htext, himage, Image.save_eq_ok_iff.2 htakes⟩
    · rintro ⟨text', image', -, -, hsave⟩
      exact Image.save_eq_ok_iff.1 hsave
  saves_iff _ := Image.save_eq_ok_iff
  saved hzero text' image' htext' himage' := by
    obtain rfl := htext.unique htext'
    obtain rfl := himage.unique himage'
    exact hsaved hzero
  failed := hfailed
  untouched hnone := absurd ⟨text, image, htext, himage⟩ hnone
  unsaved hne _ := hunsaved hne
  listing listing := by simpa only [hrun] using job.run_listing listing trouble disk

theorem effects_run (job : Job) (trouble : Trouble) (disk : Disk) :
    job.Effects job.dest trouble disk ((job.run : DiskM _) trouble disk).1
      ((job.run : DiskM _) trouble disk).2 := by
  have hrun := job.run_eq trouble disk
  cases htext : job.sourceText disk with
  | error fault =>
    rw [htext] at hrun
    rw [hrun]
    refine effects_of_no_image ?_ hrun
    rw [exists_image_iff]
    simp [htext]
  | ok text =>
    rw [htext] at hrun
    dsimp only at hrun
    cases hbuild : build text with
    | error diagnostic =>
      rw [hbuild] at hrun
      rw [hrun]
      refine effects_of_no_image ?_ hrun
      rw [exists_image_iff]
      simp [htext, hbuild]
    | ok built =>
      obtain ⟨program, image⟩ := built
      rw [hbuild] at hrun
      dsimp only at hrun
      have hholds := sourceText_eq_ok_iff.1 htext
      have himage : HasImage text image := ⟨program, build_eq_ok_iff.1 hbuild⟩
      have hends := image.ends_save job.dest trouble disk
      generalize (image.save job.dest : DiskM _) trouble disk = saving at hrun hends
      cases hends with
      | well htakes hsaved =>
        rw [hrun]
        exact effects_of_image hholds himage hrun (by simp [htakes]) (fun _ => hsaved)
          (fun hne => absurd rfl hne) (fun hne => absurd rfl hne)
      | badly htakes hkept =>
        rw [hrun]
        exact effects_of_image hholds himage hrun (by simp [htakes, failure]) nofun
          (fun _ => hkept.2) (fun _ => ⟨rfl, Diagnostic.report_ne_empty _ _⟩)

end Job

/-- The exit code and the disk after a request. The image of a job goes to the path in the request;
where there is none, `.bin` is put behind the whole path of the source. -/
def Request.Effects (trouble : Trouble) (disk : Disk) (outcome : Outcome) (after : Disk) :
    Request → Prop
  | help => outcome.code = 0 ∧ after = disk
  | version => outcome.code = 0 ∧ after = disk
  | misuse => outcome.code = 2 ∧ after = disk
  | assemble job =>
    job.Effects (job.dest?.getD (job.source ++ ".bin")) trouble disk outcome after

/-- **A request does what it should and nothing else.** Only a job touches the disk, and its exit code
tells whether the image of its source is at its destination. -/
theorem effects_of_request (request : Request) (trouble : Trouble) (disk : Disk) :
    request.Effects trouble disk ((request.run : DiskM _) trouble disk).1
      ((request.run : DiskM _) trouble disk).2 := by
  cases request with
  | help => exact ⟨rfl, rfl⟩
  | version => exact ⟨rfl, rfl⟩
  | misuse => exact ⟨rfl, rfl⟩
  | assemble job => exact job.effects_run trouble disk

end Breadboard
