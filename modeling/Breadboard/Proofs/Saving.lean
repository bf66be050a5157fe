import Breadboard.Proofs.Places

/-!
# Saving an image, step by step

What each step on the way to a saved image can do to the disk. A `Frame` names the paths at which files
may have changed; all directories and all other files stay. Every step has a frame and a condition
under which it ends well (`Ends`), steps follow each other (`DiskM.ends_bind`), and so
`Image.ends_save` says what a whole run leaves behind: an image is saved exactly if the disk takes it
(`Image.Takes`), and otherwise at most the temporary file is gone.
-/

namespace Breadboard

namespace Disk

variable {disk disk' after : Disk} {path source target : String} {paths paths' : List String}
  {loc : Location} {bytes : List UInt8}

/-! ## Frames -/

/-- `after` differs from `disk` at most in the files at some paths. -/
structure Frame (paths : List String) (disk after : Disk) : Prop extends
    SameDirectories disk after where
  get?_eq : ∀ loc, (∀ path ∈ paths, disk.place? path ≠ some loc) → after.get? loc = disk.get? loc

namespace Frame

theorem refl (paths : List String) (disk : Disk) : Frame paths disk disk :=
  ⟨.refl disk, fun _ _ => rfl⟩

/-- The paths of the second frame have the same places before the first change. -/
theorem trans (h : Frame paths disk disk') (h' : Frame paths' disk' after) :
    Frame (paths ++ paths') disk after := by
  refine ⟨h.toSameDirectories.trans h'.toSameDirectories, fun loc hloc => ?_⟩
  obtain ⟨hloc, hloc'⟩ := List.forall_mem_append.1 hloc
  rw [h'.get?_eq loc fun path hmem => by rw [h.place?_eq]; exact hloc' path hmem,
    h.get?_eq loc hloc]

theorem mono (h : Frame paths disk after) (hsub : paths ⊆ paths') : Frame paths' disk after :=
  ⟨h.toSameDirectories, fun loc hloc => h.get?_eq loc fun path hmem => hloc path (hsub hmem)⟩

/-- Two changes of the files at the same paths. -/
theorem trans_self (h : Frame paths disk disk') (h' : Frame paths disk' after) :
    Frame paths disk after :=
  (h.trans h').mono (by simp)

end Frame

/-- A disk with something else at the place of one path, where no directory is or was. -/
theorem frame_of_get?_eq {held? : Option Entry} (hplace : disk.place? path = some loc)
    (hfile : disk.get? loc ≠ some .directory) (hheld : held? ≠ some .directory)
    (hhome : after.home = disk.home)
    (hget : ∀ other, after.get? other = if other = loc then held? else disk.get? other) :
    Frame [path] disk after := by
  refine ⟨⟨hhome, fun other => ?_⟩, fun other hother => ?_⟩
  · rw [hget other]
    split
    · rename_i heq
      simp [heq, hfile, hheld]
    · rfl
  · have hne : other ≠ loc := by
      rintro rfl
      exact hother path List.mem_cons_self hplace
    rw [hget other, if_neg hne]

theorem not_isSuffix_home (h : disk.get? loc ≠ some .directory) : ¬ loc <:+ disk.home :=
  fun hsuffix => h (if_pos hsuffix)

theorem frame_put (hplace : disk.place? path = some loc) (hfile : disk.get? loc ≠ some .directory)
    (bytes : List UInt8) : Frame [path] disk (disk.put loc (.file bytes)) :=
  frame_of_get?_eq hplace hfile (by simp) rfl
    (disk.get?_put (not_isSuffix_home hfile) (.file bytes))

theorem frame_erase (hplace : disk.place? path = some loc)
    (hfile : disk.get? loc ≠ some .directory) : Frame [path] disk (disk.erase loc) :=
  frame_of_get?_eq hplace hfile (by simp) rfl (disk.get?_erase (not_isSuffix_home hfile))

theorem read_put (hplace : disk.place? path = some loc) (hfile : disk.get? loc ≠ some .directory)
    (bytes : List UInt8) : (disk.put loc (.file bytes)).read path = .ok bytes := by
  refine read_eq_ok_iff.2 ⟨loc, ?_, ?_⟩
  · rw [(frame_put hplace hfile bytes).place?_eq, hplace]
  · rw [disk.get?_put (not_isSuffix_home hfile), if_pos rfl]

/-! ## Changes of a disk -/

/-- A file can be put at a path. -/
def Fits (disk : Disk) (path : String) : Prop :=
  ∃ loc, disk.place? path = some loc ∧ disk.get? loc ≠ some .directory

instance (disk : Disk) (path : String) : Decidable (disk.Fits path) :=
  decidable_of_iff (∃ loc ∈ disk.place? path, disk.get? loc ≠ some .directory) Iff.rfl

theorem SameDirectories.fits_iff (h : SameDirectories disk disk') :
    disk'.Fits path ↔ disk.Fits path := by
  simp only [Fits, h.place?_eq, ne_eq, h.directory_iff]

theorem exists_write_eq_ok_iff : (∃ after, disk.write path bytes = .ok after) ↔ disk.Fits path := by
  simp only [write_eq_ok_iff]
  constructor
  · rintro ⟨after, loc, hplace, hfile, -⟩
    exact ⟨loc, hplace, hfile⟩
  · rintro ⟨loc, hplace, hfile⟩
    exact ⟨_, loc, hplace, hfile, rfl⟩

theorem frame_write (h : disk.write path bytes = .ok after) : Frame [path] disk after := by
  obtain ⟨loc, hplace, hfile, rfl⟩ := write_eq_ok_iff.1 h
  exact frame_put hplace hfile bytes

theorem read_write (h : disk.write path bytes = .ok after) : after.read path = .ok bytes := by
  obtain ⟨loc, hplace, hfile, rfl⟩ := write_eq_ok_iff.1 h
  exact read_put hplace hfile bytes

theorem exists_rename_eq_ok_iff (hread : disk.read source = .ok bytes) :
    (∃ after, disk.rename source target = .ok after) ↔ disk.Fits target := by
  obtain ⟨old, hold, hget⟩ := read_eq_ok_iff.1 hread
  simp only [rename_eq_ok_iff]
  constructor
  · rintro ⟨after, -, new, -, -, hnew, -, hfile, -⟩
    exact ⟨new, hnew, hfile⟩
  · rintro ⟨new, hnew, hfile⟩
    exact ⟨_, old, new, bytes, hold, hnew, hget, hfile, rfl⟩

/-- A moved file is at its new path, and at its old one nothing is left. -/
theorem rename_moves (h : disk.rename source target = .ok after)
    (hread : disk.read source = .ok bytes)
    (hne : ∀ old new, disk.place? source = some old → disk.place? target = some new → old ≠ new) :
    Frame [source, target] disk after ∧ after.read target = .ok bytes ∧
      ∀ content, after.read source ≠ .ok content := by
  obtain ⟨old, new, moved, hold, hnew, hget, hfile, rfl⟩ := rename_eq_ok_iff.1 h
  obtain rfl : moved = bytes := by
    obtain ⟨loc, hloc, hbytes⟩ := read_eq_ok_iff.1 hread
    obtain rfl : loc = old := by simpa [hloc] using hold
    simpa [hget] using hbytes
  have hold_file : disk.get? old ≠ some .directory := by simp [hget]
  have herase := frame_erase hold hold_file
  have hnew' : (disk.erase old).place? target = some new := by rw [herase.place?_eq, hnew]
  have hfile' : (disk.erase old).get? new ≠ some .directory := by
    rwa [ne_eq, herase.directory_iff]
  have hframe := herase.trans (frame_put hnew' hfile' moved)
  refine ⟨hframe, read_put hnew' hfile' moved, fun content hcontent => ?_⟩
  obtain ⟨loc, hloc, hbytes⟩ := read_eq_ok_iff.1 hcontent
  obtain rfl : loc = old := by
    rw [hframe.place?_eq, hold] at hloc
    exact (Option.some.inj hloc).symm
  rw [get?_put _ (not_isSuffix_home hfile'), if_neg (hne _ _ hold hnew),
    disk.get?_erase (not_isSuffix_home hold_file), if_pos rfl] at hbytes
  cases hbytes

end Disk

/-! ## Steps -/

/-- A run ends well exactly if `can` holds; `made` holds of the disk it then leaves, and `kept` of a
failure and the disk that is left with it. -/
inductive Ends {ε : Type} (can : Prop) (made : Disk → Prop) (kept : ε → Disk → Prop) :
    Except ε Unit × Disk → Prop
  | well {after : Disk} (hcan : can) (hmade : made after) : Ends can made kept (.ok (), after)
  | badly {cause : ε} {after : Disk} (hcan : ¬ can) (hkept : kept cause after) :
    Ends can made kept (.error cause, after)

/-- The same ends, said in other words. -/
theorem Ends.imp {ε : Type} {can can' : Prop} {made made' : Disk → Prop}
    {kept kept' : ε → Disk → Prop} {run : Except ε Unit × Disk} (h : Ends can made kept run)
    (hcan : can ↔ can') (hmade : ∀ after, made after → made' after)
    (hkept : ∀ cause after, kept cause after → kept' cause after) : Ends can' made' kept' run := by
  cases h with
  | well h hafter => exact .well (hcan.1 h) (hmade _ hafter)
  | badly h hafter => exact .badly (fun h' => h (hcan.2 h')) (hkept _ _ hafter)

namespace DiskM

open Disk

variable {trouble : Trouble} {disk : Disk} {path source target : String} {bytes : List UInt8}

/-- Effects follow each other on the disk that the first ones leave. -/
theorem bind_apply {α β : Type} (first : DiskM α) (next : α → DiskM β) (trouble : Trouble)
    (disk : Disk) : (first >>= next) trouble disk =
      next (first trouble disk).1 trouble (first trouble disk).2 :=
  rfl

/-- A step and the rest after it: the rest starts from a disk that the step leaves when it ends
well. -/
theorem ends_bind {step : DiskM (Except FileError Unit)} {rest : ExceptT FileError DiskM Unit}
    {can can' : Prop} {made made' : Disk → Prop} {kept kept' : FileError → Disk → Prop}
    (hstep : Ends can made kept (step trouble disk))
    (hrest : ∀ after, made after → Ends can' made' kept' (rest.run trouble after))
    (hkept : ∀ cause after, kept cause after → kept' cause after) :
    Ends (can ∧ can') made' kept' ((ExceptT.mk step >>= fun _ => rest).run trouble disk) := by
  rw [ExceptT.run_bind, bind_apply, ExceptT.run_mk]
  generalize step trouble disk = run at hstep
  cases hstep with
  | well hcan hafter =>
    exact (hrest _ hafter).imp (by simp [hcan]) (fun _ => id) (fun _ _ => id)
  | badly hcan hafter => exact .badly (fun h => hcan h.1) (hkept _ _ hafter)

/-- A change of the disk is made, or the disk stays as it is. -/
theorem ends_change (f : Disk → Except FileError Disk) (trouble : Trouble) (disk : Disk) :
    Ends (∃ after, f disk = .ok after) (f disk = .ok ·) (fun _ after => after = disk)
      (change f trouble disk) := by
  unfold change
  cases h : f disk with
  | ok after => exact .well ⟨after, rfl⟩ rfl
  | error cause => exact .badly (by simp) rfl

/-- Trouble is one more reason for the disk to stay as it is. -/
theorem ends_attempt (trouble? : Trouble → Option FileError) (f : Disk → Except FileError Disk)
    (trouble : Trouble) (disk : Disk) :
    Ends (trouble? trouble = none ∧ ∃ after, f disk = .ok after) (f disk = .ok ·)
      (fun _ after => after = disk) (attempt trouble? f trouble disk) := by
  unfold attempt
  cases htrouble : trouble? trouble with
  | some cause => exact .badly (by simp) rfl
  | none => simpa only [true_and] using ends_change f trouble disk

/-! ## The file operations of a run -/

theorem ends_create (path : String) (trouble : Trouble) (disk : Disk) :
    Ends (trouble.create? = none ∧ disk.Fits path) (Frame [path] disk)
      (fun _ after => after = disk) ((FileAccess.create path : DiskM _) trouble disk) :=
  (ends_attempt Trouble.create? (·.write path []) trouble disk).imp
    (and_congr_right fun _ => exists_write_eq_ok_iff) (fun _ => frame_write) (fun _ _ => id)

/-- In trouble a part of the bytes may be in the file. -/
theorem ends_write (path : String) (bytes : List UInt8) (trouble : Trouble) (disk : Disk) :
    Ends (trouble.write? = none ∧ disk.Fits path)
      (fun after => Frame [path] disk after ∧ after.read path = .ok bytes)
      (fun _ after => Frame [path] disk after)
      ((FileAccess.write path bytes : DiskM _) trouble disk) := by
  change Ends _ _ _ (DiskM.write path bytes trouble disk)
  unfold DiskM.write
  cases htrouble : trouble.write? with
  | none =>
    refine (ends_change (·.write path bytes) trouble disk).imp ?_ ?_ ?_
    · rw [exists_write_eq_ok_iff, and_iff_right rfl]
    · exact fun after hwrite => ⟨frame_write hwrite, read_write hwrite⟩
    · rintro cause after rfl
      exact .refl _ after
  | some stop =>
    obtain ⟨count, cause⟩ := stop
    refine .badly (by simp) ?_
    have hpart := ends_change (·.write path (bytes.take count)) trouble disk
    change Frame [path] disk (change (·.write path (bytes.take count)) trouble disk).2
    generalize change (·.write path (bytes.take count)) trouble disk = run at hpart ⊢
    cases hpart with
    | well _ hwrite => exact frame_write hwrite
    | badly _ hkept =>
      rw [hkept]
      exact .refl _ disk

theorem ends_sync (path : String) (trouble : Trouble) (disk : Disk) :
    Ends (trouble.sync? = none) (· = disk) (fun _ after => after = disk)
      ((FileAccess.sync path : DiskM _) trouble disk) :=
  (ends_attempt Trouble.sync? .ok trouble disk).imp (by simp) (by simp) (fun _ _ => id)

/-- A file that can be read is moved to another place. -/
theorem ends_rename (trouble : Trouble) (hread : disk.read source = .ok bytes)
    (hne : ∀ old new, disk.place? source = some old → disk.place? target = some new → old ≠ new) :
    Ends (trouble.rename? = none ∧ disk.Fits target)
      (fun after => Frame [source, target] disk after ∧ after.read target = .ok bytes ∧
        ∀ content, after.read source ≠ .ok content)
      (fun _ after => after = disk) ((FileAccess.rename source target : DiskM _) trouble disk) :=
  (ends_attempt Trouble.rename? (·.rename source target) trouble disk).imp
    (and_congr_right fun _ => exists_rename_eq_ok_iff hread)
    (fun _ hrename => rename_moves hrename hread hne) (fun _ _ => id)

/-- After a file was taken away, or could not be, there is none. -/
theorem frame_remove (path : String) (trouble : Trouble) (disk : Disk) :
    Frame [path] disk ((FileAccess.remove path : DiskM _) trouble disk).2 ∧
      ∀ bytes, ((FileAccess.remove path : DiskM _) trouble disk).2.read path ≠ .ok bytes := by
  have hremove := ends_change (·.remove path) trouble disk
  change Frame [path] disk (change (·.remove path) trouble disk).2 ∧
    ∀ bytes, (change (·.remove path) trouble disk).2.read path ≠ .ok bytes
  generalize change (·.remove path) trouble disk = run at hremove ⊢
  cases hremove with
  | well _ hremove =>
    obtain ⟨loc, bytes, hplace, hget, rfl⟩ := remove_eq_ok_iff.1 hremove
    have hfile : disk.get? loc ≠ some .directory := by simp [hget]
    have hframe := frame_erase hplace hfile
    refine ⟨hframe, fun content hcontent => ?_⟩
    obtain ⟨other, hother, hcontent⟩ := read_eq_ok_iff.1 hcontent
    obtain rfl : loc = other := by simpa [hframe.place?_eq, hplace] using hother
    simp [disk.get?_erase (not_isSuffix_home hfile)] at hcontent
  | badly hremove hkept =>
    rw [hkept]
    refine ⟨.refl _ disk, fun bytes hread => hremove ?_⟩
    obtain ⟨loc, hplace, hget⟩ := read_eq_ok_iff.1 hread
    exact ⟨_, remove_eq_ok_iff.2 ⟨loc, bytes, hplace, hget, rfl⟩⟩

end DiskM

/-! ## The whole run -/

namespace Image

open Disk DiskM

/-- A disk takes an image at a path: no trouble comes, and a file can be put at the path and at the
temporary path. -/
structure Takes (trouble : Trouble) (disk : Disk) (path : String) : Prop where
  calm : trouble = {}
  fits : disk.Fits path
  temporary_fits : disk.Fits (path ++ ".tmp")

instance (trouble : Trouble) (disk : Disk) (path : String) : Decidable (Takes trouble disk path) :=
  decidable_of_iff (trouble = {} ∧ disk.Fits path ∧ disk.Fits (temporaryPath path))
    ⟨fun ⟨hcalm, hfits, htemporary⟩ => ⟨hcalm, hfits, htemporary⟩,
      fun ⟨hcalm, hfits, htemporary⟩ => ⟨hcalm, hfits, htemporary⟩⟩

theorem takes_iff {trouble : Trouble} {disk : Disk} {path : String} : Takes trouble disk path ↔
    (trouble.create? = none ∧ disk.Fits (temporaryPath path)) ∧
      (trouble.write? = none ∧ disk.Fits (temporaryPath path)) ∧
      trouble.sync? = none ∧ trouble.rename? = none ∧ disk.Fits path := by
  constructor
  · rintro ⟨rfl, hfits, htemporary⟩
    exact ⟨⟨rfl, htemporary⟩, ⟨rfl, htemporary⟩, rfl, rfl, hfits⟩
  · rintro ⟨⟨hcreate, htemporary⟩, ⟨hwrite, -⟩, hsync, hrename, hfits⟩
    refine ⟨?_, hfits, htemporary⟩
    cases trouble
    simp_all

/-- The disk after an image was saved: it is at the path, and no temporary file is left. -/
structure Saved (image : Image) (path : String) (disk after : Disk) : Prop where
  frame : Frame [path ++ ".tmp", path] disk after
  read_eq : after.read path = .ok image.bytes
  no_temporary : ∀ bytes, after.read (path ++ ".tmp") ≠ .ok bytes

/-- The disk after an image could not be saved: at most a temporary file is gone. -/
structure Unsaved (path : String) (disk after : Disk) : Prop where
  frame : Frame [path ++ ".tmp"] disk after
  no_temporary : ∀ bytes, after.read (path ++ ".tmp") ≠ .ok bytes

/-- The first step that fails leaves at most a change of the temporary file. -/
theorem ends_store (image : Image) (path : String) (trouble : Trouble) (disk : Disk) :
    Ends (Takes trouble disk path) (image.Saved path disk)
      (fun _ after => Frame [temporaryPath path] disk after)
      ((image.store (temporaryPath path) path : ExceptT FileError DiskM Unit).run trouble disk) := by
  refine Ends.imp ?_ takes_iff.symm (fun _ => id) (fun _ _ => id)
  unfold store
  refine ends_bind (ends_create _ trouble disk) (fun created hcreated => ?_)
    (fun _ _ h => h ▸ .refl _ _)
  rw [← hcreated.fits_iff]
  refine ends_bind (ends_write _ image.bytes trouble created) (fun written hwritten => ?_)
    (fun _ _ h => hcreated.trans_self h)
  have hframe := hcreated.trans_self hwritten.1
  refine ends_bind (ends_sync _ trouble written) (fun synced hsynced => ?_)
    (fun _ _ h => h ▸ hframe)
  subst hsynced
  refine (ends_rename trouble hwritten.2 ?_).imp ?_ ?_ ?_
  · exact fun old new hold hnew => place?_temporaryPath_ne hnew hold
  · rw [hframe.fits_iff]
  · rintro after ⟨hmoved, hread, htemporary⟩
    exact ⟨(hframe.trans hmoved).mono (by simp [temporaryPath]), hread, htemporary⟩
  · rintro cause after rfl
    exact hframe

/-- **Saving is all or nothing.** An image is saved if the disk takes it; otherwise the failure names
the path, and at most a temporary file is gone. -/
theorem ends_save (image : Image) (path : String) (trouble : Trouble) (disk : Disk) :
    Ends (Takes trouble disk path) (image.Saved path disk)
      (fun fault after => (∃ cause, fault = .unwritable path cause) ∧ Unsaved path disk after)
      ((image.save path : DiskM _) trouble disk) := by
  have hstore := image.ends_store path trouble disk
  unfold save
  rw [bind_apply]
  generalize (image.store (temporaryPath path) path : ExceptT FileError DiskM Unit).run trouble disk
    = run at hstore ⊢
  cases hstore with
  | well hcan hsaved => exact .well hcan hsaved
  | badly hcan hframe =>
    have hremove := frame_remove (temporaryPath path) trouble
    exact .badly hcan ⟨⟨_, rfl⟩, hframe.trans_self (hremove _).1, (hremove _).2⟩

theorem save_eq_ok_iff {image : Image} {path : String} {trouble : Trouble} {disk : Disk} :
    ((image.save path : DiskM _) trouble disk).1 = .ok () ↔ Takes trouble disk path := by
  have hsave := image.ends_save path trouble disk
  generalize (image.save path : DiskM _) trouble disk = run at hsave ⊢
  cases hsave with
  | well hcan _ => simpa using hcan
  | badly hcan _ => simpa using hcan

/-- A file at the path or at the temporary path is no obstacle, a directory at either is one. -/
example :
    Takes {} { entries := [(["a.bin"], .file [1]), (["a.bin.tmp"], .file [2])] } "a.bin" ∧
      ¬ Takes {} { entries := [(["a.bin.tmp"], .directory)] } "a.bin" ∧
      ¬ Takes {} { entries := [(["a.bin"], .directory)] } "a.bin/" := by
  decide +kernel

end Image

end Breadboard
