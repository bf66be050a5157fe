import Breadboard.Proofs.Saving

/-!
# Saving is all or nothing

What a path leads to after an image was, or was not, saved there. A run that fails has changed at
most the file at the temporary path, so the point is that this is never what the path itself leads
to (`Disk.Frame.found?_eq`). For a path that ends in a name this was seen before: the two names
differ. A path that ends in a slash, in `.` or in `..` leads to a directory, or else there is no
temporary file at all; and no step of a run takes a directory away or makes one.
-/

namespace Breadboard

namespace Disk

variable {disk after : Disk} {path name : String} {parent loc : Location} {target : Target}
  {held : Entry}

/-- The location to which a path leads. -/
def Target.location : Target → Location
  | directory loc => loc
  | entry parent name _ => name :: parent

/-- What is found where a path leads: a file, a directory or nothing. -/
def found? (disk : Disk) (path : String) : Option Entry :=
  match disk.resolve path with
  | .ok target => disk.get? target.location
  | .error _ => none

theorem found?_of_resolve (h : disk.resolve path = .ok target) :
    disk.found? path = disk.get? target.location := by
  simp [found?, h]

theorem found?_of_place? (h : disk.place? path = some loc) : disk.found? path = disk.get? loc := by
  obtain ⟨parent, name, hresolve, rfl⟩ := place?_eq_some_iff.1 h
  exact found?_of_resolve hresolve

/-! ## Where a path leads -/

/-- A path leads to a name in the directory that its other steps reach, or else by a last step that
is no name to a directory on the way there. -/
theorem resolve_cases (h : disk.resolve path = .ok target) :
    ∃ parent, disk.walk (disk.origin path) (steps path).dropLast = .ok parent ∧
      ((∃ name, (steps path).getLast? = some name ∧ name ≠ "." ∧ name ≠ ".." ∧
          target = .entry parent name (endsInSlash path)) ∨
        ∃ loc, (∀ name, (steps path).getLast? = some name → name = "." ∨ name = "..") ∧
          loc <:+ parent ∧ target = .directory loc) := by
  unfold resolve at h
  split at h
  · cases h
  split at h
  · cases h
  split at h
  · cases h
  obtain ⟨parent, hwalk, h⟩ := bind_eq_ok_iff.1 h
  refine ⟨parent, hwalk, ?_⟩
  split at h
  · rename_i hlast
    cases h
    exact .inr ⟨parent, by simp [hlast], List.suffix_rfl, rfl⟩
  · rename_i step hlast
    split at h
    · rename_i hdot
      cases h
      exact .inr ⟨parent, by simp [hlast, hdot], List.suffix_rfl, rfl⟩
    split at h
    · rename_i hdots
      cases h
      exact .inr ⟨parent.tail, by simp [hlast, hdots], List.tail_suffix parent, rfl⟩
    split at h
    · cases h
    · rename_i hdot hdots _
      cases h
      exact .inl ⟨step, hlast, hdot, hdots, rfl⟩

/-- Where a path leads depends on the directories alone. -/
theorem SameDirectories.resolve_eq_ok_iff (h : SameDirectories disk after) :
    after.resolve path = .ok target ↔ disk.resolve path = .ok target := by
  have horigin : after.origin path = disk.origin path := by rw [origin, origin, h.home_eq]
  unfold resolve
  split
  · rfl
  split
  · rfl
  split
  · rfl
  · simp only [bind_eq_ok_iff, h.walk_eq_ok_iff, horigin]

/-! ## Directories on the way -/

/-- A location and all above it are directories. -/
def IsReached (disk : Disk) (loc : Location) : Prop :=
  ∀ above, above <:+ loc → disk.get? above = some .directory

theorem isReached_origin (disk : Disk) (path : String) : disk.IsReached (disk.origin path) := by
  intro above habove
  unfold origin at habove
  refine if_pos ?_
  split at habove
  · exact habove.trans (List.nil_suffix)
  · exact habove

/-- A walk passes through directories alone. -/
theorem IsReached.walk {steps : List String} (h : disk.IsReached loc)
    (hwalk : disk.walk loc steps = .ok parent) : disk.IsReached parent := by
  induction steps generalizing loc with
  | nil =>
    cases hwalk
    exact h
  | cons step rest ih =>
    by_cases hdot : step = "."
    · rw [Disk.walk, if_pos hdot] at hwalk
      exact ih h hwalk
    · by_cases hdots : step = ".."
      · rw [Disk.walk, if_neg hdot, if_pos hdots] at hwalk
        exact ih (fun above habove => h above (habove.trans (List.tail_suffix loc))) hwalk
      · obtain ⟨-, hget, hrest⟩ := (walk_cons_eq_ok_iff hdot hdots).1 hwalk
        refine ih (fun above habove => ?_) hrest
        rcases List.suffix_cons_iff.1 habove with rfl | habove
        · exact hget
        · exact h above habove

theorem walk_append (disk : Disk) (loc : Location) (a b : List String) :
    disk.walk loc (a ++ b) = disk.walk loc a >>= fun middle => disk.walk middle b := by
  induction a generalizing loc with
  | nil => rfl
  | cons step rest ih =>
    simp only [List.cons_append, walk]
    split
    · exact ih loc
    split
    · exact ih loc.tail
    split
    · rfl
    split
    · rfl
    · rfl
    · exact ih (step :: loc)

/-! ## The steps of the temporary path -/

/-- The temporary path always ends in a name. -/
theorem exists_getLast?_steps_temporaryPath (path : String) :
    ∃ name, (steps (Image.temporaryPath path)).getLast? = some name ∧ name ≠ "." ∧ name ≠ ".." := by
  obtain ⟨pieces, last, -, happend, -⟩ :=
    splitOn_append_of_notMem path.toList (show '/' ∉ ".tmp".toList by decide)
  have hlength : (String.ofList (last ++ ".tmp".toList)).length = last.length + 4 := by simp; rfl
  refine ⟨String.ofList (last ++ ".tmp".toList), ?_, ?_, ?_⟩
  · rw [steps, Image.temporaryPath, String.toList_append, happend, List.filter_append,
      List.map_append]
    simp
  · intro hdot
    have hone : last.length + 4 = 1 := by rw [← hlength, hdot]; rfl
    omega
  · intro hdots
    have htwo : last.length + 4 = 2 := by rw [← hlength, hdots]; rfl
    omega

/-- Behind a slash the temporary path has one more step. -/
theorem steps_temporaryPath_of_endsInSlash (h : endsInSlash path = true) :
    steps (Image.temporaryPath path) = steps path ++ [".tmp"] := by
  obtain ⟨front, hfront⟩ := List.getLast?_eq_some_iff.1 (beq_iff_eq.1 h)
  have htail : ".tmp".toList.splitOn '/' = [".tmp".toList] :=
    List.splitOn_eq_singleton (by decide)
  rw [steps, steps, Image.temporaryPath, String.toList_append, hfront, List.append_assoc,
    List.singleton_append, List.splitOn_append_cons_self, List.splitOn_append_cons_self, htail,
    List.splitOn_nil]
  simp

theorem endsInSlash_temporaryPath (path : String) :
    endsInSlash (Image.temporaryPath path) = false := by
  simp [endsInSlash, Image.temporaryPath]

/-- The temporary path leads to a name without a slash, if it leads anywhere. -/
theorem found?_temporaryPath_eq_some_iff :
    disk.found? (Image.temporaryPath path) = some held ↔
      ∃ loc, disk.place? (Image.temporaryPath path) = some loc ∧ disk.get? loc = some held := by
  constructor
  · intro h
    cases hresolve : disk.resolve (Image.temporaryPath path) with
    | error cause => simp [found?, hresolve] at h
    | ok target =>
      rw [found?_of_resolve hresolve] at h
      obtain ⟨last, hlast, hdot, hdots⟩ := exists_getLast?_steps_temporaryPath path
      obtain ⟨parent, -, ⟨name, -, -, -, rfl⟩ | ⟨loc, hnone, -, -⟩⟩ := resolve_cases hresolve
      · rw [endsInSlash_temporaryPath] at hresolve h
        exact ⟨name :: parent, place?_eq_some_iff.2 ⟨parent, name, hresolve, rfl⟩, h⟩
      · exact absurd (hnone last hlast) (by simp [hdot, hdots])
  · rintro ⟨loc, hplace, hget⟩
    rw [found?_of_place? hplace, hget]

/-! ## The temporary file is never what a path leads to -/

/-- Where there is room for a temporary file behind a slash, a directory comes before the slash. -/
theorem get?_of_resolve_slash (h : disk.resolve path = .ok (.entry parent name true))
    (htemp : disk.place? (Image.temporaryPath path) = some loc) :
    disk.get? (name :: parent) = some .directory := by
  obtain ⟨reached, hwalk, ⟨step, hlast, hdot, hdots, htarget⟩ | ⟨_, _, _, htarget⟩⟩ :=
    resolve_cases h
  · obtain ⟨rfl, rfl, hslash⟩ := Target.entry.inj htarget
    -- all steps of the path are walked on the way to the temporary file
    obtain ⟨parent', name', hresolve, -⟩ := place?_eq_some_iff.1 htemp
    have hlead := (resolve_eq_entry_iff.1 hresolve).walk_eq
    have horigin : disk.origin (Image.temporaryPath path) = disk.origin path := by
      obtain ⟨front, hfront⟩ := List.getLast?_eq_some_iff.1 (beq_iff_eq.1 hslash.symm)
      simp [origin, Image.temporaryPath, hfront, List.head?_append]
    have hsteps : (steps path).dropLast ++ [name] = steps path :=
      List.dropLast_append_getLast? name hlast
    rw [horigin, steps_temporaryPath_of_endsInSlash hslash.symm, List.dropLast_concat, ← hsteps,
      walk_append, hwalk] at hlead
    exact ((walk_cons_eq_ok_iff hdot hdots).1 hlead).2.1
  · cases htarget

/-- A path leads to a directory, or to another location than the temporary file. -/
theorem location_ne_of_place?_temporaryPath (h : disk.resolve path = .ok target)
    (htemp : disk.place? (Image.temporaryPath path) = some loc)
    (hget : disk.get? target.location ≠ some .directory) : loc ≠ target.location := by
  cases target with
  | directory dir =>
    obtain ⟨reached, hwalk, ⟨_, _, _, _, htarget⟩ | ⟨_, _, habove, htarget⟩⟩ := resolve_cases h
    · cases htarget
    · cases htarget
      exact absurd ((isReached_origin disk path).walk hwalk dir habove) hget
  | entry parent name slash =>
    cases slash with
    | true => exact absurd (get?_of_resolve_slash h htemp) hget
    | false => exact place?_temporaryPath_ne (place?_eq_some_iff.2 ⟨parent, name, h, rfl⟩) htemp

/-- What a path leads to stays as it is while at most its temporary file changes. -/
theorem Frame.found?_eq (h : Frame [Image.temporaryPath path] disk after) :
    after.found? path = disk.found? path := by
  cases hresolve : disk.resolve path with
  | error cause =>
    have hnone : ∀ target, after.resolve path ≠ .ok target := by
      intro target hafter
      rw [h.resolve_eq_ok_iff, hresolve] at hafter
      cases hafter
    cases hafter : after.resolve path with
    | error cause' => simp [found?, hresolve, hafter]
    | ok target => exact absurd hafter (hnone target)
  | ok target =>
    rw [found?_of_resolve hresolve, found?_of_resolve (h.resolve_eq_ok_iff.2 hresolve)]
    by_cases hdirectory : disk.get? target.location = some .directory
    · rw [hdirectory, h.directory_iff, hdirectory]
    · apply h.get?_eq
      intro temporary hmem htemp
      obtain rfl := List.mem_singleton.1 hmem
      exact location_ne_of_place?_temporaryPath hresolve htemp hdirectory rfl

end Disk

namespace Image

open Disk DiskM

/-- What a run that saves an image at a path makes of a disk, in all or in nothing. -/
structure AllOrNothing (image : Image) (path : String) (trouble : Trouble) (disk : Disk)
    (result : Except Fault Unit) (after : Disk) : Prop where
  /-- The image is saved exactly if the disk takes it. -/
  ok_iff : result = .ok () ↔ Takes trouble disk path
  /-- All: the path leads to a file that holds the image. -/
  all : result = .ok () →
    after.found? path = some (.file image.bytes) ∧ image.bytes.length = 32768
  /-- Nothing: the fault names the path, and what the path leads to is what it led to before. All
  other locations stay too, also those in a directory at the path, but for the temporary file. -/
  nothing : ∀ fault, result = .error fault →
    (∃ cause, fault = .unwritable path cause) ∧ after.found? path = disk.found? path ∧
      Frame [path ++ ".tmp"] disk after
  /-- No temporary file is left. -/
  no_temporary : ∀ bytes, after.found? (path ++ ".tmp") ≠ some (.file bytes)
  /-- A directory at the temporary path stays there, and is in the way of the image. -/
  directory : disk.found? (path ++ ".tmp") = some .directory →
    after.found? (path ++ ".tmp") = some .directory ∧ ∃ fault, result = .error fault
  /-- Files have changed at the path and at the temporary path alone, directories nowhere. -/
  frame : Frame [path ++ ".tmp", path] disk after

/-- **Saving is all or nothing**, on every disk, for every path and whichever steps fail. -/
theorem allOrNothing_save (image : Image) (path : String) (trouble : Trouble) (disk : Disk) :
    image.AllOrNothing path trouble disk ((image.save path : DiskM _) trouble disk).1
      ((image.save path : DiskM _) trouble disk).2 := by
  have hsave := image.ends_save path trouble disk
  generalize (image.save path : DiskM _) trouble disk = run at hsave ⊢
  cases hsave with
  | @well after htakes hsaved =>
    constructor
    case ok_iff => exact iff_of_true rfl htakes
    case all =>
      obtain ⟨loc, hplace, hget⟩ := read_eq_ok_iff.1 hsaved.read_eq
      exact fun _ => ⟨by rw [found?_of_place? hplace, hget], image.length_bytes⟩
    case nothing => nofun
    case no_temporary =>
      intro bytes hfound
      exact hsaved.no_temporary bytes (read_eq_ok_iff.2 (found?_temporaryPath_eq_some_iff.1 hfound))
    case directory =>
      intro hfound
      obtain ⟨loc, hplace, hget⟩ := found?_temporaryPath_eq_some_iff.1 hfound
      obtain ⟨loc', hplace', hfile⟩ := htakes.temporary_fits
      cases hplace.symm.trans hplace'
      exact absurd hget hfile
    case frame => exact hsaved.frame
  | @badly fault after htakes hkept =>
    obtain ⟨hfault, hunsaved⟩ := hkept
    constructor
    case ok_iff => exact iff_of_false nofun htakes
    case all => nofun
    case nothing =>
      rintro _ ⟨⟩
      exact ⟨hfault, hunsaved.frame.found?_eq, hunsaved.frame⟩
    case no_temporary =>
      intro bytes hfound
      exact hunsaved.no_temporary bytes
        (read_eq_ok_iff.2 (found?_temporaryPath_eq_some_iff.1 hfound))
    case directory =>
      intro hfound
      obtain ⟨loc, hplace, hget⟩ := found?_temporaryPath_eq_some_iff.1 hfound
      refine ⟨found?_temporaryPath_eq_some_iff.2 ⟨loc, ?_, ?_⟩, fault, rfl⟩
      · rw [hunsaved.frame.place?_eq, hplace]
      · rw [hunsaved.frame.directory_iff, hget]
    case frame => exact hunsaved.frame.mono (by simp)

end Image

end Breadboard
