import Breadboard.Image
import Breadboard.Proofs.Fallible

/-!
# Places on a disk

A file operation acts on one location of the disk, the place of its path (`Disk.place?`), and what it
does there depends on the entry at that place alone. Which place a path has depends on the directories
of the disk alone (`SameDirectories.place?_eq`), so a path keeps its place while files come and go.
The temporary file on the way to a path never has the place of the path itself
(`place?_temporaryPath_ne`).
-/

namespace Breadboard.Disk

variable {disk disk' after : Disk} {path source target : String} {loc parent : Location}
  {name : String} {bytes : List UInt8}

/-- The location on which a file operation on a path acts, if the path can be that of a file. -/
def place? (disk : Disk) (path : String) : Option Location :=
  match disk.resolve path with
  | .ok (.entry parent name false) => some (name :: parent)
  | _ => none

theorem place?_eq_some_iff : disk.place? path = some loc ↔
    ∃ parent name, disk.resolve path = .ok (.entry parent name false) ∧ name :: parent = loc := by
  unfold place?
  rcases disk.resolve path with e | ⟨dir⟩ | ⟨parent, name, slash⟩
  · simp
  · simp
  · cases slash <;> simp

/-! ## File operations at a place -/

theorem read_eq_ok_iff : disk.read path = .ok bytes ↔
    ∃ loc, disk.place? path = some loc ∧ disk.get? loc = some (.file bytes) := by
  unfold read place?
  rcases disk.resolve path with e | ⟨dir⟩ | ⟨parent, name, slash⟩
  · simp [bind, Except.bind]
  · simp [bind, Except.bind]
  · rcases hget : disk.get? (name :: parent) with - | ⟨content⟩ | - <;>
      cases slash <;> simp [bind, Except.bind, hget]

theorem write_eq_ok_iff : disk.write path bytes = .ok after ↔
    ∃ loc, disk.place? path = some loc ∧ disk.get? loc ≠ some .directory ∧
      disk.put loc (.file bytes) = after := by
  unfold write place?
  rcases disk.resolve path with e | ⟨dir⟩ | ⟨parent, name, slash⟩
  · simp [bind, Except.bind]
  · simp [bind, Except.bind]
  · rcases hget : disk.get? (name :: parent) with - | ⟨content⟩ | - <;>
      cases slash <;> simp [bind, Except.bind, hget]

theorem remove_eq_ok_iff : disk.remove path = .ok after ↔
    ∃ loc bytes, disk.place? path = some loc ∧ disk.get? loc = some (.file bytes) ∧
      disk.erase loc = after := by
  unfold remove place?
  rcases disk.resolve path with e | ⟨dir⟩ | ⟨parent, name, slash⟩
  · simp [bind, Except.bind]
  · simp [bind, Except.bind]
  · rcases hget : disk.get? (name :: parent) with - | ⟨content⟩ | - <;>
      cases slash <;> simp [bind, Except.bind, hget]

theorem rename_eq_ok_iff : disk.rename source target = .ok after ↔
    ∃ old new bytes, disk.place? source = some old ∧ disk.place? target = some new ∧
      disk.get? old = some (.file bytes) ∧ disk.get? new ≠ some .directory ∧
      (disk.erase old).put new (.file bytes) = after := by
  unfold rename place?
  rcases disk.resolve source with e | ⟨dir⟩ | ⟨parent, name, slash⟩
  · simp [bind, Except.bind]
  · rcases disk.resolve target with e | ⟨dir'⟩ | ⟨parent', name', slash'⟩ <;>
      simp [bind, Except.bind]
  · rcases disk.resolve target with e | ⟨dir'⟩ | ⟨parent', name', slash'⟩
    · simp [bind, Except.bind]
    · simp [bind, Except.bind]
    · rcases hget : disk.get? (name :: parent) with - | ⟨content⟩ | -
      · cases slash <;> cases slash' <;> simp [bind, Except.bind, hget]
      · rcases hget' : disk.get? (name' :: parent') with - | ⟨content'⟩ | - <;>
          cases slash <;> cases slash' <;> simp [bind, Except.bind, hget, hget']
      · cases slash <;> cases slash' <;> simp [bind, Except.bind, hget]

/-! ## Paths to a name -/

/-- A path leads to a name in a directory, and no slash follows the name. -/
structure LeadsTo (disk : Disk) (path : String) (parent : Location) (name : String) : Prop where
  no_nul : '\x00' ∉ path.toList
  size_le : path.utf8ByteSize ≤ pathLimit
  walk_eq : disk.walk (disk.origin path) (steps path).dropLast = .ok parent
  getLast?_eq : (steps path).getLast? = some name
  name_ne : name ≠ "." ∧ name ≠ ".."
  name_size_le : name.utf8ByteSize ≤ nameLimit
  no_slash : endsInSlash path = false

theorem resolve_eq_entry_iff :
    disk.resolve path = .ok (.entry parent name false) ↔ LeadsTo disk path parent name := by
  constructor
  · intro h
    unfold resolve at h
    split at h
    · cases h
    rename_i hnul
    split at h
    · cases h
    split at h
    · cases h
    rename_i hsize
    obtain ⟨dir, hwalk, h⟩ := bind_eq_ok_iff.1 h
    split at h
    · cases h
    rename_i step hlast
    split at h
    · cases h
    rename_i hdot
    split at h
    · cases h
    rename_i hdots
    split at h
    · cases h
    rename_i hname
    simp only [pure, Except.pure, Except.ok.injEq, Target.entry.injEq] at h
    obtain ⟨rfl, rfl, hslash⟩ := h
    exact ⟨hnul, by omega, hwalk, hlast, ⟨hdot, hdots⟩, by omega, hslash⟩
  · intro h
    have hne : path ≠ "" := by
      rintro rfl
      exact absurd h.getLast?_eq (by simp [steps, List.splitOn_nil])
    have hsize := h.size_le
    have hname := h.name_size_le
    unfold resolve
    rw [if_neg h.no_nul, if_neg hne, if_neg (by omega), bind_eq_ok_iff]
    refine ⟨parent, h.walk_eq, ?_⟩
    simp only [h.getLast?_eq]
    rw [if_neg h.name_ne.1, if_neg h.name_ne.2, if_neg (by omega), h.no_slash]
    rfl

/-! ## What decides about a place -/

/-- Two disks with one working directory and the same directories. -/
structure SameDirectories (disk disk' : Disk) : Prop where
  home_eq : disk'.home = disk.home
  directory_iff : ∀ loc, disk'.get? loc = some .directory ↔ disk.get? loc = some .directory

theorem walk_cons_eq_ok_iff {step : String} {rest : List String} (hdot : step ≠ ".")
    (hdots : step ≠ "..") : disk.walk loc (step :: rest) = .ok parent ↔
      step.utf8ByteSize ≤ nameLimit ∧ disk.get? (step :: loc) = some .directory ∧
        disk.walk (step :: loc) rest = .ok parent := by
  rw [walk, if_neg hdot, if_neg hdots]
  by_cases hsize : nameLimit < step.utf8ByteSize
  · rw [if_pos hsize]
    simp only [reduceCtorEq, false_iff, not_and]
    omega
  · rw [if_neg hsize]
    rcases disk.get? (step :: loc) with - | ⟨content⟩ | -
    · simp
    · simp
    · simp only [true_and, iff_and_self]
      omega

namespace SameDirectories

theorem refl (disk : Disk) : SameDirectories disk disk :=
  ⟨rfl, fun _ => Iff.rfl⟩

theorem trans (h : SameDirectories disk disk') (h' : SameDirectories disk' after) :
    SameDirectories disk after :=
  ⟨h'.home_eq.trans h.home_eq, fun loc => (h'.directory_iff loc).trans (h.directory_iff loc)⟩

theorem walk_eq_ok_iff (h : SameDirectories disk disk') (steps : List String) :
    disk'.walk loc steps = .ok parent ↔ disk.walk loc steps = .ok parent := by
  induction steps generalizing loc with
  | nil => rfl
  | cons step rest ih =>
    by_cases hdot : step = "."
    · simp only [walk, if_pos hdot, ih]
    · by_cases hdots : step = ".."
      · simp only [walk, if_neg hdot, if_pos hdots, ih]
      · rw [walk_cons_eq_ok_iff hdot hdots, walk_cons_eq_ok_iff hdot hdots, h.directory_iff, ih]

theorem leadsTo_iff (h : SameDirectories disk disk') :
    LeadsTo disk' path parent name ↔ LeadsTo disk path parent name := by
  have horigin : disk'.origin path = disk.origin path := by rw [origin, origin, h.home_eq]
  constructor
  · intro hlead
    exact { hlead with walk_eq := (h.walk_eq_ok_iff _).1 (horigin ▸ hlead.walk_eq) }
  · intro hlead
    exact { hlead with walk_eq := (h.walk_eq_ok_iff _).2 (horigin ▸ hlead.walk_eq) }

/-- Which place a path has depends on the directories alone. -/
theorem place?_eq (h : SameDirectories disk disk') (path : String) :
    disk'.place? path = disk.place? path := by
  refine Option.ext fun loc => ?_
  simp only [place?_eq_some_iff, resolve_eq_entry_iff, h.leadsTo_iff]

end SameDirectories

/-! ## The temporary file beside a path -/

/-- What is put behind a text without a slash in it goes to its last piece, which is empty only if
nothing or a slash comes before. -/
theorem splitOn_append_of_notMem (text : List Char) {tail : List Char} (htail : '/' ∉ tail) :
    ∃ pieces last, text.splitOn '/' = pieces ++ [last] ∧
      (text ++ tail).splitOn '/' = pieces ++ [last ++ tail] ∧
      (last = [] → text = [] ∨ text.getLast? = some '/') := by
  induction text with
  | nil => exact ⟨[], [], List.splitOn_nil '/', List.splitOn_eq_singleton htail, fun _ => .inl rfl⟩
  | cons c rest ih =>
    obtain ⟨pieces, last, hrest, happend, hlast⟩ := ih
    rw [List.cons_append, List.splitOn_cons_eq_if_modifyHead, List.splitOn_cons_eq_if_modifyHead,
      hrest, happend]
    by_cases hc : c = '/'
    · refine ⟨[] :: pieces, last, by simp [hc], by simp [hc], fun hnil => .inr ?_⟩
      rcases hlast hnil with rfl | hslash
      · simp [hc]
      · simp [List.getLast?_cons, hslash]
    · simp only [beq_iff_eq, hc, if_false]
      cases pieces with
      | nil => exact ⟨[], c :: last, rfl, rfl, nofun⟩
      | cons piece pieces =>
        refine ⟨(c :: piece) :: pieces, last, rfl, rfl, fun hnil => .inr ?_⟩
        rcases hlast hnil with rfl | hslash
        · simp [List.splitOn_nil] at hrest
        · simp [List.getLast?_cons, hslash]

/-- The last step of the temporary path is the last step of the path with more behind it. -/
theorem getLast?_steps_temporaryPath (hslash : endsInSlash path = false)
    (hlast : (steps path).getLast? = some name) :
    (steps (Image.temporaryPath path)).getLast? = some (name ++ ".tmp") := by
  obtain ⟨pieces, last, hsplit, happend, hnil⟩ :=
    splitOn_append_of_notMem path.toList (show '/' ∉ ".tmp".toList by decide)
  have hne : last ≠ [] := by
    intro h
    rcases hnil h with hempty | hends
    · simp [steps, hempty, List.splitOn_nil] at hlast
    · simp [endsInSlash, hends] at hslash
  have hname : String.ofList last = name := by
    rw [steps, hsplit, List.filter_append, List.map_append] at hlast
    simpa [hne] using hlast
  rw [steps, Image.temporaryPath, String.toList_append, happend, List.filter_append, List.map_append,
    ← hname]
  simp [String.ofList_append]

/-- The temporary file on the way to a path is never the file at the path. -/
theorem place?_temporaryPath_ne {new : Location} (hpath : disk.place? path = some loc)
    (htemp : disk.place? (Image.temporaryPath path) = some new) : new ≠ loc := by
  obtain ⟨parent, name, hresolve, rfl⟩ := place?_eq_some_iff.1 hpath
  obtain ⟨parent', name', hresolve', rfl⟩ := place?_eq_some_iff.1 htemp
  have hlead := resolve_eq_entry_iff.1 hresolve
  have hlast' := (resolve_eq_entry_iff.1 hresolve').getLast?_eq
  rw [getLast?_steps_temporaryPath hlead.no_slash hlead.getLast?_eq] at hlast'
  intro heq
  obtain ⟨hname, -⟩ := List.cons.inj heq
  rw [hname, Option.some.injEq] at hlast'
  have hlength := congrArg String.length hlast'
  simp at hlength

end Breadboard.Disk
