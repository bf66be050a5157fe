/-!
# Files

A disk of files and directories, why an operation on it may be refused, and the interface behind
which programs use it.
-/

namespace Breadboard

/-! ## Failures of file operations -/

/-- The reason why a file could not be read or written. -/
inductive FileError where
  /-- A name on the path does not exist. -/
  | notFound
  /-- A name on the path that should be a directory is a file. -/
  | notDirectory
  /-- The path leads to a directory where a file is needed. -/
  | isDirectory
  /-- The path ends in a step that cannot be renamed. -/
  | busy
  /-- A name on the path, or the path itself, has too many bytes. -/
  | nameTooLong
  /-- The path holds a NUL character. -/
  | nulInPath
  /-- The content is not UTF-8. -/
  | notText
  /-- Any other reason, in the system's own words. -/
  | other (text : String)
  deriving DecidableEq, Repr

/-- The system's words for a failure. -/
def FileError.message : FileError → String
  | notFound => "No such file or directory (os error 2)"
  | notDirectory => "Not a directory (os error 20)"
  | isDirectory => "Is a directory (os error 21)"
  | busy => "Device or resource busy (os error 16)"
  | nameTooLong => "File name too long (os error 36)"
  | nulInPath => "file name contained an unexpected NUL byte"
  | notText => "stream did not contain valid UTF-8"
  | other text => text

/-! ## A disk of files and directories

The content of a disk and the working directory on it. A path is a text of steps between slashes: `.`
stays, `..` goes up (the root is its own parent), any other step goes to a name. A path that starts
with a slash starts at the root, all others start at the working directory. All steps but the last
must lead through directories that exist. A path that ends in a slash names a directory, so no file
operation accepts it for a file. A name has at most 255 bytes and a path at most 4095. -/

/-- What a name on the disk stands for. -/
inductive Entry where
  | file (bytes : List UInt8)
  | directory
  deriving DecidableEq, Repr

/-- The names that lead from the root to an entry, the last one first. -/
abbrev Location := List String

/-- A working directory, and the entries apart from it and the directories above it. -/
structure Disk where
  home : Location := []
  entries : List (Location × Entry) := []
  deriving DecidableEq, Repr

namespace Disk

/-- The entry at a location; the working directory and those above it are always there. -/
def get? (disk : Disk) (loc : Location) : Option Entry :=
  if loc <:+ disk.home then some .directory
  else (disk.entries.find? (·.1 == loc)).map (·.2)

/-- Takes the entry at a location away. -/
def erase (disk : Disk) (loc : Location) : Disk :=
  { disk with entries := disk.entries.filter (·.1 != loc) }

/-- Puts an entry at a location, in place of what is there. -/
def put (disk : Disk) (loc : Location) (entry : Entry) : Disk :=
  { disk with entries := (disk.erase loc).entries ++ [(loc, entry)] }

/-- Only the location itself loses its entry. -/
theorem get?_erase (disk : Disk) {loc : Location} (h : ¬ loc <:+ disk.home) (other : Location) :
    (disk.erase loc).get? other = if other = loc then none else disk.get? other := by
  unfold get? erase
  by_cases ho : other <:+ disk.home
  · have : other ≠ loc := fun e => h (e ▸ ho)
    simp [ho, this]
  · simp only [ho, if_false, List.find?_filter]
    by_cases he : other = loc
    · subst he
      simp
    · simp only [he, if_false]
      congr 2
      funext e
      by_cases hx : e.1 = other <;> simp_all

/-- Only the location itself gets the entry. -/
theorem get?_put (disk : Disk) {loc : Location} (h : ¬ loc <:+ disk.home) (entry : Entry)
    (other : Location) :
    (disk.put loc entry).get? other = if other = loc then some entry else disk.get? other := by
  have hErase := disk.get?_erase h other
  unfold get? at hErase
  unfold get? put
  by_cases ho : other <:+ disk.home
  · have : other ≠ loc := fun e => h (e ▸ ho)
    simp [ho, this]
  · simp only [erase, ho, if_false] at hErase ⊢
    rw [List.find?_append]
    by_cases he : other = loc
    · rw [if_pos he, Option.map_eq_none_iff] at hErase
      rw [hErase, Option.none_or, he]
      simp
    · rw [if_neg he] at hErase
      have : List.find? (·.1 == other) [(loc, entry)] = none := by
        simpa using Ne.symm he
      rw [this, Option.or_none, hErase, if_neg he]

/-! ## Paths -/

/-- Where a path leads. -/
inductive Target where
  /-- To a directory by a step that is no name. -/
  | directory (loc : Location)
  /-- To a name in a directory; `slash` tells whether a slash follows it. -/
  | entry (parent : Location) (name : String) (slash : Bool)
  deriving DecidableEq, Repr

/-- The steps of a path. -/
def steps (path : String) : List String :=
  ((path.toList.splitOn '/').filter (!·.isEmpty)).map String.ofList

/-- Whether a path ends in a slash. -/
def endsInSlash (path : String) : Bool :=
  path.toList.getLast? == some '/'

/-- The directory from which a path starts. -/
def origin (disk : Disk) (path : String) : Location :=
  if path.toList.head? = some '/' then [] else disk.home

/-- The largest number of bytes in a name. -/
def nameLimit : Nat := 255

/-- The largest number of bytes in a path. -/
def pathLimit : Nat := 4095

/-- Goes from a directory through the directories that the steps name. -/
def walk (disk : Disk) (loc : Location) : List String → Except FileError Location
  | [] => .ok loc
  | step :: rest =>
    if step = "." then disk.walk loc rest
    else if step = ".." then disk.walk loc.tail rest
    else if nameLimit < step.utf8ByteSize then .error .nameTooLong
    else
      match disk.get? (step :: loc) with
      | none => .error .notFound
      | some (.file _) => .error .notDirectory
      | some .directory => disk.walk (step :: loc) rest

/-- Where a path leads; its last step need not exist. -/
def resolve (disk : Disk) (path : String) : Except FileError Target :=
  if '\x00' ∈ path.toList then .error .nulInPath
  else if path = "" then .error .notFound
  else if pathLimit < path.utf8ByteSize then .error .nameTooLong
  else do
    let parent ← disk.walk (disk.origin path) (steps path).dropLast
    match (steps path).getLast? with
    | none => return .directory parent
    | some step =>
      if step = "." then return .directory parent
      else if step = ".." then return .directory parent.tail
      else if nameLimit < step.utf8ByteSize then .error .nameTooLong
      else return .entry parent step (endsInSlash path)

/-! ## File operations -/

/-- The content of the file at a path. -/
def read (disk : Disk) (path : String) : Except FileError (List UInt8) := do
  match ← disk.resolve path with
  | .directory _ => .error .isDirectory
  | .entry parent name slash =>
    match disk.get? (name :: parent) with
    | none => .error .notFound
    | some .directory => .error .isDirectory
    | some (.file bytes) => if slash then .error .notDirectory else .ok bytes

/-- Makes the file at a path hold `bytes`; the file is made if it is not there. -/
def write (disk : Disk) (path : String) (bytes : List UInt8) : Except FileError Disk := do
  match ← disk.resolve path with
  | .directory _ => .error .isDirectory
  | .entry parent name slash =>
    if slash then .error .isDirectory
    else
      match disk.get? (name :: parent) with
      | some .directory => .error .isDirectory
      | _ => .ok (disk.put (name :: parent) (.file bytes))

/-- Moves the file at `source` to `target`, in place of a file that is there. -/
def rename (disk : Disk) (source target : String) : Except FileError Disk := do
  match ← disk.resolve source, ← disk.resolve target with
  | .entry fromParent fromName fromSlash, .entry toParent toName toSlash =>
    match disk.get? (fromName :: fromParent) with
    | none => .error .notFound
    | some .directory => .error .isDirectory
    | some (.file bytes) =>
      if fromSlash || toSlash then .error .notDirectory
      else
        match disk.get? (toName :: toParent) with
        | some .directory => .error .isDirectory
        | _ => .ok ((disk.erase (fromName :: fromParent)).put (toName :: toParent) (.file bytes))
  | _, _ => .error .busy

/-- Takes the file at a path away. -/
def remove (disk : Disk) (path : String) : Except FileError Disk := do
  match ← disk.resolve path with
  | .directory _ => .error .isDirectory
  | .entry parent name slash =>
    match disk.get? (name :: parent) with
    | none => .error .notFound
    | some .directory => .error .isDirectory
    | some (.file _) => if slash then .error .notDirectory else .ok (disk.erase (name :: parent))

end Disk

/-! ## File operations as effects

The file operations that saving an image and running a command need, behind one interface, so that
the same code runs on real files and on a model. In the model the effects act on a `Disk`, and a
`Trouble` says which of the operations on the way to a saved file fail and why. -/

/-- The file operations of a monad. -/
class FileAccess (m : Type → Type) where
  /-- The content of a file. -/
  read : String → m (Except FileError (List UInt8))
  /-- Makes a file empty, and makes it first if it is not there. -/
  create : String → m (Except FileError Unit)
  /-- Writes bytes to an empty file. -/
  write : String → List UInt8 → m (Except FileError Unit)
  /-- Waits until a file's content has reached the disk. -/
  sync : String → m (Except FileError Unit)
  /-- Moves a file over another one. -/
  rename : String → String → m (Except FileError Unit)
  /-- Takes a file away. -/
  remove : String → m (Except FileError Unit)

/-- The failures that hit a run from outside. -/
structure Trouble where
  /-- Making the file fails, and changes nothing. -/
  create? : Option FileError := none
  /-- Writing fails after this many bytes. -/
  write? : Option (Nat × FileError) := none
  /-- Reaching the disk fails. -/
  sync? : Option FileError := none
  /-- Renaming fails, and changes nothing. -/
  rename? : Option FileError := none
  deriving DecidableEq, Repr

/-- Effects on a modelled disk that may run into trouble. -/
abbrev DiskM := ReaderT Trouble (StateM Disk)

namespace DiskM

/-- Runs a change of the disk, which stays as it is if the change fails. -/
def change (f : Disk → Except FileError Disk) : DiskM (Except FileError Unit) := fun _ disk =>
  match f disk with
  | .ok disk' => (.ok (), disk')
  | .error e => (.error e, disk)

/-- Runs a change of the disk unless trouble comes first. -/
def attempt (trouble? : Trouble → Option FileError) (f : Disk → Except FileError Disk) :
    DiskM (Except FileError Unit) := fun trouble =>
  match trouble? trouble with
  | some e => pure (.error e)
  | none => change f trouble

/-- Writes bytes to a file; in trouble only the first of them arrive. -/
def write (path : String) (bytes : List UInt8) : DiskM (Except FileError Unit) := fun trouble =>
  match trouble.write? with
  | none => change (·.write path bytes) trouble
  | some (count, e) => do
    discard (change (·.write path (bytes.take count)) trouble)
    pure (.error e)

end DiskM

instance : FileAccess DiskM where
  read path := fun _ disk => (disk.read path, disk)
  create path := DiskM.attempt Trouble.create? (·.write path [])
  write := DiskM.write
  sync _ := DiskM.attempt Trouble.sync? .ok
  rename source target := DiskM.attempt Trouble.rename? (·.rename source target)
  remove path := DiskM.change (·.remove path)

end Breadboard
