import Breadboard.Fault

/-!
# Memory images

An image is the whole content of the program memory: the bytes of a program from address zero, and
after them the value of an unwritten cell. It is written to a temporary file beside its path and then
moved over the path, so that the path never holds a part of an image. When a step fails, the
temporary file is taken away.
-/

namespace Breadboard

namespace Image

/-- The number of bytes in the program memory. -/
def capacity : Nat := 32768

/-- The value of an unwritten cell. -/
def padding : UInt8 := 0xFF

end Image

/-- The content of the whole program memory. -/
structure Image where
  bytes : List UInt8
  length_bytes : bytes.length = Image.capacity

namespace Image

/-- Fills bytes up to a whole image; more bytes than the memory holds are refused. -/
def ofBytes (bytes : List UInt8) : Except Fault Image :=
  if h : bytes.length ≤ capacity then
    .ok ⟨bytes ++ List.replicate (capacity - bytes.length) padding, by
      rw [List.length_append, List.length_replicate]; omega⟩
  else .error (.imageOverflow bytes.length)

/-! ## Saving -/

variable {m : Type → Type} [Monad m] [FileAccess m]

/-- The temporary file on the way to a path. -/
def temporaryPath (path : String) : String :=
  path ++ ".tmp"

/-- Writes an image to `temporary` and moves it to `path`; the first step that fails ends it. -/
def store (image : Image) (temporary path : String) : ExceptT FileError m Unit := do
  ExceptT.mk (FileAccess.create temporary)
  ExceptT.mk (FileAccess.write temporary image.bytes)
  ExceptT.mk (FileAccess.sync temporary)
  ExceptT.mk (FileAccess.rename temporary path)

/-- Makes the file at a path hold an image, or leaves what is there. -/
def save (image : Image) (path : String) : m (Except Fault Unit) := do
  match ← (image.store (temporaryPath path) path).run with
  | .ok _ => return .ok ()
  | .error cause =>
    discard (FileAccess.remove (temporaryPath path) : m (Except FileError Unit))
    return .error (.unwritable path cause)

end Image

end Breadboard
