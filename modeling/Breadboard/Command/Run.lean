import Breadboard.Command.Request
import Breadboard.Image
import Breadboard.Program.Assemble
import Breadboard.Program.Listing

/-!
# Running a request

Assembling a file reports three stages: the source is read, it is assembled, and the image is saved.
A failure ends the run with exit code 1 and a diagnostic about the source; up to then nothing but the
saving itself has touched a file.
-/

namespace Breadboard

open Text

/-- What a run leaves behind besides its files. -/
structure Outcome where
  code : UInt32
  /-- The text on standard output. -/
  out : String
  /-- The text on standard error. -/
  err : String
  deriving DecidableEq, Repr

/-- The name and version of the program. -/
def versionText : String :=
  "bcasm 0.1.0\n"

/-- The help text. -/
def helpText : String :=
  versionText
    ++ "  Assembler for the 8-bit breadboard CPU\n\n"
    ++ "Usage:\n"
    ++ "  assemble [OPTIONS] <SOURCE> [DEST]\n\n"
    ++ "Arguments:\n"
    ++ "  <SOURCE>  Source file\n"
    ++ "  [DEST]    Output ROM image [default: <SOURCE>.bin]\n\n"
    ++ "Options:\n"
    ++ "  -d, --dump     Dump assembly listing\n"
    ++ "  -h, --help     Print help\n"
    ++ "  -V, --version  Print version\n"

/-- The program of a source and its image. -/
def build (source : String) : Except Diagnostic (Program × Image) := do
  let program ← assemble source
  let image ← program.image.mapError Diagnostic.general
  return (program, image)

/-- The text in a file's bytes. -/
def decodeText (bytes : List UInt8) : Except FileError String :=
  match String.fromUTF8? bytes.toByteArray with
  | some text => .ok text
  | none => .error .notText

namespace Job

/-- The path of the image; without one in the request, the source's with `.bin` after it. -/
def dest (job : Job) : String :=
  job.dest?.getD (job.source ++ ".bin")

/-- What is printed before the source is read. -/
def readingText (job : Job) : String :=
  "1. Read Source\n  < " ++ job.source ++ "\n"

/-- What is printed before the source is assembled. -/
def assemblingText : String :=
  "2. Assemble\n"

/-- What is printed about an assembled program. -/
def summaryText (job : Job) (program : Program) : String :=
  "  " ++ program.slotCount.repr ++ " slots, "
    ++ program.symbols.constants.size.repr ++ " constants, "
    ++ program.symbols.labels.size.repr ++ " labels, "
    ++ program.symbols.subroutines.size.repr ++ " subroutines\n"
    ++ (if job.listing then program.listing job.source else "")

/-- What is printed before the image is saved. -/
def savingText : String :=
  "3. Write ROM\n"

/-- What is printed after the image is saved. -/
def savedText (job : Job) : String :=
  Span.render [.bare "  ", ⟨[.green, .bold], ">"⟩, .bare (" " ++ job.dest ++ "\n")]

/-- The end of a run that printed `out` and then failed. -/
def failure (job : Job) (out : String) (diagnostic : Diagnostic) : Outcome :=
  ⟨1, out, diagnostic.report job.source⟩

variable {m : Type → Type} [Monad m] [FileAccess m]

/-- The text of the source file. -/
def readSource (job : Job) : m (Except Fault String) := do
  let content ← FileAccess.read job.source
  return (content >>= decodeText).mapError (.unreadable job.source)

/-- Assembles the source file and saves its image. -/
def run (job : Job) : m Outcome := do
  let out := job.readingText
  match ← job.readSource with
  | .error fault => return job.failure out (.general fault)
  | .ok source =>
    let out := out ++ assemblingText
    match build source with
    | .error diagnostic => return job.failure out diagnostic
    | .ok (program, image) =>
      let out := out ++ job.summaryText program ++ savingText
      match ← image.save job.dest with
      | .error fault => return job.failure out (.general fault)
      | .ok _ => return ⟨0, out ++ job.savedText, ""⟩

end Job

/-- Does what was asked for. -/
def Request.run {m : Type → Type} [Monad m] [FileAccess m] : Request → m Outcome
  | help => return ⟨0, helpText, ""⟩
  | version => return ⟨0, versionText, ""⟩
  | misuse => return ⟨2, "", "error: invalid arguments\n\n" ++ helpText⟩
  | assemble job => job.run

end Breadboard
