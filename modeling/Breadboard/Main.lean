import Breadboard.Command.Run

/-!
# The command

The command line on real files: the file operations of the system, and the printing of an outcome.
-/

namespace Breadboard

/-- The number of a system error, which some calls report with its sign turned. -/
def errorNumber (code : UInt32) : UInt32 :=
  if code < 0x80000000 then code else 0 - code

/-- The reason behind an error of the system. -/
def FileError.ofSystem : IO.Error → FileError
  | .noFileOrDirectory .. => .notFound
  | .resourceBusy .. => .busy
  | e@(.inappropriateType _ code _) =>
    if errorNumber code = 20 then .notDirectory
    else if errorNumber code = 21 then .isDirectory
    else .other (toString e)
  | e@(.invalidArgument _ code _) =>
    if errorNumber code = 36 then .nameTooLong else .other (toString e)
  | e => .other (toString e)

/-- Runs an operation of the system and keeps its failure. -/
def fileOperation {α : Type} (act : IO α) : IO (Except FileError α) := do
  match ← act.toBaseIO with
  | .ok a => return .ok a
  | .error e => return .error (.ofSystem e)

/-- The file operations of the system. There is none here that waits for the disk: `sync` opens the
file once more and flushes an empty buffer. It fails where the file cannot be opened, but that the
content has reached the disk is not assured. -/
instance : FileAccess IO where
  read path := fileOperation do
    return (← IO.FS.readBinFile path).toList
  create path := fileOperation do
    IO.FS.writeBinFile path .empty
  write path bytes := fileOperation do
    IO.FS.writeBinFile path bytes.toByteArray
  sync path := fileOperation do
    let handle ← IO.FS.Handle.mk path .append
    handle.flush
  rename source target := fileOperation do
    IO.FS.rename source target
  remove path := fileOperation do
    IO.FS.removeFile path

end Breadboard

/-- Runs the command and exits with its code. -/
def main (args : List String) : IO UInt32 := do
  let outcome ← Breadboard.Request.run (Breadboard.Request.ofArguments args)
  IO.print outcome.out
  IO.eprint outcome.err
  return outcome.code
