import Breadboard.Disk
import Breadboard.Opcode

/-!
# Faults

Everything that can keep a source from becoming an image on disk, each with the values that its
message names. `Fault.message` is the one place where faults are put into words.
-/

namespace Breadboard

/-- What is wrong with the form of a line. -/
inductive Issue where
  /-- The line starts with `$` but is no constant definition. -/
  | constantForm (code : String)
  /-- A word follows the operand. -/
  | extraWord (word : String)
  /-- The operand is missing. -/
  | operandMissing (op : Opcode)
  /-- An operand follows an opcode that has none. -/
  | operandUnexpected (op : Opcode) (operand : String)
  /-- An opening brace does not follow a name. -/
  | subroutineName (name : String)
  /-- No rule fits the line. -/
  | unclassified (code : String)
  deriving DecidableEq, Repr

/-- The words for an issue. -/
def Issue.message : Issue → String
  | constantForm code => "constant definition must be `$NAME value`, found `" ++ code ++ "`"
  | extraWord word => "unexpected token `" ++ word ++ "`"
  | operandMissing op => "`" ++ op.mnemonic ++ "` requires an operand"
  | operandUnexpected op operand =>
    "`" ++ op.mnemonic ++ "` takes no operand, found `" ++ operand ++ "`"
  | subroutineName name => "invalid subroutine name `" ++ name ++ "`"
  | unclassified code => "cannot classify `" ++ code ++ "`"

/-- The reason why assembling, reading or writing failed. -/
inductive Fault where
  /-- The line has no valid form. -/
  | malformed (issue : Issue)
  /-- The text is no byte literal. -/
  | badLiteral (text : String)
  /-- No opcode has this mnemonic. -/
  | unknownMnemonic (text : String)
  /-- The constant is defined nowhere. -/
  | unknownConstant (name : String)
  /-- The label is defined nowhere. -/
  | unknownLabel (name : String)
  /-- The subroutine is defined nowhere. -/
  | unknownSubroutine (name : String)
  /-- A subroutine opens while another one is open. -/
  | nestedSubroutine (outer inner : String)
  /-- A closing brace stands where no subroutine is open. -/
  | unmatchedClosing
  /-- The source ends while the subroutine is open. -/
  | unclosedSubroutine (name : String)
  /-- The name already has a definition of the same kind. -/
  | redefined (kind name : String) (firstLine : Nat)
  /-- The address is too large for an operand. -/
  | addressOverflow (address : Nat)
  /-- The program is too large for the image. -/
  | imageOverflow (size : Nat)
  /-- The file could not be read. -/
  | unreadable (path : String) (cause : FileError)
  /-- The file could not be written. -/
  | unwritable (path : String) (cause : FileError)
  deriving DecidableEq, Repr

namespace Fault

/-- The words for a fault. -/
def message : Fault → String
  | malformed issue => "Syntax error: " ++ issue.message
  | badLiteral text => "Cannot parse `" ++ text ++ "` as a byte literal"
  | unknownMnemonic text => "Unknown mnemonic: `" ++ text ++ "`"
  | unknownConstant name => "Undefined constant: `$" ++ name ++ "`"
  | unknownLabel name => "Undefined label: `" ++ name ++ "`"
  | unknownSubroutine name => "Undefined subroutine: `" ++ name ++ "`"
  | nestedSubroutine outer inner =>
    "Subroutine `" ++ inner ++ "` defined inside subroutine `" ++ outer ++ "`"
  | unmatchedClosing => "`\x7d` without an open subroutine"
  | unclosedSubroutine name => "Subroutine `" ++ name ++ "` is never closed"
  | redefined kind name firstLine =>
    "Re-defined " ++ kind ++ ": `" ++ name ++ "` (first defined on line " ++ firstLine.repr ++ ")"
  | addressOverflow address => "Address " ++ address.repr ++ " does not fit in an operand byte"
  | imageOverflow size => "Program is " ++ size.repr ++ " bytes, larger than the ROM image"
  | unreadable path _ => "Failed to read file: " ++ path
  | unwritable path _ => "Failed to write file: " ++ path

/-- The file error behind a fault. -/
def cause? : Fault → Option FileError
  | unreadable _ cause => some cause
  | unwritable _ cause => some cause
  | _ => none

end Fault

end Breadboard
