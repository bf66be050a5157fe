import Breadboard.Program.Basic
import Breadboard.Statement

/-!
# Listings

The listing of a program has a line for each instruction, with its address, its bytes, the statement
and what the decoder makes of the bytes, and then the symbol tables.
-/

namespace Breadboard

open Text

/-- What the decoder makes of two bytes; the operand is shown only if the opcode has one. -/
def disassemble (opcode operand : UInt8) : String :=
  match Opcode.ofByte? opcode with
  | some op => if op.hasOperand then op.mnemonic ++ " 0x" ++ hexByte operand else op.mnemonic
  | none => "?? 0x" ++ hexByte opcode

namespace Slot

/-- The bytes of a slot in hexadecimal. -/
def hexText (slot : Slot) : String :=
  hexByte slot.opcode.byte ++ " " ++ hexByte slot.operand

/-- What the decoder makes of a slot. -/
def disassembly (slot : Slot) : String :=
  disassemble slot.opcode.byte slot.operand

end Slot

namespace Instruction

/-- The byte address of an instruction, or blanks. -/
def addressSpan (instruction : Instruction) : Span :=
  match instruction.slot? with
  | some slot => ⟨[.green], hex 4 (2 * slot)⟩
  | none => .bare (repeated 4 ' ')

/-- The line of an instruction. -/
def listingLine (instruction : Instruction) : List Span :=
  [.bare "[",
    instruction.addressSpan,
    .bare ("] " ++ padRight 11 (" ".intercalate (instruction.slots.map Slot.hexText)) ++ " | "
      ++ padLeft 4 ' ' instruction.line.number.repr ++ ": "
      ++ padRight 40 instruction.statement.painted ++ " "),
    ⟨[.dim], "; ".intercalate (instruction.slots.map Slot.disassembly)⟩]

end Instruction

namespace Symbol

/-- The line of a constant. -/
def constantLine (symbol : Symbol UInt8) : List Span :=
  [.bare "  ", ⟨[.yellow], "$" ++ padRight 16 symbol.name⟩,
    .bare (" = 0x" ++ hexByte symbol.value ++ "  (line " ++ symbol.line.repr ++ ")")]

/-- The line of a label or a subroutine. -/
def slotLine (style : Style) (symbol : Symbol Nat) : List Span :=
  [.bare "  ", ⟨[style], padRight 17 symbol.name⟩,
    .bare (" @ 0x" ++ hex 2 symbol.value ++ "  (line " ++ symbol.line.repr ++ ")")]

end Symbol

namespace Program

/-- The rule above the instructions, with the title in it; it keeps its length in bytes while the
title is short enough. -/
def header (title : String) : List Span :=
  [.bare (repeated 19 '-' ++ "+------[" ++ title ++ "]" ++ repeated (45 - title.utf8ByteSize) '-')]

/-- The rule below the instructions. -/
def footer : List Span :=
  [.bare (repeated 19 '-' ++ "+" ++ repeated 53 '-')]

/-- The painted lines of a listing. -/
def listingLines (title : String) (program : Program) : List (List Span) :=
  header title :: program.instructions.map Instruction.listingLine
    ++ footer :: program.symbols.constants.symbols.map Symbol.constantLine
    ++ program.symbols.labels.symbols.map (Symbol.slotLine .green)
    ++ program.symbols.subroutines.symbols.map (Symbol.slotLine .cyan)

/-- The listing of a program under a title. -/
def listing (title : String) (program : Program) : String :=
  String.join ((program.listingLines title).map fun line => Span.render line ++ "\n")

end Program

end Breadboard
