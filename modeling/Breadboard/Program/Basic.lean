import Breadboard.Image
import Breadboard.Layout

/-!
# Programs

A program is a list of instructions, which are placed statements whose operands are known, with the
symbol tables of its source. An instruction is written as slots of an opcode and an operand byte:
labels and subroutine openings are a `NOP`, a closing is a `POPP` that returns to the caller, and a
call is a `PSHV` of the return slot followed by a `JMPV` to the entry.
-/

namespace Breadboard

/-- The value that an operand stands for. -/
inductive Operand where
  /-- One byte. -/
  | byte (value : UInt8)
  /-- A call: the slot to return to and the slot of the subroutine. -/
  | call (ret entry : UInt8)
  deriving DecidableEq, Repr

/-- A statement with its first slot, if it takes any, and the value of its operand, if it has one. -/
structure Instruction extends SourceStatement where
  slot? : Option Nat
  operand? : Option Operand
  deriving DecidableEq, Repr

/-- Two bytes of the image. -/
structure Slot where
  opcode : Opcode
  operand : UInt8
  deriving DecidableEq, Repr

/-- The bytes of a slot in the order of the image. -/
def Slot.bytes (slot : Slot) : List UInt8 :=
  [slot.opcode.byte, slot.operand]

namespace Instruction

/-- The number of slots that are kept for an instruction. -/
def width (instruction : Instruction) : Nat :=
  instruction.statement.width

/-- The slots that are written for an instruction. -/
def slots (instruction : Instruction) : List Slot :=
  match instruction.statement with
  | .constant .. => []
  | .label _ => [⟨.nop, 0⟩]
  | .opening _ => [⟨.nop, 0⟩]
  | .closing => [⟨.popp, 0⟩]
  | .operation op _ =>
    match instruction.operand? with
    | some (.call ret entry) => [⟨.pshv, ret⟩, ⟨.jmpv, entry⟩]
    | some (.byte value) => [⟨op, value⟩]
    | none => [⟨op, 0⟩]

/-- The number of slots that are kept for instructions one after the other. -/
def totalWidth (instructions : List Instruction) : Nat :=
  instructions.foldr (fun instruction total => instruction.width + total) 0

end Instruction

/-- Instructions in the order of the source, and the names that the source defines. -/
structure Program where
  instructions : List Instruction
  symbols : Symbols
  deriving DecidableEq, Repr

namespace Program

/-- The number of slots that are kept for a program. -/
def slotCount (program : Program) : Nat :=
  Instruction.totalWidth program.instructions

/-- Whether a program takes no slot. -/
def isEmpty (program : Program) : Bool :=
  program.slotCount == 0

/-- The slots of a program in order. -/
def slots (program : Program) : List Slot :=
  program.instructions.flatMap Instruction.slots

/-- The bytes of a program in order. -/
def bytes (program : Program) : List UInt8 :=
  program.slots.flatMap Slot.bytes

/-- The image that holds a program. -/
def image (program : Program) : Except Fault Image :=
  Image.ofBytes program.bytes

end Program

end Breadboard
