import Breadboard.Program.Basic

/-!
# Assembling

A source is assembled in three steps, each of which must succeed on all of it before the next one
starts: its lines are read as statements, the placed statements fill the symbol tables, and the
operands are looked up. So a name may be used before the line that defines it, and a fault of an
earlier step hides those of the later ones.
-/

namespace Breadboard

/-- A slot number as an operand byte. -/
def addressByte (address : Nat) : Except Fault UInt8 :=
  if address < 256 then .ok (UInt8.ofNat address) else .error (.addressOverflow address)

namespace Symbols

/-- The value of the operand `arg` of a jump to a label. -/
def jump (symbols : Symbols) (arg : String) : Except Fault Operand :=
  match symbols.labels.get? arg with
  | none => .error (.unknownLabel arg)
  | some target => do
    let value ← addressByte target
    return .byte value

/-- The value of the operand `arg` of a call at slot `start`, which returns behind its two slots. -/
def call (symbols : Symbols) (start : Nat) (arg : String) : Except Fault Operand :=
  match symbols.subroutines.get? arg with
  | none => .error (.unknownSubroutine arg)
  | some target => do
    let ret ← addressByte (start + 2)
    let entry ← addressByte target
    return .call ret entry

/-- The value of any other operand: a constant after `$`, or a literal. -/
def value (symbols : Symbols) (arg : String) : Except Fault Operand :=
  match arg.toList with
  | '$' :: rest =>
    let name := String.ofList rest
    match symbols.constants.get? name with
    | some value => .ok (.byte value)
    | none => .error (.unknownConstant name)
  | _ =>
    match Literal.byte? arg with
    | some value => .ok (.byte value)
    | none => .error (.badLiteral arg)

/-- The value of the operand of an operation at slot `start`. -/
def operand (symbols : Symbols) (op : Opcode) (start : Nat) (arg : String) :
    Except Fault Operand :=
  match op with
  | .jmp => symbols.jump arg
  | .run => symbols.call start arg
  | _ => symbols.value arg

end Symbols

namespace Placed

/-- The first slot of a placed statement, if it takes any. -/
def slot? (p : Placed) : Option Nat :=
  if p.statement.width = 0 then none else some p.start

/-- The value of a placed statement's operand, if it has one. -/
def operand? (symbols : Symbols) (p : Placed) : Except Fault (Option Operand) :=
  match p.statement with
  | .operation op (some arg) => (symbols.operand op p.start arg).map some
  | _ => .ok none

/-- The instruction of a placed statement. -/
def instruction (symbols : Symbols) (p : Placed) : Except Diagnostic Instruction :=
  match p.operand? symbols with
  | .ok operand? => .ok ⟨p.toSourceStatement, p.slot?, operand?⟩
  | .error fault => .error (.atLine p.line fault)

end Placed

/-- The program of placed statements. -/
def Program.ofPlaced (placed : List Placed) : Except Diagnostic Program := do
  let symbols ← symbolsOf placed
  let instructions ← placed.mapM (Placed.instruction symbols)
  return ⟨instructions, symbols⟩

/-- The program that a source describes. -/
def assemble (source : String) : Except Diagnostic Program := do
  let statements ← sourceStatements source
  Program.ofPlaced (place statements)

end Breadboard
