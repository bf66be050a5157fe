/-!
# Instruction set

The processor's instructions. An opcode's byte is its place in `Opcode.all`, counted from zero, so the
order of the constructors is the wiring of the decoder. Mnemonics are capital letters; source text
may write them in any case (`ofText?`).
-/

namespace Breadboard

/-- An instruction of the processor. -/
inductive Opcode where
  /-- Stops the system clock. -/
  | hlt
  /-- Resets all system registers. -/
  | rst
  /-- Does nothing for one cycle. -/
  | nop
  /-- Does nothing for sixteen cycles. -/
  | slop
  | addv
  | addx
  | addy
  | subv
  | subx
  | suby
  /-- Calls a subroutine; the assembler writes it as a `PSHV` and a `JMPV`. -/
  | run
  /-- Jumps to a label. -/
  | jmp
  | jmpv
  | jmpa
  | jmpx
  | jmpy
  | jmps
  | ldav
  | ldax
  | lday
  | ldxv
  | ldxa
  | ldxy
  | ldyv
  | ldya
  | ldyx
  | pshv
  | psha
  | pshx
  | pshy
  | pshp
  | popa
  | popx
  | popy
  | popp
  | outv
  | outa
  | outx
  | outy
  deriving DecidableEq, Repr

namespace Opcode

/-- All opcodes in the order of their bytes. -/
def all : List Opcode :=
  [hlt, rst, nop, slop,
    addv, addx, addy, subv, subx, suby,
    run, jmp, jmpv, jmpa, jmpx, jmpy, jmps,
    ldav, ldax, lday, ldxv, ldxa, ldxy, ldyv, ldya, ldyx,
    pshv, psha, pshx, pshy, pshp, popa, popx, popy, popp,
    outv, outa, outx, outy]

/-- The byte that the decoder takes for an opcode. -/
def byte (op : Opcode) : UInt8 :=
  UInt8.ofNat op.ctorIdx

/-- The opcode of a byte, if the decoder has one there. -/
def ofByte? (b : UInt8) : Option Opcode :=
  all[b.toNat]?

/-- The name of an opcode in source text. -/
def mnemonic : Opcode → String
  | hlt => "HLT"
  | rst => "RST"
  | nop => "NOP"
  | slop => "SLOP"
  | addv => "ADDV"
  | addx => "ADDX"
  | addy => "ADDY"
  | subv => "SUBV"
  | subx => "SUBX"
  | suby => "SUBY"
  | run => "RUN"
  | jmp => "JMP"
  | jmpv => "JMPV"
  | jmpa => "JMPA"
  | jmpx => "JMPX"
  | jmpy => "JMPY"
  | jmps => "JMPS"
  | ldav => "LDAV"
  | ldax => "LDAX"
  | lday => "LDAY"
  | ldxv => "LDXV"
  | ldxa => "LDXA"
  | ldxy => "LDXY"
  | ldyv => "LDYV"
  | ldya => "LDYA"
  | ldyx => "LDYX"
  | pshv => "PSHV"
  | psha => "PSHA"
  | pshx => "PSHX"
  | pshy => "PSHY"
  | pshp => "PSHP"
  | popa => "POPA"
  | popx => "POPX"
  | popy => "POPY"
  | popp => "POPP"
  | outv => "OUTV"
  | outa => "OUTA"
  | outx => "OUTX"
  | outy => "OUTY"

/-- The opcode of a mnemonic in capital letters. -/
def ofMnemonic? (text : String) : Option Opcode :=
  all.find? fun op => op.mnemonic == text

/-- The opcode of a mnemonic whose ASCII letters may have any case. -/
def ofText? (text : String) : Option Opcode :=
  ofMnemonic? (String.ofList (text.toList.map Char.toUpper))

/-- Whether an operand follows the mnemonic in source text. -/
def hasOperand : Opcode → Bool
  | addv | subv | run | jmp | jmpv | ldav | ldxv | ldyv | pshv | outv => true
  | _ => false

/-! ## The table -/

/-- Decoding undoes encoding. -/
@[simp] theorem ofByte?_byte (op : Opcode) : ofByte? op.byte = some op := by
  cases op <;> rfl

/-- A byte decodes to the one opcode that has it. -/
theorem byte_of_ofByte? {b : UInt8} {op : Opcode} (h : ofByte? b = some op) : op.byte = b := by
  obtain ⟨hlt, hget⟩ := List.getElem?_eq_some_iff.mp h
  have table : ∀ i : Fin all.length, (all.get i).byte = UInt8.ofNat i := by decide
  simpa [hget] using table ⟨b.toNat, hlt⟩

/-- Reading a mnemonic undoes writing it. -/
@[simp] theorem ofMnemonic?_mnemonic (op : Opcode) : ofMnemonic? op.mnemonic = some op := by
  cases op <;> decide

theorem mnemonic_of_ofMnemonic? {text : String} {op : Opcode} (h : ofMnemonic? text = some op) :
    op.mnemonic = text := by
  simpa using List.find?_some h

end Opcode

end Breadboard
