import Breadboard.Proofs.Emission

/-!
# Reading an image back

An unwritten cell holds a byte that may well be the operand of a program. It is never an opcode,
though, and programs fill whole slots: so the bytes of a program are those in front of the first
slot whose opcode byte is that of an unwritten cell (`Image.written`), and the image tells where
its program ends.

What makes this work is that every slot of an assembled program is one that the processor can
execute (`Assembled.isExecutable`): calls are written as other opcodes, and an opcode without
operand leaves its second byte zero.
-/

namespace Breadboard

/-- A slot that the processor can execute: a call has become other opcodes, and an operand that is
not there is zero. -/
structure Slot.IsExecutable (slot : Slot) : Prop where
  ne_run : slot.opcode ≠ .run
  operand : slot.opcode.hasOperand = false → slot.operand = 0

/-! ## The slots of a program -/

theorem Slot.isExecutable_of_hasOperand {slot : Slot} (hrun : slot.opcode ≠ .run)
    (h : slot.opcode.hasOperand = true) : slot.IsExecutable :=
  ⟨hrun, fun hnot => by rw [h] at hnot; cases hnot⟩

namespace Assembled

variable {source : List SourceStatement} {program : Program}

theorem isExecutable_of_operation (h : Assembled source program) {instruction : Instruction}
    {op : Opcode} {arg? : Option String} (hmem : instruction ∈ program.instructions)
    (hs : instruction.statement = .operation op arg?) :
    ∀ slot ∈ instruction.slots, slot.IsExecutable := by
  obtain ⟨hsome, hcall⟩ := h.operand_shape hmem hs
  rcases hoperand : instruction.operand? with _ | ⟨value⟩ | ⟨ret, entry⟩
  · -- only an opcode without operand is left without one, and that is no call
    have hnone : op.hasOperand = false := by rw [← hsome, hoperand]; rfl
    have hrun : op ≠ .run := by rintro rfl; cases hnone
    have hslot : (⟨op, 0⟩ : Slot).IsExecutable := ⟨hrun, fun _ => rfl⟩
    simpa [Instruction.slots, hs, hoperand] using hslot
  · have hneeds : op.hasOperand = true := by rw [← hsome, hoperand]; rfl
    have hrun : op ≠ .run := by
      intro hrun
      obtain ⟨ret, entry, hbyte⟩ := (hcall _ hoperand).2 hrun
      cases hbyte
    have hslot : (⟨op, value⟩ : Slot).IsExecutable := Slot.isExecutable_of_hasOperand hrun hneeds
    simpa [Instruction.slots, hs, hoperand] using hslot
  · have hpush : (⟨.pshv, ret⟩ : Slot).IsExecutable :=
      Slot.isExecutable_of_hasOperand (by simp) rfl
    have hjump : (⟨.jmpv, entry⟩ : Slot).IsExecutable :=
      Slot.isExecutable_of_hasOperand (by simp) rfl
    simp [Instruction.slots, hs, hoperand, hpush, hjump]

theorem isExecutable (h : Assembled source program) :
    ∀ slot ∈ program.slots, slot.IsExecutable := by
  intro slot hslot
  obtain ⟨instruction, hmem, hslot⟩ := List.mem_flatMap.1 hslot
  cases hs : instruction.statement with
  | operation op arg? => exact h.isExecutable_of_operation hmem hs slot hslot
  | constant name value => simp [Instruction.slots, hs] at hslot
  | label name =>
    obtain rfl : slot = ⟨.nop, 0⟩ := by simpa [Instruction.slots, hs] using hslot
    exact ⟨by simp, fun _ => rfl⟩
  | opening name =>
    obtain rfl : slot = ⟨.nop, 0⟩ := by simpa [Instruction.slots, hs] using hslot
    exact ⟨by simp, fun _ => rfl⟩
  | closing =>
    obtain rfl : slot = ⟨.popp, 0⟩ := by simpa [Instruction.slots, hs] using hslot
    exact ⟨by simp, fun _ => rfl⟩

end Assembled

/-! ## The end of a program in its image -/

/-- The bytes in front of the first slot whose opcode byte is that of an unwritten cell; all slots,
if there is no such slot. -/
def beforePadding : List UInt8 → List UInt8
  | opcode :: operand :: rest =>
    if opcode = Image.padding then [] else opcode :: operand :: beforePadding rest
  | _ => []

/-- The bytes of an image that a program wrote. -/
def Image.written (image : Image) : List UInt8 :=
  beforePadding image.bytes

theorem Opcode.byte_ne_padding (op : Opcode) : op.byte ≠ Image.padding := by
  cases op <;> decide

theorem beforePadding_replicate : ∀ n : Nat,
    beforePadding (List.replicate n Image.padding) = []
  | 0 => rfl
  | 1 => rfl
  | n + 2 => by simp [List.replicate_succ, beforePadding]

theorem beforePadding_append (slots : List Slot) (n : Nat) :
    beforePadding (slots.flatMap Slot.bytes ++ List.replicate n Image.padding) =
      slots.flatMap Slot.bytes := by
  induction slots with
  | nil => exact beforePadding_replicate n
  | cons slot rest ih =>
    have hopcode := slot.opcode.byte_ne_padding
    simp [Slot.bytes, beforePadding, hopcode, ih]

/-- An image tells which program it holds. -/
theorem Program.written_image {program : Program} {image : Image}
    (h : program.image = .ok image) : image.written = program.bytes := by
  have hle := Image.exists_ofBytes_iff.1 ⟨image, h⟩
  rw [Image.written, (Image.ofBytes_of_le hle).1 h]
  exact beforePadding_append program.slots _

/-- **Images can be read back.** Every slot of a program has a byte of an opcode, which is no call,
and a zero operand where the opcode has none. The bytes of the program are those of its image in
front of the first slot that is not written, so programs with the same image have the same bytes. -/
theorem decodes_of_assemble {source : String} {program : Program}
    (h : assemble source = .ok program) :
    (∀ k opcode, program.bytes[2 * k]? = some opcode →
      ∃ op operand, program.bytes[2 * k + 1]? = some operand ∧ Opcode.ofByte? opcode = some op ∧
        op ≠ .run ∧ (op.hasOperand = false → operand = 0)) ∧
      (∀ image, program.image = .ok image → image.written = program.bytes) ∧
      ∀ other program' image, assemble other = .ok program' → program.image = .ok image →
        program'.image = .ok image → program'.bytes = program.bytes := by
  obtain ⟨statements, -, hprogram⟩ := assemble_eq_ok_iff.1 h
  refine ⟨?_, fun image himage => Program.written_image himage, ?_⟩
  · intro k opcode hopcode
    obtain ⟨hfirst, hsecond⟩ := getElem?_flatMap_bytes program.slots k
    rw [Program.bytes] at hopcode ⊢
    rw [hfirst, Option.map_eq_some_iff] at hopcode
    obtain ⟨slot, hslot, rfl⟩ := hopcode
    obtain ⟨hrun, hoperand⟩ := hprogram.isExecutable slot (List.mem_of_getElem? hslot)
    exact ⟨slot.opcode, slot.operand, by rw [hsecond, hslot]; rfl, Opcode.ofByte?_byte _, hrun,
      hoperand⟩
  · intro other program' image _ himage himage'
    rw [← Program.written_image himage, ← Program.written_image himage']

/-- An operand with the value of an unwritten cell does not end a program; a call and a constant
give the image that their slots give when they are spelled out. -/
theorem decodes_operand_padding :
    ∃ program program' image,
      assemble "f\x7b\n  LDAV 0xFF\n\x7d\n  RUN f\n" = .ok program ∧
      assemble "$N -1\n  NOP\n  LDAV $N\n  POPP\n  PSHV 5\n  JMPV 0\n" = .ok program' ∧
      program.image = .ok image ∧ program'.image = .ok image ∧
      program.bytes = [2, 0, 17, 255, 34, 0, 26, 5, 12, 0] ∧ image.written = program.bytes ∧
      program'.bytes = program.bytes ∧
      ∃ op operand, program.bytes[3]? = some operand ∧ Opcode.ofByte? 17 = some op ∧ op ≠ .run ∧
        (op.hasOperand = false → operand = 0) := by
  have hfirst : (assemble "f\x7b\n  LDAV 0xFF\n\x7d\n  RUN f\n").map Program.bytes =
      .ok [2, 0, 17, 255, 34, 0, 26, 5, 12, 0] := by decide +kernel
  have hsecond :
      (assemble "$N -1\n  NOP\n  LDAV $N\n  POPP\n  PSHV 5\n  JMPV 0\n").map Program.bytes =
        .ok [2, 0, 17, 255, 34, 0, 26, 5, 12, 0] := by decide +kernel
  obtain ⟨program, h, hbytes⟩ := map_eq_ok_iff.1 hfirst
  obtain ⟨program', h', hbytes'⟩ := map_eq_ok_iff.1 hsecond
  obtain ⟨image, himage⟩ : ∃ image, program.image = .ok image :=
    Image.exists_ofBytes_iff.2 (by rw [hbytes]; decide)
  have himage' : program'.image = .ok image := by
    rw [← himage, Program.image, Program.image, hbytes, hbytes']
  obtain ⟨hslots, hwritten, hsame⟩ := decodes_of_assemble h
  exact ⟨program, program', image, h, h', himage, himage', hbytes, hwritten image himage,
    hsame _ program' image h' himage himage', hslots 1 17 (by rw [hbytes]; rfl)⟩

end Breadboard
