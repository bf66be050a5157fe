import Breadboard.Program.Listing
import Breadboard.Proofs.Acceptance
import Breadboard.Proofs.Decoding
import Breadboard.Proofs.Desugaring

/-!
# Assembling what was disassembled

What the decoder makes of two bytes is a line of source once it is indented. A list of byte pairs is
shown in this way, line by line, and assembled again.

Bytes that the decoder knows are those of slots, and their line says the operation that the slot is
spelled out as (`Slot.says_disassembly`). Such operations define no name, so a jump or a call among
them leads nowhere; all others are written as the slot that was shown
(`exists_assembled_disassembly`). An operand that is not shown comes back as zero.
-/

namespace Breadboard

/-- The source of what the decoder makes of byte pairs, one indented line for each. -/
def disassemblySource (pairs : List (UInt8 × UInt8)) : String :=
  unlines (pairs.map fun pair => "  " ++ disassemble pair.1 pair.2)

/-- The bytes of a pair as they are shown: the operand is zero unless the opcode has one. -/
def shownBytes (pair : UInt8 × UInt8) : List UInt8 :=
  [pair.1, if (Opcode.ofByte? pair.1).any Opcode.hasOperand then pair.2 else 0]

namespace Slot

/-- The two bytes of a slot. -/
def pair (slot : Slot) : UInt8 × UInt8 :=
  (slot.opcode.byte, slot.operand)

/-- A slot as it is shown: the operand is zero unless the opcode has one. -/
def shown (slot : Slot) : Slot :=
  ⟨slot.opcode, if slot.opcode.hasOperand then slot.operand else 0⟩

@[simp] theorem bytes_shown (slot : Slot) : slot.shown.bytes = shownBytes slot.pair := by
  simp [bytes, shown, shownBytes, pair]

theorem IsExecutable.shown_eq {slot : Slot} (h : slot.IsExecutable) : slot.shown = slot := by
  obtain ⟨op, operand⟩ := slot
  cases hneeds : op.hasOperand with
  | true => simp [shown, hneeds]
  | false =>
    have hzero : operand = 0 := h.operand hneeds
    simp [shown, hneeds, hzero]

theorem isDirect_shown {slot : Slot} (hjmp : slot.opcode ≠ .jmp) (hrun : slot.opcode ≠ .run) :
    slot.shown.IsDirect :=
  ⟨hjmp, hrun, fun hnone => by simp_all [shown]⟩

theorem statement_shown (slot : Slot) : slot.shown.statement = slot.statement := by
  unfold statement arg? shown
  split <;> simp [*]

/-! ## The line of a slot -/

theorem disassembly_eq (slot : Slot) :
    "  " ++ slot.disassembly = operationLine slot.opcode slot.arg? := by
  rw [← String.toList_inj]
  unfold disassembly disassemble arg?
  rw [Opcode.ofByte?_byte]
  dsimp only
  split <;> simp [operationLine, hexLiteral]

/-- The line of a slot says the operation that the slot is spelled out as. -/
theorem says_disassembly (slot : Slot) : Says ("  " ++ slot.disassembly) slot.statement := by
  rw [slot.disassembly_eq]
  exact slot.says_statement

end Slot

/-- Bytes whose opcodes are all known are those of slots. -/
theorem exists_slots_iff {pairs : List (UInt8 × UInt8)} :
    (∀ pair ∈ pairs, ∃ op, Opcode.ofByte? pair.1 = some op) ↔
      ∃ slots : List Slot, slots.map Slot.pair = pairs := by
  constructor
  · intro h
    induction pairs with
    | nil => exact ⟨[], rfl⟩
    | cons pair rest ih =>
      obtain ⟨⟨op, hop⟩, hrest⟩ := List.forall_mem_cons.1 h
      obtain ⟨slots, rfl⟩ := ih hrest
      exact ⟨⟨op, pair.2⟩ :: slots, by simp [Slot.pair, Opcode.byte_of_ofByte? hop]⟩
  · rintro ⟨slots, rfl⟩ pair hmem
    obtain ⟨slot, -, rfl⟩ := List.mem_map.1 hmem
    exact ⟨slot.opcode, Opcode.ofByte?_byte slot.opcode⟩

theorem exists_sourceStatements_disassembly (slots : List Slot) :
    ∃ located, sourceStatements (disassemblySource (slots.map Slot.pair)) = .ok located ∧
      located.map SourceStatement.statement = slots.map Slot.statement := by
  apply exists_sourceStatements_unlines
  rw [List.map_map, List.forall₂_map_left_iff, List.forall₂_map_right_iff, List.forall₂_same]
  exact fun slot _ => slot.says_disassembly

/-! ## Bytes that no opcode has -/

theorem toList_disassemble_undecoded {opcode : UInt8} (h : Opcode.ofByte? opcode = none)
    (operand : UInt8) :
    ("  " ++ disassemble opcode operand).toList =
      ' ' :: ' ' :: spaced [['?', '?'], (hexLiteral opcode).toList] := by
  simp [disassemble, h, hexLiteral]

theorem isWord_of_mem_undecoded (opcode : UInt8) :
    ∀ word ∈ [['?', '?'], (hexLiteral opcode).toList], IsWord word := by
  have hblank : Text.isBlank '?' = false := by decide
  have hmarks : IsWord ['?', '?'] := by constructor <;> simp [hblank]
  exact List.forall_mem_cons.2 ⟨hmarks, List.forall_mem_singleton.2 (isWord_hexLiteral opcode)⟩

/-- The line of bytes that no opcode has is no statement. -/
theorem ofCode?_undecoded {opcode : UInt8} (h : Opcode.ofByte? opcode = none) (operand : UInt8) :
    Statement.ofCode? (normalize ("  " ++ disassemble opcode operand).toList) =
      .error (.unknownMnemonic "??") := by
  have hunknown : Opcode.ofText? "??" = none := by decide
  have hwords := isWord_of_mem_undecoded opcode
  rw [toList_disassemble_undecoded h, normalize_indented hwords (by simp), Statement.ofCode?,
    Statement.readOperation, splitOn_spaced hwords (by simp)]
  simp [Statement.ofMnemonic, hunknown, Except.map]

theorem newline_notMem_disassemble (opcode operand : UInt8) :
    '\n' ∉ ("  " ++ disassemble opcode operand).toList := by
  cases h : Opcode.ofByte? opcode with
  | some op =>
    have hsays := Slot.says_disassembly ⟨op, operand⟩
    rw [Slot.disassembly, Opcode.byte_of_ofByte? h] at hsays
    exact hsays.newline
  | none =>
    rw [toList_disassemble_undecoded h]
    have hword := (isWord_hexLiteral opcode).notMem_of_isBlank (c := '\n') (by decide)
    simp [hword]

/-- A source of lines that is read has a valid form on each of them. -/
theorem exists_ofCode?_of_unlines {texts : List String} {located : List SourceStatement}
    (hnewline : ∀ text ∈ texts, '\n' ∉ text.toList)
    (h : sourceStatements (unlines texts) = .ok located) {text : String} (hmem : text ∈ texts) :
    ∃ statement?, Statement.ofCode? (normalize text.toList) = .ok statement? := by
  have htext : dropReturn text.toList ∈ lineTexts (unlines texts).toList := by
    rw [lineTexts_unlines hnewline]
    exact List.mem_map_of_mem hmem
  rw [← map_text_lines] at htext
  obtain ⟨line, hline, heq⟩ := List.mem_map.1 htext
  obtain ⟨statement?, hread⟩ := (sourceStatements_eq_ok_iff.1 h).1 line hline
  have hcode := mapError_eq_ok_iff.1 hread
  rw [heq, normalize_dropReturn] at hcode
  exact ⟨statement?, hcode⟩

/-- Only bytes that the decoder knows can be read again. -/
theorem exists_slots_of_sourceStatements {pairs : List (UInt8 × UInt8)}
    {located : List SourceStatement}
    (h : sourceStatements (disassemblySource pairs) = .ok located) :
    ∃ slots : List Slot, slots.map Slot.pair = pairs := by
  rw [← exists_slots_iff]
  intro pair hmem
  cases hop : Opcode.ofByte? pair.1 with
  | some op => exact ⟨op, rfl⟩
  | none =>
    have hnewline : ∀ text ∈ pairs.map fun pair => "  " ++ disassemble pair.1 pair.2,
        '\n' ∉ text.toList := by
      intro text htext
      obtain ⟨other, -, rfl⟩ := List.mem_map.1 htext
      exact newline_notMem_disassemble other.1 other.2
    obtain ⟨statement?, hcode⟩ :=
      exists_ofCode?_of_unlines hnewline h (List.mem_map.2 ⟨pair, hmem, rfl⟩)
    rw [ofCode?_undecoded hop] at hcode
    cases hcode

/-! ## The program of a disassembly -/

section
variable {slots : List Slot} {located : List SourceStatement}
  (hstatements : located.map SourceStatement.statement = slots.map Slot.statement)

include hstatements

/-- Nothing is defined among the operations of slots, so no jump and no call is left. -/
theorem Assembled.ne_jmp_and_ne_run {program : Program} (h : Assembled located program) :
    ∀ slot ∈ slots, slot.opcode ≠ .jmp ∧ slot.opcode ≠ .run := by
  intro slot hmem
  obtain ⟨-, hresolves⟩ := (exists_assembled_iff h.shaped).1 ⟨program, h⟩
  rw [hstatements] at hresolves
  obtain ⟨i, hi⟩ := List.mem_iff_getElem?.1 hmem
  have hoperation : ∀ op, slot.opcode = op → op.hasOperand = true →
      Resolves (slots.map Slot.statement) i op (hexLiteral slot.operand) := by
    rintro op rfl hneeds
    apply hresolves
    rw [List.getElem?_map, hi]
    simp [Slot.statement, Slot.arg?, hneeds]
  -- a jump needs a label and a call needs an opening, and neither is an operation
  have hnothing : ∀ (j : Nat) (s : Statement), (slots.map Slot.statement)[j]? = some s →
      ∃ op arg?, s = .operation op arg? := by
    intro j s hj
    rw [List.getElem?_map] at hj
    obtain ⟨other, -, rfl⟩ := Option.map_eq_some_iff.1 hj
    exact ⟨other.opcode, other.arg?, rfl⟩
  constructor
  · intro hjmp
    obtain ⟨j, hj, -⟩ := hoperation .jmp hjmp rfl
    obtain ⟨_, _, hs⟩ := hnothing j _ hj
    cases hs
  · intro hrun
    obtain ⟨⟨j, hj, -⟩, -⟩ := hoperation .run hrun rfl
    obtain ⟨_, _, hs⟩ := hnothing j _ hj
    cases hs

/-- Operations other than jumps and calls are written as the slots that were shown. -/
theorem exists_assembled_disassembly (hshaped : Shaped (located.map SourceStatement.statement))
    (h : ∀ slot ∈ slots, slot.opcode ≠ .jmp ∧ slot.opcode ≠ .run) :
    ∃ program, Assembled located program ∧ program.slots = slots.map Slot.shown := by
  have hdirect : ∀ slot ∈ slots, slot.shown.IsDirect :=
    fun slot hmem => Slot.isDirect_shown (h slot hmem).1 (h slot hmem).2
  have hplain : ∀ s ∈ located.map SourceStatement.statement, s.isPlain = true := by
    rw [hstatements]
    intro s hs
    obtain ⟨slot, hmem, rfl⟩ := List.mem_map.1 hs
    rw [← slot.statement_shown]
    exact (hdirect slot hmem).isPlain_statement
  have hlabels : labelNames (located.map SourceStatement.statement) = [] := by
    rw [hstatements, labelNames, List.filterMap_map]
    exact List.filterMap_eq_nil_iff.2 fun slot _ => rfl
  apply exists_assembled_of_emits hshaped
  · exact consistent_of_isPlain hplain (hlabels ▸ List.nodup_nil)
  · rw [hstatements, List.forall₂_map_left_iff, List.forall₂_map_right_iff, List.forall₂_same]
    intro slot hmem
    rw [← slot.statement_shown]
    exact (hdirect slot hmem).emits _

end

/-- Slots other than jumps and calls are assembled again, as they were shown. -/
theorem exists_assemble_disassemblySource {slots : List Slot}
    (h : ∀ slot ∈ slots, slot.opcode ≠ .jmp ∧ slot.opcode ≠ .run) :
    ∃ program, assemble (disassemblySource (slots.map Slot.pair)) = .ok program ∧
      program.bytes = (slots.map Slot.pair).flatMap shownBytes := by
  obtain ⟨located, hread, hstatements⟩ := exists_sourceStatements_disassembly slots
  obtain ⟨program, hprogram, hslots⟩ :=
    exists_assembled_disassembly hstatements (shaped_sourceStatements hread) h
  refine ⟨program, assemble_eq_ok_iff.2 ⟨located, hread, hprogram⟩, ?_⟩
  rw [Program.bytes, hslots, List.flatMap_map, List.flatMap_map]
  simp only [Slot.bytes_shown]

/-- What is assembled again was made of slots other than jumps and calls. -/
theorem exists_slots_of_assemble {pairs : List (UInt8 × UInt8)} {program : Program}
    (h : assemble (disassemblySource pairs) = .ok program) :
    ∃ slots : List Slot, slots.map Slot.pair = pairs ∧
      ∀ slot ∈ slots, slot.opcode ≠ .jmp ∧ slot.opcode ≠ .run := by
  obtain ⟨located, hread, hprogram⟩ := assemble_eq_ok_iff.1 h
  obtain ⟨slots, rfl⟩ := exists_slots_of_sourceStatements hread
  obtain ⟨located', hread', hstatements⟩ := exists_sourceStatements_disassembly slots
  obtain rfl : located = located' := Except.ok.inj (hread.symm.trans hread')
  exact ⟨slots, rfl, hprogram.ne_jmp_and_ne_run hstatements⟩

theorem exists_slots_ne_iff {pairs : List (UInt8 × UInt8)} :
    (∃ slots : List Slot, slots.map Slot.pair = pairs ∧
        ∀ slot ∈ slots, slot.opcode ≠ .jmp ∧ slot.opcode ≠ .run) ↔
      ∀ pair ∈ pairs, ∃ op, Opcode.ofByte? pair.1 = some op ∧ op ≠ .jmp ∧ op ≠ .run := by
  constructor
  · rintro ⟨slots, rfl, hslots⟩ pair hmem
    obtain ⟨slot, hslot, rfl⟩ := List.mem_map.1 hmem
    exact ⟨slot.opcode, Opcode.ofByte?_byte slot.opcode, hslots slot hslot⟩
  · intro h
    obtain ⟨slots, rfl⟩ := exists_slots_iff.1 fun pair hmem => (h pair hmem).imp fun _ => And.left
    refine ⟨slots, rfl, fun slot hslot => ?_⟩
    obtain ⟨op, hop, hne⟩ := h slot.pair (List.mem_map_of_mem hslot)
    rw [Slot.pair, Opcode.ofByte?_byte, Option.some.injEq] at hop
    rwa [hop]

/-- A slot has the opcode of its operation, or one that the assembler chose. -/
theorem Instruction.opcode_of_mem_slots {instruction : Instruction} {slot : Slot}
    (h : slot ∈ instruction.slots) :
    (∃ arg?, instruction.statement = .operation slot.opcode arg?) ∨
      slot.opcode ∈ [Opcode.nop, .popp, .pshv, .jmpv] := by
  unfold Instruction.slots at h
  cases hs : instruction.statement with
  | operation op arg? =>
    rcases hoperand : instruction.operand? with _ | ⟨value⟩ | ⟨ret, entry⟩ <;>
      simp only [hs, hoperand, List.mem_cons, List.not_mem_nil, or_false] at h
    · exact .inl ⟨arg?, by rw [h]⟩
    · exact .inl ⟨arg?, by rw [h]⟩
    · rcases h with rfl | rfl <;> simp
  | _ => simp_all

/-- Only a jump is written with the opcode of a jump. -/
theorem Program.opcode_ne_jmp {program : Program}
    (h : ∀ s ∈ program.statements, ∀ arg?, s ≠ .operation .jmp arg?) :
    ∀ slot ∈ program.slots, slot.opcode ≠ .jmp := by
  intro slot hslot hjmp
  obtain ⟨instruction, hmem, hslot⟩ := List.mem_flatMap.1 hslot
  rcases Instruction.opcode_of_mem_slots hslot with ⟨arg?, hs⟩ | hchosen
  · exact h _ (List.mem_map_of_mem hmem) arg? (by rw [hs, hjmp])
  · rw [hjmp] at hchosen
    exact absurd hchosen (by decide)

/-- **Disassembling and assembling again.** Byte pairs are accepted exactly when the decoder knows
every opcode and none is a jump to a label or a call, and come back with the operand zero where the
opcode has none. So a program without jumps to labels comes back as it was. -/
theorem assemble_disassemblySource :
    (∀ pairs, (∃ program, assemble (disassemblySource pairs) = .ok program) ↔
      ∀ pair ∈ pairs, ∃ op, Opcode.ofByte? pair.1 = some op ∧ op ≠ .jmp ∧ op ≠ .run) ∧
    (∀ pairs program, assemble (disassemblySource pairs) = .ok program →
      program.bytes = pairs.flatMap shownBytes) ∧
    ∀ source program, assemble source = .ok program →
      (∀ s ∈ program.statements, ∀ arg?, s ≠ .operation .jmp arg?) →
        ∃ copy, assemble (disassemblySource (program.slots.map Slot.pair)) = .ok copy ∧
          copy.bytes = program.bytes := by
  refine ⟨fun pairs => ?_, fun pairs program h => ?_, fun source program h hjmp => ?_⟩
  · rw [← exists_slots_ne_iff]
    constructor
    · rintro ⟨program, h⟩
      exact exists_slots_of_assemble h
    · rintro ⟨slots, rfl, hslots⟩
      obtain ⟨program, h, -⟩ := exists_assemble_disassemblySource hslots
      exact ⟨program, h⟩
  · obtain ⟨slots, rfl, hslots⟩ := exists_slots_of_assemble h
    obtain ⟨program', h', hbytes⟩ := exists_assemble_disassemblySource hslots
    obtain rfl : program = program' := Except.ok.inj (h.symm.trans h')
    exact hbytes
  · obtain ⟨statements, -, hprogram⟩ := assemble_eq_ok_iff.1 h
    have hexecutable := hprogram.isExecutable
    obtain ⟨copy, hcopy, hbytes⟩ := exists_assemble_disassemblySource fun slot hslot =>
      ⟨Program.opcode_ne_jmp hjmp slot hslot, (hexecutable slot hslot).ne_run⟩
    refine ⟨copy, hcopy, ?_⟩
    rw [hbytes, List.flatMap_map, Program.bytes]
    refine List.flatMap_congr fun slot hslot => ?_
    rw [← Slot.bytes_shown, (hexecutable slot hslot).shown_eq]

/-- The operand of a `POPP` is lost, a jump to a label and an unknown opcode are refused, and a
subroutine with its call comes back. -/
theorem assemble_disassemblySource_call :
    disassemblySource [(17, 171), (34, 9)] = "  LDAV 0xAB\n  POPP\n" ∧
    (∃ program, assemble "  LDAV 0xAB\n  POPP\n" = .ok program ∧
      program.bytes = [17, 171, 34, 0]) ∧
    (¬ ∃ program, assemble (disassemblySource [(17, 171), (11, 0)]) = .ok program) ∧
    (¬ ∃ program, assemble (disassemblySource [(17, 171), (39, 0)]) = .ok program) ∧
    ∃ program copy, assemble "f\x7b\n  OUTA\n\x7d\n  RUN f\n" = .ok program ∧
      assemble (disassemblySource (program.slots.map Slot.pair)) = .ok copy ∧
      copy.bytes = [2, 0, 36, 0, 34, 0, 26, 5, 12, 0] := by
  obtain ⟨hiff, hbytes, hcopy⟩ := assemble_disassemblySource
  have hsource : disassemblySource [(17, 171), (34, 9)] = "  LDAV 0xAB\n  POPP\n" := by
    decide +kernel
  have hok : (assemble "f\x7b\n  OUTA\n\x7d\n  RUN f\n").map
      (fun program => (program.bytes, program.statements)) =
      .ok ([2, 0, 36, 0, 34, 0, 26, 5, 12, 0],
        [.opening "f", .operation .outa none, .closing, .operation .run (some "f")]) := by
    decide +kernel
  obtain ⟨program, hprogram, heq⟩ := map_eq_ok_iff.1 hok
  obtain ⟨hprogramBytes, hstatements⟩ := Prod.mk.inj heq
  have hnone : ∀ s ∈ program.statements, ∀ arg?, s ≠ .operation .jmp arg? := by
    simp [hstatements]
  refine ⟨hsource, ?_, ?_, ?_, ?_⟩
  · have hknown : ∀ pair ∈ [((17 : UInt8), (171 : UInt8)), (34, 9)],
        ∃ op, Opcode.ofByte? pair.1 = some op ∧ op ≠ .jmp ∧ op ≠ .run :=
      List.forall_mem_cons.2 ⟨⟨.ldav, by decide, by decide, by decide⟩,
        List.forall_mem_singleton.2 ⟨.popp, by decide, by decide, by decide⟩⟩
    obtain ⟨program, h⟩ := (hiff _).2 hknown
    have hshown := hbytes _ _ h
    rw [hsource] at h
    exact ⟨program, h, hshown⟩
  · intro hassembled
    obtain ⟨op, hop, hjmp, -⟩ := (hiff _).1 hassembled (11, 0) (by simp)
    have hdecoded : Opcode.ofByte? 11 = some .jmp := by decide
    exact hjmp (Option.some.inj (hop.symm.trans hdecoded))
  · intro hassembled
    obtain ⟨op, hop, -⟩ := (hiff _).1 hassembled (39, 0) (by simp)
    have hunknown : Opcode.ofByte? 39 = none := by decide
    cases hop.symm.trans hunknown
  · obtain ⟨copy, h, hsame⟩ := hcopy _ _ hprogram hnone
    exact ⟨program, copy, hprogram, h, hsame.trans hprogramBytes⟩

end Breadboard
