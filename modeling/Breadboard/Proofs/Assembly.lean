import Breadboard.Proofs.Resolution

/-!
# Assembled programs

The three passes together. `assemble_eq_ok_iff` says that a source assembles to a program exactly
when it can be read, its statements are consistent and every operand resolves in the tables of all
definitions. What else holds of an assembled program is then read off the program's own statements:
their tables, their slots and their operands.
-/

namespace Breadboard

/-- The statements of a program in order. -/
def Program.statements (program : Program) : List Statement :=
  program.instructions.map fun instruction => instruction.statement

/-- A program that is made of the statements of a source. -/
structure Assembled (source : List SourceStatement) (program : Program) : Prop where
  shaped : Shaped (source.map SourceStatement.statement)
  consistent : Consistent (source.map SourceStatement.statement)
  symbols_eq : program.symbols = Symbols.ofPlaced (place source)
  resolved : (place source).map (Placed.instruction program.symbols) =
    program.instructions.map Except.ok

theorem statementsOf_place (source : List SourceStatement) :
    statementsOf (place source) = source.map SourceStatement.statement :=
  map_statement_place source

/-- A source assembles to a program exactly when it can be read and the program is made of what it
says. -/
theorem assemble_eq_ok_iff {source : String} {program : Program} :
    assemble source = .ok program ↔
      ∃ statements, sourceStatements source = .ok statements ∧ Assembled statements program := by
  unfold assemble Program.ofPlaced
  simp only [bind_eq_ok_iff, symbolsOf_eq_ok_iff, mapM_eq_ok_iff, statementsOf_place]
  constructor
  · rintro ⟨statements, hread, symbols, ⟨hcons, rfl⟩, instructions, hres, h⟩
    cases h
    exact ⟨statements, hread, shaped_sourceStatements hread, hcons, rfl, hres⟩
  · rintro ⟨statements, hread, -, hcons, hsymbols, hres⟩
    refine ⟨statements, hread, _, ⟨hcons, rfl⟩, program.instructions, ?_, ?_⟩
    · rw [← hsymbols, hres]
    · rw [← hsymbols]; rfl

namespace Assembled

variable {source : List SourceStatement} {program : Program}

theorem instruction_eq_ok (h : Assembled source program) {i : Nat} {instruction : Instruction}
    (hi : program.instructions[i]? = some instruction) :
    ∃ p, (place source)[i]? = some p ∧ p.instruction program.symbols = .ok instruction := by
  have hmap := congrArg (fun results => results[i]?) h.resolved
  simp only [List.getElem?_map, hi, Option.map_some, Option.map_eq_some_iff] at hmap
  exact hmap

/-- The instructions of a program are the statements of its source, line by line. -/
theorem source_eq (h : Assembled source program) :
    program.instructions.map Instruction.toSourceStatement = source := by
  have hstep : ∀ (p : Placed) (instruction : Instruction),
      p.instruction program.symbols = .ok instruction →
        instruction.toSourceStatement = p.toSourceStatement :=
    fun p instruction hp => (Placed.instruction_eq_ok_iff.1 hp).2.1
  rw [map_eq_of_map_eq_ok hstep h.resolved]
  exact map_toSourceStatement_placeFrom 0 source

theorem statements_eq (h : Assembled source program) :
    program.statements = source.map SourceStatement.statement := by
  have hmap := congrArg (List.map SourceStatement.statement) h.source_eq
  rw [List.map_map] at hmap
  exact hmap

theorem consistent_statements (h : Assembled source program) : Consistent program.statements := by
  rw [h.statements_eq]
  exact h.consistent

theorem shaped_statements (h : Assembled source program) : Shaped program.statements := by
  rw [h.statements_eq]
  exact h.shaped

/-! ## Slots and operands -/

/-- An instruction starts at the sum of the widths before it, if it takes a slot at all. -/
theorem slot?_eq (h : Assembled source program) {i : Nat} {instruction : Instruction}
    (hi : program.instructions[i]? = some instruction) :
    instruction.slot? =
      if instruction.statement.width = 0 then none else some (slotAt program.statements i) := by
  obtain ⟨p, hp, hinst⟩ := h.instruction_eq_ok hi
  obtain ⟨_, hsource, hslot⟩ := Placed.instruction_eq_ok_iff.1 hinst
  rw [hslot, Placed.slot?, (getElem?_place.1 hp).2, h.statements_eq, hsource]

theorem slotAt_eq (h : Assembled source program) {i start : Nat} {instruction : Instruction}
    (hi : program.instructions[i]? = some instruction) (hstart : instruction.slot? = some start) :
    slotAt program.statements i = start := by
  rw [h.slot?_eq hi] at hstart
  split at hstart
  · cases hstart
  · exact Option.some.inj hstart

theorem operand?_eq (h : Assembled source program) {i : Nat} {instruction : Instruction}
    {op : Opcode} {arg : String} (hi : program.instructions[i]? = some instruction)
    (hs : instruction.statement = .operation op (some arg)) :
    ∃ operand, instruction.operand? = some operand ∧
      program.symbols.operand op (slotAt program.statements i) arg = .ok operand := by
  obtain ⟨p, hp, hinst⟩ := h.instruction_eq_ok hi
  obtain ⟨hoperand, hsource, _⟩ := Placed.instruction_eq_ok_iff.1 hinst
  rw [hsource] at hs
  rw [Placed.operand?_of_operation hs, (getElem?_place.1 hp).2, ← h.statements_eq] at hoperand
  obtain ⟨operand, hok, hsome⟩ := map_eq_ok_iff.1 hoperand
  exact ⟨operand, hsome.symm, hok⟩

theorem operand?_eq_none (h : Assembled source program) {i : Nat} {instruction : Instruction}
    (hi : program.instructions[i]? = some instruction)
    (hs : ∀ op arg, instruction.statement ≠ .operation op (some arg)) :
    instruction.operand? = none := by
  obtain ⟨p, _, hinst⟩ := h.instruction_eq_ok hi
  obtain ⟨hoperand, hsource, _⟩ := Placed.instruction_eq_ok_iff.1 hinst
  rw [hsource] at hs
  rw [Placed.operand?_of_ne hs] at hoperand
  exact (Except.ok.inj hoperand).symm

end Assembled

/-! ## Look-ups -/

theorem exists_mem_place_iff {source : List SourceStatement} {s : Statement} {slot : Nat} :
    (∃ p ∈ place source, p.statement = s ∧ p.start = slot) ↔
      ∃ i, (source.map SourceStatement.statement)[i]? = some s ∧
        slotAt (source.map SourceStatement.statement) i = slot := by
  constructor
  · rintro ⟨p, hp, rfl, rfl⟩
    obtain ⟨i, hi⟩ := List.mem_iff_getElem?.1 hp
    obtain ⟨hs, hstart⟩ := getElem?_place.1 hi
    exact ⟨i, by simp [hs], hstart.symm⟩
  · rintro ⟨i, hi, rfl⟩
    obtain ⟨x, hx, rfl⟩ := Option.map_eq_some_iff.1 (List.getElem?_map ▸ hi)
    exact ⟨⟨x, _⟩, List.mem_iff_getElem?.2 ⟨i, getElem?_place.2 ⟨hx, rfl⟩⟩, rfl, rfl⟩

section
variable {source : List SourceStatement} {name : String}
  (h : DistinctNames (source.map SourceStatement.statement))

include h

theorem labels_place_get?_eq_some_iff {slot : Nat} :
    (Symbols.ofPlaced (place source)).labels.get? name = some slot ↔
      ∃ j, (source.map SourceStatement.statement)[j]? = some (.label name) ∧
        slotAt (source.map SourceStatement.statement) j = slot := by
  rw [labels_get?_eq_some_iff (by rwa [statementsOf_place]), exists_mem_place_iff]

theorem subroutines_place_get?_eq_some_iff {slot : Nat} :
    (Symbols.ofPlaced (place source)).subroutines.get? name = some slot ↔
      ∃ j, (source.map SourceStatement.statement)[j]? = some (.opening name) ∧
        slotAt (source.map SourceStatement.statement) j = slot := by
  rw [subroutines_get?_eq_some_iff (by rwa [statementsOf_place]), exists_mem_place_iff]

theorem constants_place_get?_eq_some_iff {value : UInt8} :
    (Symbols.ofPlaced (place source)).constants.get? name = some value ↔
      .constant name value ∈ source.map SourceStatement.statement := by
  rw [constants_get?_eq_some_iff (by rwa [statementsOf_place]), ← statementsOf_place, statementsOf]
  simp [List.mem_map]

end

end Breadboard
