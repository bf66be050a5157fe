import Breadboard.Proofs.Assembly

/-!
# Which sources assemble

Three passes, each with its own state and its own ways to stop, accept a source together. The
theorem at the end says which sources these are without a pass, a state or an order of checks: a
condition on the lines, one on the definitions, and one on each reference, which may look at the
whole source in both directions.
-/

namespace Breadboard

/-- The slots before the statement with index `i`: a constant takes none, a call takes two and all
other statements take one. -/
def slotsBefore (statements : List Statement) (i : Nat) : Nat :=
  (statements.take i).foldr (fun
    | .constant .., total => total
    | .operation .run _, total => 2 + total
    | _, total => 1 + total) 0

theorem slotsBefore_eq_slotAt (statements : List Statement) (i : Nat) :
    slotsBefore statements i = slotAt statements i := by
  rw [slotsBefore, slotAt]
  induction statements.take i with
  | nil => rfl
  | cons s rest ih =>
    rw [List.foldr_cons, ih, extent_cons]
    unfold Statement.width
    split <;> simp

/-- The operand `arg` of an operation with index `i` among statements leads somewhere: a jump to a
label and a call to a subroutine whose slots fit in a byte, a call also back behind itself, and all
others to a constant or a byte. -/
def Resolves (statements : List Statement) (i : Nat) (op : Opcode) (arg : String) : Prop :=
  match op with
  | .jmp => ∃ j, statements[j]? = some (.label arg) ∧ slotsBefore statements j ≤ 255
  | .run =>
    (∃ j, statements[j]? = some (.opening arg) ∧ slotsBefore statements j ≤ 255) ∧
      slotsBefore statements i + 2 ≤ 255
  | _ =>
    (∃ name value, arg = "$" ++ name ∧ .constant name value ∈ statements) ∨
      (arg.toList.head? ≠ some '$' ∧ ∃ value, Literal.byte? arg = some value)

section
variable {source : List SourceStatement} {i : Nat} {op : Opcode} {arg : String}

theorem exists_operand_iff (h : DistinctNames (source.map SourceStatement.statement)) :
    (∃ operand, (Symbols.ofPlaced (place source)).operand op
        (slotAt (source.map SourceStatement.statement) i) arg = .ok operand) ↔
      Resolves (source.map SourceStatement.statement) i op arg := by
  have hvalue : (∃ operand, (Symbols.ofPlaced (place source)).value arg = .ok operand) ↔
      (∃ name value, arg = "$" ++ name ∧
        .constant name value ∈ source.map SourceStatement.statement) ∨
        (arg.toList.head? ≠ some '$' ∧ ∃ value, Literal.byte? arg = some value) := by
    simp only [Symbols.value_eq_ok_iff, constants_place_get?_eq_some_iff h]
    constructor
    · rintro ⟨_, value, _, ⟨name, harg, hmem⟩ | ⟨hhead, hbyte⟩⟩
      · exact Or.inl ⟨name, value, harg, hmem⟩
      · exact Or.inr ⟨hhead, value, hbyte⟩
    · rintro (⟨name, value, harg, hmem⟩ | ⟨hhead, value, hbyte⟩)
      · exact ⟨_, value, rfl, Or.inl ⟨name, harg, hmem⟩⟩
      · exact ⟨_, value, rfl, Or.inr ⟨hhead, hbyte⟩⟩
  cases op with
  | jmp =>
    simp only [Symbols.operand, Resolves, slotsBefore_eq_slotAt, Symbols.jump_eq_ok_iff,
      labels_place_get?_eq_some_iff h]
    constructor
    · rintro ⟨_, _, ⟨j, hj, rfl⟩, hle, _⟩
      exact ⟨j, hj, hle⟩
    · rintro ⟨j, hj, hle⟩
      exact ⟨_, _, ⟨j, hj, rfl⟩, hle, rfl⟩
  | run =>
    simp only [Symbols.operand, Resolves, slotsBefore_eq_slotAt, Symbols.call_eq_ok_iff,
      subroutines_place_get?_eq_some_iff h]
    constructor
    · rintro ⟨_, _, ⟨j, hj, rfl⟩, hle, hret, _⟩
      exact ⟨⟨j, hj, hle⟩, hret⟩
    · rintro ⟨⟨j, hj, hle⟩, hret⟩
      exact ⟨_, _, ⟨j, hj, rfl⟩, hle, hret, rfl⟩
  | _ => exact hvalue

theorem forall_exists_instruction_iff (h : DistinctNames (source.map SourceStatement.statement)) :
    (∀ p ∈ place source, ∃ instruction,
      p.instruction (Symbols.ofPlaced (place source)) = .ok instruction) ↔
      ∀ i op arg, (source.map SourceStatement.statement)[i]? = some (.operation op (some arg)) →
        Resolves (source.map SourceStatement.statement) i op arg := by
  simp only [Placed.exists_instruction_iff]
  constructor
  · intro hall i op arg hi
    rw [List.getElem?_map, Option.map_eq_some_iff] at hi
    obtain ⟨s, hi, hs⟩ := hi
    have hmem : ⟨s, slotAt (source.map SourceStatement.statement) i⟩ ∈ place source :=
      List.mem_iff_getElem?.2 ⟨i, getElem?_place.2 ⟨hi, rfl⟩⟩
    exact (exists_operand_iff h).1 (hall _ hmem op arg hs)
  · intro hres p hp op arg hs
    obtain ⟨i, hi⟩ := List.mem_iff_getElem?.1 hp
    obtain ⟨hsource, hstart⟩ := getElem?_place.1 hi
    rw [hstart]
    refine (exists_operand_iff h).2 (hres i op arg ?_)
    rw [List.getElem?_map, hsource, Option.map_some, hs]

/-- Statements that were read make a program when they are consistent and every operand leads
somewhere. -/
theorem exists_assembled_iff (hshaped : Shaped (source.map SourceStatement.statement)) :
    (∃ program, Assembled source program) ↔
      Consistent (source.map SourceStatement.statement) ∧
        ∀ i op arg, (source.map SourceStatement.statement)[i]? = some (.operation op (some arg)) →
          Resolves (source.map SourceStatement.statement) i op arg := by
  constructor
  · rintro ⟨program, -, hcons, hsymbols, hres⟩
    rw [hsymbols] at hres
    exact ⟨hcons,
      (forall_exists_instruction_iff hcons.toDistinctNames).1 (exists_map_eq_ok_iff.1 ⟨_, hres⟩)⟩
  · rintro ⟨hcons, hres⟩
    obtain ⟨instructions, hinst⟩ :=
      exists_map_eq_ok_iff.2 ((forall_exists_instruction_iff hcons.toDistinctNames).2 hres)
    exact ⟨⟨instructions, Symbols.ofPlaced (place source)⟩, hshaped, hcons, rfl, hinst⟩

end

/-- **Acceptance.** A source assembles exactly when every line has a valid form, no constant, label
or subroutine is defined twice, openings and closings pair up one after the other, and every
operand leads somewhere. -/
theorem assemble_isOk_iff (source : String) :
    (∃ program, assemble source = .ok program) ↔
      (∀ line ∈ lines source, ∃ statement?, line.statement? = .ok statement?) ∧
        Consistent (readings source) ∧
        ∀ i op arg, (readings source)[i]? = some (.operation op (some arg)) →
          Resolves (readings source) i op arg := by
  simp only [assemble_eq_ok_iff]
  constructor
  · rintro ⟨program, statements, hread, hprogram⟩
    rw [← map_statement_sourceStatements hread]
    exact ⟨(sourceStatements_eq_ok_iff.1 hread).1,
      (exists_assembled_iff hprogram.shaped).1 ⟨program, hprogram⟩⟩
  · rintro ⟨hlines, hrest⟩
    have hread := sourceStatements_eq_ok_iff.2 ⟨hlines, rfl⟩
    rw [← map_statement_sourceStatements hread] at hrest
    obtain ⟨program, hprogram⟩ := (exists_assembled_iff (shaped_sourceStatements hread)).2 hrest
    exact ⟨program, _, hread, hprogram⟩

end Breadboard
