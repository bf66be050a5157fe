import Breadboard.Proofs.References

/-!
# Tables and instructions

The tables of an assembled program say again what its instructions say. Each table is the list of
the defining instructions of its kind, with their names, lines and values
(`Assembled.map_row_filterMap`), and what holds of its names, its lines and its look-ups follows
from that list alone (`Program.Tabulates.of_rows`). That the slots of labels and subroutines rise,
and are never shared, is a fact about placing: a statement starts behind the slots of all statements
before it (`pairwise_placeFrom`).
-/

namespace Breadboard

variable {α : Type}

/-- A symbol as its table shows it. -/
def Symbol.row (symbol : Symbol α) : String × Nat × Option α :=
  (symbol.name, symbol.line, some symbol.value)

/-- What an instruction that defines a name adds to a table, where `name?` is the name that a
statement defines and `value?` is what the name stands for. -/
def Instruction.row? (name? : Statement → Option String) (value? : Instruction → Option α)
    (instruction : Instruction) : Option (String × Nat × Option α) :=
  (name? instruction.statement).map (·, instruction.line.number, value? instruction)

/-- The byte that a statement gives to a constant. -/
def Statement.constantValue? : Statement → Option UInt8
  | constant _ value => some value
  | _ => none

/-- A table lists the definitions of one kind in a program. -/
structure Program.Tabulates (program : Program) (name? : Statement → Option String)
    (value? : Instruction → Option α) (table : SymbolTable α) : Prop where
  /-- The symbols are the defining instructions in order, with name, line and value. -/
  rows_eq : table.symbols.map Symbol.row =
    program.instructions.filterMap (Instruction.row? name? value?)
  nodup_names : (table.symbols.map Symbol.name).Nodup
  pairwise_lines : (table.symbols.map Symbol.line).Pairwise (· < ·)
  /-- A look-up finds the value of the one instruction that defines the name. -/
  get?_eq_some_iff : ∀ name value, table.get? name = some value ↔
    ∃ j definition, program.Defines name? name j definition ∧ value? definition = some value
  get?_eq_none_iff : ∀ name, table.get? name = none ↔
    ∀ instruction ∈ program.instructions, name? instruction.statement ≠ some name

/-- A table whose names stand for slots of a program, each behind the one before it. -/
structure Program.Locates (program : Program) (table : SymbolTable Nat) : Prop where
  pairwise_values : (table.symbols.map Symbol.value).Pairwise (· < ·)
  value_lt : ∀ symbol ∈ table.symbols, symbol.value < program.slotCount

/-- The tables of a program mirror its instructions. -/
structure Program.Mirrored (program : Program) : Prop where
  constants : program.Tabulates Statement.constantName? (·.statement.constantValue?)
    program.symbols.constants
  labels : program.Tabulates Statement.labelName? Instruction.slot? program.symbols.labels
  subroutines : program.Tabulates Statement.openingName? Instruction.slot?
    program.symbols.subroutines
  labels_locates : program.Locates program.symbols.labels
  subroutines_locates : program.Locates program.symbols.subroutines
  /-- No label and subroutine share a slot. -/
  value_ne : ∀ label ∈ program.symbols.labels.symbols,
    ∀ subroutine ∈ program.symbols.subroutines.symbols, label.value ≠ subroutine.value

/-! ## What follows from the rows -/

section
variable {program : Program} {name? : Statement → Option String} {value? : Instruction → Option α}
  {table : SymbolTable α}

theorem Instruction.row?_eq_some_iff {instruction : Instruction} {name : String} {line : Nat}
    {shown? : Option α} :
    instruction.row? name? value? = some (name, line, shown?) ↔
      name? instruction.statement = some name ∧ instruction.line.number = line ∧
        value? instruction = shown? := by
  simp [Instruction.row?, Option.map_eq_some_iff]

theorem map_name_of_rows (hrows : table.symbols.map Symbol.row =
      program.instructions.filterMap (Instruction.row? name? value?)) :
    table.symbols.map Symbol.name = program.statements.filterMap name? := by
  calc table.symbols.map Symbol.name = (table.symbols.map Symbol.row).map Prod.fst := by
        rw [List.map_map]; rfl
    _ = program.statements.filterMap name? := by
        rw [hrows, List.map_filterMap, Program.statements, List.filterMap_map]
        congr 1
        funext instruction
        simp [Instruction.row?, Function.comp_def]

/-- A symbol of the table is an instruction that defines its name. -/
theorem exists_symbol_iff_of_rows (hrows : table.symbols.map Symbol.row =
      program.instructions.filterMap (Instruction.row? name? value?)) {name : String} {value : α} :
    (∃ symbol ∈ table.symbols, symbol.name = name ∧ symbol.value = value) ↔
      ∃ instruction ∈ program.instructions,
        name? instruction.statement = some name ∧ value? instruction = some value := by
  have hmem : ∀ line, (∃ symbol ∈ table.symbols, symbol.row = (name, line, some value)) ↔
      ∃ instruction ∈ program.instructions,
        instruction.row? name? value? = some (name, line, some value) := by
    intro line
    rw [← List.mem_map, hrows, List.mem_filterMap]
  simp only [Instruction.row?_eq_some_iff] at hmem
  constructor
  · rintro ⟨symbol, hsymbol, rfl, rfl⟩
    obtain ⟨instruction, hinst, hname, -, hvalue⟩ := (hmem symbol.line).1 ⟨symbol, hsymbol, rfl⟩
    exact ⟨instruction, hinst, hname, hvalue⟩
  · rintro ⟨instruction, hinst, hname, hvalue⟩
    obtain ⟨symbol, hsymbol, hrow⟩ := (hmem _).2 ⟨instruction, hinst, hname, rfl, hvalue⟩
    obtain ⟨rfl, -, hsome⟩ : symbol.name = name ∧ _ ∧ some symbol.value = some value := by
      simpa only [Symbol.row, Prod.mk.injEq] using hrow
    exact ⟨symbol, hsymbol, rfl, Option.some.inj hsome⟩

/-- Where names are distinct, some instruction defines a name exactly when one alone does. -/
theorem Program.exists_defines_iff (hnodup : (program.statements.filterMap name?).Nodup)
    {name : String} {P : Instruction → Prop} :
    (∃ instruction ∈ program.instructions, name? instruction.statement = some name ∧
        P instruction) ↔
      ∃ j definition, program.Defines name? name j definition ∧ P definition := by
  constructor
  · rintro ⟨instruction, hinst, hname, hP⟩
    obtain ⟨j, hj⟩ := List.mem_iff_getElem?.1 hinst
    obtain ⟨definition, hdefines, -⟩ := Program.exists_defines hnodup
      (Program.getElem?_statements_eq_some_iff.2 ⟨instruction, hj, rfl⟩) hname
    obtain rfl : instruction = definition :=
      Option.some.inj (hj.symm.trans hdefines.getElem?_eq)
    exact ⟨j, instruction, hdefines, hP⟩
  · rintro ⟨j, definition, hdefines, hP⟩
    exact ⟨definition, List.mem_of_getElem? hdefines.getElem?_eq, hdefines.name?_eq, hP⟩

/-- A table that has the right rows has all of its properties, where names are distinct and lines
rise. -/
theorem Program.Tabulates.of_rows
    (hrows : table.symbols.map Symbol.row =
      program.instructions.filterMap (Instruction.row? name? value?))
    (hnodup : (program.statements.filterMap name?).Nodup)
    (hlines : program.instructions.Pairwise fun a b => a.line.number < b.line.number) :
    program.Tabulates name? value? table := by
  have hnames := map_name_of_rows hrows
  constructor
  case rows_eq => exact hrows
  case nodup_names => rwa [hnames]
  case pairwise_lines =>
    have hline : table.symbols.map Symbol.line =
        (table.symbols.map Symbol.row).map fun row => row.2.1 := by
      rw [List.map_map]; rfl
    rw [hline, hrows, List.pairwise_map, List.pairwise_filterMap]
    refine hlines.imp ?_
    rintro a b hlt ⟨_, line, _⟩ ha ⟨_, other, _⟩ hb
    obtain ⟨-, rfl, -⟩ := Instruction.row?_eq_some_iff.1 ha
    obtain ⟨-, rfl, -⟩ := Instruction.row?_eq_some_iff.1 hb
    exact hlt
  case get?_eq_some_iff =>
    intro name value
    rw [SymbolTable.get?_eq_some_iff (by rwa [hnames]), exists_symbol_iff_of_rows hrows,
      Program.exists_defines_iff hnodup]
  case get?_eq_none_iff =>
    intro name
    rw [SymbolTable.get?_eq_none_iff, hnames]
    simp [Program.statements, List.mem_filterMap]

end

/-! ## The rows of an assembled program -/

theorem Placed.constant?_row (p : Placed) :
    p.constant?.map Symbol.row =
      p.statement.constantName?.map (·, p.line.number, p.statement.constantValue?) := by
  unfold Placed.constant? Statement.constantName? Statement.constantValue?
  cases p.statement <;> rfl

/-- Every statement that defines a name of this kind takes a slot. -/
def NamesSlot (name? : Statement → Option String) : Prop :=
  ∀ s name, name? s = some name → s.width ≠ 0

theorem namesSlot_labelName? : NamesSlot Statement.labelName? := by
  intro s name h
  rw [Statement.labelName?_eq_some_iff.1 h]
  exact Nat.one_ne_zero

theorem namesSlot_openingName? : NamesSlot Statement.openingName? := by
  intro s name h
  rw [Statement.openingName?_eq_some_iff.1 h]
  exact Nat.one_ne_zero

theorem Placed.slotSymbol?_row {name? : Statement → Option String} (hwidth : NamesSlot name?)
    (p : Placed) :
    (p.slotSymbol? name?).map Symbol.row =
      (name? p.statement).map (·, p.line.number, p.slot?) := by
  unfold Placed.slotSymbol?
  cases hname : name? p.statement with
  | none => rfl
  | some name => simp [Symbol.row, Placed.slot?, hwidth _ _ hname]

section
variable {source : List SourceStatement} {program : Program}

/-- The symbols of the placed statements are the rows of the instructions that come of them. -/
theorem Assembled.map_row_filterMap (h : Assembled source program)
    {symbol? : Placed → Option (Symbol α)} {name? : Statement → Option String}
    {value? : Instruction → Option α}
    (hrow : ∀ p instruction, p.instruction program.symbols = .ok instruction →
      (symbol? p).map Symbol.row = instruction.row? name? value?) :
    ((place source).filterMap symbol?).map Symbol.row =
      program.instructions.filterMap (Instruction.row? name? value?) := by
  -- the two lists of rows agree before the statements that define nothing are left out
  have hmap := map_eq_of_map_eq_ok (fun p instruction hp => (hrow p instruction hp).symm) h.resolved
  have hjoin := congrArg (List.filterMap id) hmap
  rw [List.filterMap_map, List.filterMap_map] at hjoin
  rw [List.map_filterMap]
  exact hjoin.symm

theorem Assembled.constant_rows (h : Assembled source program) :
    program.symbols.constants.symbols.map Symbol.row =
      program.instructions.filterMap
        (Instruction.row? Statement.constantName? (·.statement.constantValue?)) := by
  rw [h.symbols_eq]
  refine h.map_row_filterMap ?_
  intro p instruction hp
  obtain ⟨-, hsource, -⟩ := Placed.instruction_eq_ok_iff.1 hp
  rw [p.constant?_row, Instruction.row?, hsource]

theorem Assembled.slot_rows (h : Assembled source program) {name? : Statement → Option String}
    (hwidth : NamesSlot name?) :
    ((place source).filterMap (Placed.slotSymbol? name?)).map Symbol.row =
      program.instructions.filterMap (Instruction.row? name? Instruction.slot?) := by
  refine h.map_row_filterMap ?_
  intro p instruction hp
  obtain ⟨-, hsource, hslot⟩ := Placed.instruction_eq_ok_iff.1 hp
  rw [p.slotSymbol?_row hwidth, Instruction.row?, hsource, hslot]

theorem Assembled.pairwise_number (h : Assembled source program)
    (hlines : source.Pairwise fun s t => s.line.number < t.line.number) :
    program.instructions.Pairwise fun a b => a.line.number < b.line.number := by
  rw [← h.source_eq, List.pairwise_map] at hlines
  exact hlines

/-! ## The slots of names -/

/-- Placed statements that start at the same slot and both take one are the same. -/
theorem eq_of_start_eq {p q : Placed} (hp : p ∈ place source) (hq : q ∈ place source)
    (hpwidth : p.statement.width ≠ 0) (hqwidth : q.statement.width ≠ 0)
    (hstart : p.start = q.start) : p = q := by
  obtain ⟨i, hi, rfl⟩ := List.mem_iff_getElem.1 hp
  obtain ⟨j, hj, rfl⟩ := List.mem_iff_getElem.1 hq
  -- of two that take a slot, the one further down starts behind the other
  have hbehind := List.pairwise_iff_getElem.1 (pairwise_placeFrom 0 source)
  rcases Nat.lt_trichotomy i j with hlt | rfl | hgt
  · have hij := hbehind i j hi hj hlt
    unfold place at hpwidth hstart
    omega
  · rfl
  · have hji := hbehind j i hj hi hgt
    unfold place at hqwidth hstart
    omega

theorem Assembled.locates_slotSymbols (h : Assembled source program)
    {name? : Statement → Option String} (hwidth : NamesSlot name?) {kind : String} :
    program.Locates ⟨kind, (place source).filterMap (Placed.slotSymbol? name?)⟩ := by
  constructor
  case pairwise_values =>
    rw [List.pairwise_map, List.pairwise_filterMap]
    refine (pairwise_placeFrom 0 source).imp ?_
    intro p q hbehind a ha b hb
    obtain ⟨name, hname, rfl⟩ := Option.map_eq_some_iff.1 ha
    obtain ⟨other, -, rfl⟩ := Option.map_eq_some_iff.1 hb
    have hp := hwidth _ _ hname
    dsimp only
    omega
  case value_lt =>
    intro symbol hsymbol
    obtain ⟨p, hp, hsome⟩ := List.mem_filterMap.1 hsymbol
    obtain ⟨name, hname, rfl⟩ := Option.map_eq_some_iff.1 hsome
    have hpwidth := hwidth _ _ hname
    have hend := (bounds_of_mem_placeFrom hp).2
    rw [Assembled.slotCount_eq, h.statements_eq]
    dsimp only
    omega

/-- A label and a subroutine start at different slots. -/
theorem label_value_ne_opening_value {label opening : Symbol Nat}
    (hlabel : label ∈ (place source).filterMap Placed.label?)
    (hopening : opening ∈ (place source).filterMap Placed.opening?) :
    label.value ≠ opening.value := by
  intro hvalue
  obtain ⟨p, hp, hpsome⟩ := List.mem_filterMap.1 hlabel
  obtain ⟨q, hq, hqsome⟩ := List.mem_filterMap.1 hopening
  obtain ⟨name, hname, rfl⟩ := Option.map_eq_some_iff.1 hpsome
  obtain ⟨other, hother, rfl⟩ := Option.map_eq_some_iff.1 hqsome
  obtain rfl := eq_of_start_eq hp hq (namesSlot_labelName? _ _ hname)
    (namesSlot_openingName? _ _ hother) hvalue
  rw [Statement.labelName?_eq_some_iff.1 hname] at hother
  cases hother

end

/-- **The tables mirror the program**: they list its definitions, and nothing else, in the order,
with the lines and with the values that the instructions have. -/
theorem mirrored_of_assemble {source : String} {program : Program}
    (h : assemble source = .ok program) : program.Mirrored := by
  obtain ⟨statements, hread, hprogram⟩ := assemble_eq_ok_iff.1 h
  have hlines := hprogram.pairwise_number (pairwise_number_sourceStatements hread)
  have hnames := hprogram.consistent_statements.toDistinctNames
  have hlabels : program.symbols.labels =
      ⟨"label", (place statements).filterMap Placed.label?⟩ := by rw [hprogram.symbols_eq]; rfl
  have hsubroutines : program.symbols.subroutines =
      ⟨"subroutine", (place statements).filterMap Placed.opening?⟩ := by
    rw [hprogram.symbols_eq]; rfl
  constructor
  case constants => exact .of_rows hprogram.constant_rows hnames.constants hlines
  case labels =>
    rw [hlabels]
    exact .of_rows (hprogram.slot_rows namesSlot_labelName?) hnames.labels hlines
  case subroutines =>
    rw [hsubroutines]
    exact .of_rows (hprogram.slot_rows namesSlot_openingName?) hnames.openings hlines
  case labels_locates =>
    rw [hlabels]
    exact hprogram.locates_slotSymbols namesSlot_labelName?
  case subroutines_locates =>
    rw [hsubroutines]
    exact hprogram.locates_slotSymbols namesSlot_openingName?
  case value_ne =>
    rw [hlabels, hsubroutines]
    exact fun label hmem subroutine hmem' => label_value_ne_opening_value hmem hmem'

/-- One name of all three kinds, with blank lines between the definitions. -/
theorem mirrored_shared_name :
    ∃ program, assemble "$x 7\n\nx\x7b\n  LDAV $x\n\x7d\n# body\n\nx\n  RUN x\ny\n" = .ok program ∧
      program.symbols = {
        constants := ⟨"constant", [⟨"x", 1, 7⟩]⟩
        labels := ⟨"label", [⟨"x", 8, 3⟩, ⟨"y", 10, 6⟩]⟩
        subroutines := ⟨"subroutine", [⟨"x", 3, 0⟩]⟩ } ∧
      program.Mirrored := by
  have hok : (assemble "$x 7\n\nx\x7b\n  LDAV $x\n\x7d\n# body\n\nx\n  RUN x\ny\n").map
      Program.symbols = .ok {
        constants := ⟨"constant", [⟨"x", 1, 7⟩]⟩
        labels := ⟨"label", [⟨"x", 8, 3⟩, ⟨"y", 10, 6⟩]⟩
        subroutines := ⟨"subroutine", [⟨"x", 3, 0⟩]⟩ } := by
    decide +kernel
  obtain ⟨program, hprogram, hsymbols⟩ := map_eq_ok_iff.1 hok
  exact ⟨program, hprogram, hsymbols, mirrored_of_assemble hprogram⟩

end Breadboard
