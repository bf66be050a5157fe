import Breadboard.Proofs.Emission
import Breadboard.Proofs.Spelling

/-!
# Desugaring

Constants, subroutines and calls are sugar: every program has a plain source of labels and
operations with the same image. `Program.plainSource` writes it from the instructions of the
program. A line that needs no other name than that of a label is kept; for every other instruction
the slots that are written for it are spelled out as operations.

The plain source is followed through the passes. Its lines say the plain statements
(`Instruction.Rewritten.forall₂_reads`). Every plain statement takes one slot, so an instruction
takes as many as before and no label moves (`labelSlots_flatMap`). With the labels in place the kept
operands resolve as before, and the operands that were spelled out are literals
(`Assembled.forall₂_emits`).
-/

namespace Breadboard

/-! ## The plain source -/

/-- Whether an operand is the name of a constant. -/
def namesConstant (arg : String) : Bool :=
  arg.toList.head? == some '$'

/-- The lines of a plain source for an instruction. -/
def Instruction.plainLines (instruction : Instruction) : List String :=
  match instruction.statement with
  | .constant .. => []
  | .label _ => [instruction.line.text]
  | .opening _ => [operationLine .nop none]
  | .closing => [operationLine .popp none]
  | .operation op arg? =>
    match instruction.operand? with
    | some (.call ret entry) =>
      [operationLine .pshv (some (hexLiteral ret)), operationLine .jmpv (some (hexLiteral entry))]
    | some (.byte value) =>
      if op ≠ .jmp ∧ arg?.any namesConstant then [operationLine op (some (hexLiteral value))]
      else [instruction.line.text]
    | none => [instruction.line.text]

/-- A source of labels and operations alone that stands for a program. -/
def Program.plainSource (program : Program) : String :=
  unlines (program.instructions.flatMap Instruction.plainLines)

/-- A program without constants, subroutines and calls. -/
structure Program.IsPlain (program : Program) : Prop where
  constantName? : ∀ s ∈ program.statements, s.constantName? = none
  isMark : ∀ s ∈ program.statements, s.isMark = false
  ne_call : ∀ s ∈ program.statements, ∀ arg?, s ≠ .operation .run arg?

/-! ## Plain statements -/

/-- Whether the line of a statement is kept: it needs no other name than that of a label. -/
def Statement.isPlain : Statement → Bool
  | .label _ => true
  | .operation op arg? => op != .run && (op == .jmp || !arg?.any namesConstant)
  | _ => false

namespace Slot

/-- The operand of a slot as source text. -/
def arg? (slot : Slot) : Option String :=
  if slot.opcode.hasOperand then some (hexLiteral slot.operand) else none

/-- The operation that a slot is spelled out as. -/
def statement (slot : Slot) : Statement :=
  .operation slot.opcode slot.arg?

/-- A slot that is written for the operation that it is spelled out as. -/
structure IsDirect (slot : Slot) : Prop where
  ne_jmp : slot.opcode ≠ .jmp
  ne_run : slot.opcode ≠ .run
  operand : slot.opcode.hasOperand = false → slot.operand = 0

theorem isSome_arg? (slot : Slot) : slot.arg?.isSome = slot.opcode.hasOperand := by
  unfold arg?
  split <;> simp [*]

theorem any_namesConstant_arg? (slot : Slot) : slot.arg?.any namesConstant = false := by
  unfold arg?
  split
  · simp [namesConstant, toList_hexLiteral]
  · rfl

theorem says_statement (slot : Slot) :
    Says (operationLine slot.opcode slot.arg?) slot.statement := by
  apply says_operationLine slot.isSome_arg?
  intro arg harg
  unfold arg? at harg
  split at harg
  · cases harg
    exact isWord_hexLiteral slot.operand
  · cases harg

theorem IsDirect.isPlain_statement {slot : Slot} (h : slot.IsDirect) :
    slot.statement.isPlain = true := by
  simp [statement, Statement.isPlain, h.ne_run, any_namesConstant_arg?]

end Slot

/-- What the lines of a plain source for an instruction say. -/
def Instruction.plainStatements (instruction : Instruction) : List Statement :=
  if instruction.statement.isPlain then [instruction.statement]
  else instruction.slots.map Slot.statement

namespace Instruction

variable {instruction : Instruction}

theorem plainStatements_of_isPlain (h : instruction.statement.isPlain = true) :
    instruction.plainStatements = [instruction.statement] :=
  if_pos h

theorem plainStatements_of_not_isPlain (h : instruction.statement.isPlain = false) :
    instruction.plainStatements = instruction.slots.map Slot.statement := by
  simp [plainStatements, h]

end Instruction

namespace Statement

theorem constantName?_of_isPlain {s : Statement} (h : s.isPlain = true) :
    s.constantName? = none := by
  cases s with
  | constant name value => cases h
  | _ => rfl

theorem isMark_of_isPlain {s : Statement} (h : s.isPlain = true) : s.isMark = false := by
  cases s with
  | opening name => cases h
  | closing => cases h
  | _ => rfl

theorem ne_call_of_isPlain {s : Statement} (h : s.isPlain = true) (arg? : Option String) :
    s ≠ .operation .run arg? := by
  rintro rfl
  simp [isPlain] at h

theorem width_of_isPlain {s : Statement} (h : s.isPlain = true) : s.width = 1 := by
  cases s with
  | operation op arg? =>
    have hrun : op ≠ .run := fun hrun => ne_call_of_isPlain h arg? (by rw [hrun])
    rw [width_operation, if_neg hrun]
  | label name => rfl
  | _ => cases h

theorem labelName?_of_not_isPlain {s : Statement} (h : s.isPlain = false) :
    s.labelName? = none := by
  cases s with
  | label name => cases h
  | _ => rfl

end Statement

theorem extent_of_isPlain {statements : List Statement}
    (h : ∀ s ∈ statements, s.isPlain = true) : extent statements = statements.length := by
  induction statements with
  | nil => rfl
  | cons s rest ih =>
    obtain ⟨hs, hrest⟩ := List.forall_mem_cons.1 h
    rw [extent_cons, Statement.width_of_isPlain hs, ih hrest, List.length_cons, Nat.add_comm]

/-- The two ways in which an instruction goes into a plain source. -/
inductive Instruction.Rewritten (instruction : Instruction) : Prop where
  /-- Its line is kept. -/
  | kept (plain : instruction.statement.isPlain = true)
    (lines_eq : instruction.plainLines = [instruction.line.text])
  /-- Its slots are spelled out. -/
  | spelled (plain : instruction.statement.isPlain = false)
    (lines_eq : instruction.plainLines =
      instruction.slots.map fun slot => operationLine slot.opcode slot.arg?)
    (direct : ∀ slot ∈ instruction.slots, slot.IsDirect)

theorem Instruction.rewritten_of_byte {instruction : Instruction} {op : Opcode}
    {arg? : Option String} {value : UInt8} (hs : instruction.statement = .operation op arg?)
    (hoperand : instruction.operand? = some (.byte value)) (hrun : op ≠ .run)
    (hneeds : op.hasOperand = true) : instruction.Rewritten := by
  by_cases hnames : op ≠ .jmp ∧ arg?.any namesConstant
  · have hdirect : (⟨op, value⟩ : Slot).IsDirect :=
      ⟨hnames.1, hrun, fun hnot => absurd hneeds (by simp [hnot])⟩
    apply Rewritten.spelled
    · simp [hs, Statement.isPlain, hnames]
    · simp [plainLines, slots, hs, hoperand, hnames, Slot.arg?, hneeds]
    · simpa [slots, hs, hoperand] using hdirect
  · have hplain : (Statement.operation op arg?).isPlain = true := by
      by_cases hjmp : op = .jmp
      · simp [Statement.isPlain, hjmp]
      · have hno : arg?.any namesConstant = false := by simpa [hjmp] using hnames
        simp [Statement.isPlain, hrun, hno]
    apply Rewritten.kept
    · rw [hs, hplain]
    · simp [plainLines, hs, hoperand, hnames]

theorem Assembled.rewritten {source : List SourceStatement} {program : Program}
    {instruction : Instruction} (h : Assembled source program)
    (hmem : instruction ∈ program.instructions) : instruction.Rewritten := by
  cases hs : instruction.statement with
  | constant name value =>
    apply Instruction.Rewritten.spelled <;>
      simp [Instruction.plainLines, Instruction.slots, hs, Statement.isPlain]
  | label name =>
    apply Instruction.Rewritten.kept <;> simp [Instruction.plainLines, hs, Statement.isPlain]
  | opening name =>
    have hdirect : (⟨.nop, 0⟩ : Slot).IsDirect := by constructor <;> simp
    apply Instruction.Rewritten.spelled <;>
      simp [Instruction.plainLines, Instruction.slots, hs, Statement.isPlain, Slot.arg?,
        Opcode.hasOperand, hdirect]
  | closing =>
    have hdirect : (⟨.popp, 0⟩ : Slot).IsDirect := by constructor <;> simp
    apply Instruction.Rewritten.spelled <;>
      simp [Instruction.plainLines, Instruction.slots, hs, Statement.isPlain, Slot.arg?,
        Opcode.hasOperand, hdirect]
  | operation op arg? =>
    obtain ⟨hsome, hcall⟩ := h.operand_shape hmem hs
    have hneeds : arg?.isSome = op.hasOperand :=
      h.shaped_statements op arg? (hs ▸ List.mem_map.2 ⟨instruction, hmem, rfl⟩)
    rcases hoperand : instruction.operand? with _ | ⟨value⟩ | ⟨ret, entry⟩
    · -- an operation without operand is no call and uses no name
      rw [hoperand] at hsome
      have hrun : op ≠ .run := by
        rintro rfl
        cases hsome
      have hnone : arg? = none := by
        rw [← Option.isNone_iff_eq_none, ← Option.not_isSome, hneeds, ← hsome]
        rfl
      apply Instruction.Rewritten.kept
      · simp [hs, Statement.isPlain, hrun, hnone]
      · simp [Instruction.plainLines, hs, hoperand]
    · have hrun : op ≠ .run := by
        intro hrun
        obtain ⟨ret, entry, hbyte⟩ := (hcall _ hoperand).2 hrun
        cases hbyte
      exact Instruction.rewritten_of_byte hs hoperand hrun (by rw [← hsome, hoperand]; rfl)
    · obtain rfl := (hcall _ hoperand).1 ⟨ret, entry, rfl⟩
      have hpush : (⟨.pshv, ret⟩ : Slot).IsDirect := by
        constructor <;> simp [Opcode.hasOperand]
      have hjump : (⟨.jmpv, entry⟩ : Slot).IsDirect := by
        constructor <;> simp [Opcode.hasOperand]
      apply Instruction.Rewritten.spelled <;>
        simp [Instruction.plainLines, Instruction.slots, hs, hoperand, Statement.isPlain, Slot.arg?,
          Opcode.hasOperand, hpush, hjump]

namespace Instruction.Rewritten

variable {instruction : Instruction}

theorem isPlain_plainStatements (h : instruction.Rewritten) :
    ∀ s ∈ instruction.plainStatements, s.isPlain = true := by
  intro s hs
  cases h with
  | kept hplain _ =>
    rw [plainStatements_of_isPlain hplain, List.mem_singleton] at hs
    rw [hs, hplain]
  | spelled hplain _ hdirect =>
    rw [plainStatements_of_not_isPlain hplain] at hs
    obtain ⟨slot, hslot, rfl⟩ := List.mem_map.1 hs
    exact (hdirect slot hslot).isPlain_statement

/-- The lines of a plain source say the plain statements. -/
theorem forall₂_reads (h : instruction.Rewritten)
    (hline : Says instruction.line.text instruction.statement) :
    List.Forall₂ Says instruction.plainLines instruction.plainStatements := by
  cases h with
  | kept hplain hlines =>
    rw [hlines, plainStatements_of_isPlain hplain]
    exact List.Forall₂.cons hline List.Forall₂.nil
  | spelled hplain hlines _ =>
    rw [hlines, plainStatements_of_not_isPlain hplain, List.forall₂_map_left_iff,
      List.forall₂_map_right_iff, List.forall₂_same]
    exact fun slot _ => slot.says_statement

end Instruction.Rewritten

/-! ## Labels keep their slots -/

/-- The labels of statements that start at slot `start`, with their slots. -/
def labelSlots (start : Nat) : List Statement → List (String × Nat)
  | [] => []
  | s :: rest => (s.labelName?.map (·, start)).toList ++ labelSlots (start + s.width) rest

theorem labelSlots_append (start : Nat) (a b : List Statement) :
    labelSlots start (a ++ b) = labelSlots start a ++ labelSlots (start + extent a) b := by
  induction a generalizing start with
  | nil => rfl
  | cons s rest ih => simp [labelSlots, ih, Nat.add_assoc]

theorem labelSlots_eq_nil {start : Nat} {statements : List Statement}
    (h : ∀ s ∈ statements, s.labelName? = none) : labelSlots start statements = [] := by
  induction statements generalizing start with
  | nil => rfl
  | cons s rest ih =>
    obtain ⟨hs, hrest⟩ := List.forall_mem_cons.1 h
    simp [labelSlots, hs, ih hrest]

/-- Slot numbers of labels depend on the statements alone. -/
theorem bindings_labels_placeFrom (start : Nat) (source : List SourceStatement) :
    (Symbols.ofPlaced (placeFrom start source)).labels.bindings =
      labelSlots start (source.map SourceStatement.statement) := by
  simp only [Symbols.ofPlaced, SymbolTable.bindings]
  induction source generalizing start with
  | nil => rfl
  | cons s rest ih =>
    rw [placeFrom_cons, List.map_cons, labelSlots, ← ih]
    cases hname : s.statement.labelName? with
    | none => simp [Placed.label?, Placed.slotSymbol?, hname]
    | some name => simp [Placed.label?, Placed.slotSymbol?, hname]

namespace Assembled

variable {source : List SourceStatement} {program : Program} {instruction : Instruction}

theorem length_plainStatements (h : Assembled source program)
    (hmem : instruction ∈ program.instructions) :
    instruction.plainStatements.length = instruction.slots.length := by
  unfold Instruction.plainStatements
  split
  · rename_i hplain
    rw [h.length_slots hmem, Instruction.width, Statement.width_of_isPlain hplain,
      List.length_singleton]
  · rw [List.length_map]

/-- The plain statements of an instruction take its slots. -/
theorem extent_plainStatements (h : Assembled source program)
    (hmem : instruction ∈ program.instructions) :
    extent instruction.plainStatements = instruction.statement.width := by
  rw [extent_of_isPlain (h.rewritten hmem).isPlain_plainStatements, h.length_plainStatements hmem,
    h.length_slots hmem, Instruction.width]

end Assembled

theorem Instruction.Rewritten.labelSlots_eq {instruction : Instruction}
    (h : instruction.Rewritten) (start : Nat) :
    labelSlots start instruction.plainStatements = labelSlots start [instruction.statement] := by
  cases h with
  | kept hplain _ => rw [plainStatements_of_isPlain hplain]
  | spelled hplain _ _ =>
    have hslots : ∀ s ∈ instruction.slots.map Slot.statement, s.labelName? = none := by
      intro s hs
      obtain ⟨slot, -, rfl⟩ := List.mem_map.1 hs
      rfl
    rw [plainStatements_of_not_isPlain hplain, labelSlots_eq_nil hslots, labelSlots_eq_nil]
    simpa using Statement.labelName?_of_not_isPlain hplain

/-- Where every instruction takes its own slots, no label moves. -/
theorem labelSlots_flatMap {instructions : List Instruction}
    (h : ∀ instruction ∈ instructions, instruction.Rewritten ∧
      extent instruction.plainStatements = instruction.statement.width) (start : Nat) :
    labelSlots start (instructions.flatMap Instruction.plainStatements) =
      labelSlots start (instructions.map fun instruction => instruction.statement) := by
  induction instructions generalizing start with
  | nil => rfl
  | cons first rest ih =>
    obtain ⟨⟨hfirst, hextent⟩, hrest⟩ := List.forall_mem_cons.1 h
    rw [List.flatMap_cons, labelSlots_append, hfirst.labelSlots_eq, hextent, ih hrest,
      List.map_cons]
    simp [labelSlots]

/-! ## Operands resolve as before -/

/-- With these symbols, a statement is written as one slot wherever it stands. -/
def Emits (symbols : Symbols) (s : Statement) (slot : Slot) : Prop :=
  ∀ p : Placed, p.statement = s →
    ∃ instruction, p.instruction symbols = .ok instruction ∧ instruction.slots = [slot]

theorem Symbols.operand_eq_value {symbols : Symbols} {op : Opcode} {start : Nat} {arg : String}
    (hjmp : op ≠ .jmp) (hrun : op ≠ .run) : symbols.operand op start arg = symbols.value arg := by
  cases op with
  | jmp => exact absurd rfl hjmp
  | run => exact absurd rfl hrun
  | _ => rfl

theorem emits_of_operand? {symbols : Symbols} {s : Statement} {slot : Slot}
    (operand? : Option Operand) (hoperand : ∀ p : Placed, p.statement = s →
      p.operand? symbols = .ok operand?)
    (hslots : ∀ instruction : Instruction, instruction.statement = s →
      instruction.operand? = operand? → instruction.slots = [slot]) :
    Emits symbols s slot := by
  intro p hp
  let instruction : Instruction := ⟨p.toSourceStatement, p.slot?, operand?⟩
  refine ⟨instruction, Placed.instruction_eq_ok_iff.2 ⟨hoperand p hp, rfl, rfl⟩, ?_⟩
  exact hslots instruction hp rfl

/-- An operation that was spelled out is written as its slot. -/
theorem Slot.IsDirect.emits {slot : Slot} (h : slot.IsDirect) (symbols : Symbols) :
    Emits symbols slot.statement slot := by
  obtain ⟨op, value⟩ := slot
  simp only [Slot.statement, Slot.arg?]
  split
  · have hvalue : symbols.value (hexLiteral value) = .ok (.byte value) := by
      rw [Symbols.value_of_head?_ne (by simp [toList_hexLiteral]), byte?_hexLiteral]
      rfl
    apply emits_of_operand? (some (.byte value))
    · intro p hp
      rw [Placed.operand?_of_operation hp, Symbols.operand_eq_value h.ne_jmp h.ne_run, hvalue]
      rfl
    · intro instruction hs hoperand
      simp [Instruction.slots, hs, hoperand]
  · rename_i hneeds
    apply emits_of_operand? none
    · intro p hp
      exact Placed.operand?_of_ne (by simp [hp])
    · intro instruction hs hoperand
      have hzero : value = 0 := h.operand (by simpa using hneeds)
      simp [Instruction.slots, hs, hoperand, hzero]

section
variable {symbols other : Symbols}
  (hlabels : ∀ name, other.labels.get? name = symbols.labels.get? name)

include hlabels

/-- The operand of a plain operation depends on the labels alone. -/
theorem Symbols.operand_eq_of_isPlain {op : Opcode} {arg : String}
    (h : (Statement.operation op (some arg)).isPlain = true) (start start' : Nat) :
    other.operand op start' arg = symbols.operand op start arg := by
  have hrun : op ≠ .run := fun hrun => Statement.ne_call_of_isPlain h (some arg) (by rw [hrun])
  by_cases hjmp : op = .jmp
  · subst hjmp
    simp only [operand, jump, hlabels]
  · have hliteral : arg.toList.head? ≠ some '$' := by
      simpa [Statement.isPlain, hrun, hjmp, namesConstant] using h
    rw [operand_eq_value hjmp hrun, operand_eq_value hjmp hrun, value_of_head?_ne hliteral,
      value_of_head?_ne hliteral]

theorem Placed.operand?_eq_of_isPlain {p p' : Placed} (hs : p'.statement = p.statement)
    (h : p.statement.isPlain = true) : p'.operand? other = p.operand? symbols := by
  by_cases hop : ∃ op arg, p.statement = .operation op (some arg)
  · obtain ⟨op, arg, hop⟩ := hop
    rw [operand?_of_operation hop, operand?_of_operation (hs.trans hop),
      Symbols.operand_eq_of_isPlain hlabels (hop ▸ h) p.start]
  · have hne : ∀ op arg, p.statement ≠ .operation op (some arg) :=
      fun op arg heq => hop ⟨op, arg, heq⟩
    rw [operand?_of_ne hne, operand?_of_ne (hs ▸ hne)]

end

/-- The plain statements of an instruction are written as its slots. -/
theorem Assembled.forall₂_emits {source : List SourceStatement} {program : Program}
    {instruction : Instruction} {other : Symbols} (h : Assembled source program)
    (hlabels : ∀ name, other.labels.get? name = program.symbols.labels.get? name)
    (hmem : instruction ∈ program.instructions) :
    List.Forall₂ (Emits other) instruction.plainStatements instruction.slots := by
  cases h.rewritten hmem with
  | kept hplain _ =>
    obtain ⟨i, hi⟩ := List.mem_iff_getElem?.1 hmem
    obtain ⟨p, -, hp⟩ := h.instruction_eq_ok hi
    obtain ⟨hoperand, hsource, -⟩ := Placed.instruction_eq_ok_iff.1 hp
    have hlen := h.length_slots hmem
    rw [Instruction.width, Statement.width_of_isPlain hplain] at hlen
    obtain ⟨slot, hslot⟩ := List.length_eq_one_iff.1 hlen
    have hstatement : instruction.statement = p.statement := by rw [hsource]
    rw [Instruction.plainStatements_of_isPlain hplain, hslot]
    refine List.Forall₂.cons (emits_of_operand? instruction.operand? ?_ ?_) List.Forall₂.nil
    · intro p' hp'
      rw [← hoperand]
      exact Placed.operand?_eq_of_isPlain hlabels (hp'.trans hstatement) (hstatement ▸ hplain)
    · intro copy hs hcopy
      rw [← hslot]
      unfold Instruction.slots
      rw [hs, hcopy]
  | spelled hplain _ hdirect =>
    rw [Instruction.plainStatements_of_not_isPlain hplain, List.forall₂_map_left_iff,
      List.forall₂_same]
    exact fun slot hslot => (hdirect slot hslot).emits other

/-- Placed statements that are written as slots become instructions with these slots. -/
theorem exists_instructions_of_emits {symbols : Symbols} {placed : List Placed} {slots : List Slot}
    (h : List.Forall₂ (Emits symbols) (statementsOf placed) slots) :
    ∃ instructions : List Instruction,
      placed.map (Placed.instruction symbols) = instructions.map Except.ok ∧
      instructions.flatMap Instruction.slots = slots := by
  induction placed generalizing slots with
  | nil =>
    cases h
    exact ⟨[], rfl, rfl⟩
  | cons p rest ih =>
    obtain ⟨slot, more, hslot, hmore, rfl⟩ := List.forall₂_cons_left_iff.1 h
    obtain ⟨first, hfirst, hslots⟩ := hslot p rfl
    obtain ⟨instructions, hrest, hflat⟩ := ih hmore
    refine ⟨first :: instructions, ?_, ?_⟩
    · rw [List.map_cons, List.map_cons, hfirst, hrest]
    · rw [List.flatMap_cons, hslots, hflat]
      rfl

/-- Consistent statements that are each written as a slot make a program of these slots. -/
theorem exists_assembled_of_emits {source : List SourceStatement} {slots : List Slot}
    (hshaped : Shaped (source.map SourceStatement.statement))
    (hcons : Consistent (source.map SourceStatement.statement))
    (h : List.Forall₂ (Emits (Symbols.ofPlaced (place source)))
      (source.map SourceStatement.statement) slots) :
    ∃ program, Assembled source program ∧ program.slots = slots := by
  rw [← statementsOf_place] at h
  obtain ⟨instructions, hresolved, hslots⟩ := exists_instructions_of_emits h
  exact ⟨⟨instructions, _⟩, ⟨hshaped, hcons, rfl, hresolved⟩, hslots⟩

/-! ## The plain program -/

theorem forall₂_flatMap {α β γ : Type} {R : β → γ → Prop} {f : α → List β} {g : α → List γ}
    {xs : List α} (h : ∀ x ∈ xs, List.Forall₂ R (f x) (g x)) :
    List.Forall₂ R (xs.flatMap f) (xs.flatMap g) := by
  induction xs with
  | nil => exact List.Forall₂.nil
  | cons x rest ih =>
    obtain ⟨hx, hrest⟩ := List.forall_mem_cons.1 h
    exact List.rel_append hx (ih hrest)

theorem consistent_of_isPlain {statements : List Statement}
    (h : ∀ s ∈ statements, s.isPlain = true) (hlabels : (labelNames statements).Nodup) :
    Consistent statements := by
  have hconstants : constantNames statements = [] :=
    List.filterMap_eq_nil_iff.2 fun s hs => Statement.constantName?_of_isPlain (h s hs)
  have hmarks : marks statements = [] :=
    List.filter_eq_nil_iff.2 fun s hs => by simp [Statement.isMark_of_isPlain (h s hs)]
  have hopenings : openingNames statements = [] := by
    refine List.filterMap_eq_nil_iff.2 fun s hs => ?_
    cases s with
    | opening name => exact absurd (h _ hs) (by simp [Statement.isPlain])
    | _ => rfl
  refine ⟨⟨?_, hlabels, ?_⟩, ?_⟩
  · simp [hconstants]
  · simp [hopenings]
  · simp [hopenings, hmarks, bodies]

theorem map_fst_bindings_labels (source : List SourceStatement) :
    (Symbols.ofPlaced (place source)).labels.bindings.map Prod.fst =
      labelNames (source.map SourceStatement.statement) := by
  have hnames := names_filterMap (Placed.slotSymbol?_name Statement.labelName?) (place source)
  rw [statementsOf_place] at hnames
  rw [SymbolTable.bindings, List.map_map]
  exact hnames

theorem Assembled.forall_isPlain {source : List SourceStatement} {program : Program}
    (h : Assembled source program) :
    ∀ s ∈ program.instructions.flatMap Instruction.plainStatements, s.isPlain = true := by
  intro s hs
  obtain ⟨instruction, hmem, hs⟩ := List.mem_flatMap.1 hs
  exact (h.rewritten hmem).isPlain_plainStatements s hs

theorem Program.isPlain_of_forall {program : Program}
    (h : ∀ s ∈ program.statements, s.isPlain = true) : program.IsPlain := by
  constructor
  case constantName? => exact fun s hs => Statement.constantName?_of_isPlain (h s hs)
  case isMark => exact fun s hs => Statement.isMark_of_isPlain (h s hs)
  case ne_call => exact fun s hs => Statement.ne_call_of_isPlain (h s hs)

/-- The statements of a plain source make a program of the same slots and the same labels. -/
theorem Assembled.exists_plain {source plain : List SourceStatement} {program : Program}
    (h : Assembled source program)
    (hplain : plain.map SourceStatement.statement =
      program.instructions.flatMap Instruction.plainStatements)
    (hshaped : Shaped (plain.map SourceStatement.statement)) :
    ∃ q, Assembled plain q ∧ q.slots = program.slots ∧
      q.symbols.labels.bindings = program.symbols.labels.bindings := by
  have hall : ∀ s ∈ plain.map SourceStatement.statement, s.isPlain = true := by
    rw [hplain]
    exact h.forall_isPlain
  have hbindings : (Symbols.ofPlaced (place plain)).labels.bindings =
      (Symbols.ofPlaced (place source)).labels.bindings := by
    rw [place, place, bindings_labels_placeFrom, bindings_labels_placeFrom, hplain,
      ← h.statements_eq]
    exact labelSlots_flatMap
      (fun instruction hmem => ⟨h.rewritten hmem, h.extent_plainStatements hmem⟩) 0
  have hnodup : (labelNames (plain.map SourceStatement.statement)).Nodup := by
    rw [← map_fst_bindings_labels, hbindings, map_fst_bindings_labels]
    exact h.consistent.labels
  rw [← h.symbols_eq] at hbindings
  have hemits : List.Forall₂ (Emits (Symbols.ofPlaced (place plain)))
      (plain.map SourceStatement.statement) program.slots := by
    rw [hplain]
    apply forall₂_flatMap
    intro instruction hmem
    exact h.forall₂_emits (SymbolTable.get?_eq_of_bindings_eq hbindings) hmem
  obtain ⟨q, hq, hslots⟩ :=
    exists_assembled_of_emits hshaped (consistent_of_isPlain hall hnodup) hemits
  exact ⟨q, hq, hslots, by rw [hq.symbols_eq, hbindings]⟩

/-- **Desugaring keeps the image.** The plain source of a program has no constants, subroutines and
calls; it assembles, to the same bytes and slots, and every label keeps its slot. -/
theorem assemble_plainSource {source : String} {program : Program}
    (h : assemble source = .ok program) :
    ∃ plain, assemble program.plainSource = .ok plain ∧ plain.IsPlain ∧
      plain.bytes = program.bytes ∧ plain.slotCount = program.slotCount ∧
      ∀ name, plain.symbols.labels.get? name = program.symbols.labels.get? name := by
  obtain ⟨statements, hread, hprogram⟩ := assemble_eq_ok_iff.1 h
  have hlines : List.Forall₂ Says (program.instructions.flatMap Instruction.plainLines)
      (program.instructions.flatMap Instruction.plainStatements) := by
    apply forall₂_flatMap
    intro instruction hmem
    have hsource : instruction.toSourceStatement ∈ statements := by
      rw [← hprogram.source_eq]
      exact List.mem_map_of_mem hmem
    exact (hprogram.rewritten hmem).forall₂_reads (says_of_mem_sourceStatements hread hsource)
  obtain ⟨located, hlocated, hstatements⟩ := exists_sourceStatements_unlines hlines
  obtain ⟨plain, hplain, hslots, hbindings⟩ :=
    hprogram.exists_plain hstatements (shaped_sourceStatements hlocated)
  have hbytes : plain.bytes = program.bytes := by rw [Program.bytes, hslots, Program.bytes]
  have hall : ∀ s ∈ plain.statements, s.isPlain = true := by
    rw [hplain.statements_eq, hstatements]
    exact hprogram.forall_isPlain
  have hcount : 2 * plain.slotCount = 2 * program.slotCount := by
    rw [← hplain.length_bytes, hbytes, hprogram.length_bytes]
  exact ⟨plain, assemble_eq_ok_iff.2 ⟨located, hlocated, hplain⟩,
    Program.isPlain_of_forall hall, hbytes, by omega,
    SymbolTable.get?_eq_of_bindings_eq hbindings⟩

/-- A constant, a subroutine and a call are spelled out; a label, a jump and a literal are kept. -/
theorem assemble_plainSource_call :
    ∃ program plain,
      assemble "$N 5\n  RUN f\ngo # on\n  JMP go\nf \x7b\n  LDAV $N\n  OUTV 0b11\n\x7d\n" =
        .ok program ∧
      program.plainSource =
        "  PSHV 0x02\n  JMPV 0x04\ngo # on\n  JMP go\n  NOP\n  LDAV 0x05\n  OUTV 0b11\n  POPP\n" ∧
      assemble program.plainSource = .ok plain ∧ plain.IsPlain ∧ plain.bytes = program.bytes ∧
      plain.slotCount = 8 ∧ plain.symbols.labels.get? "go" = some 2 := by
  have hok :
      (assemble "$N 5\n  RUN f\ngo # on\n  JMP go\nf \x7b\n  LDAV $N\n  OUTV 0b11\n\x7d\n").map
        (fun program =>
          (program.plainSource, program.slotCount, program.symbols.labels.get? "go")) =
      .ok ("  PSHV 0x02\n  JMPV 0x04\ngo # on\n  JMP go\n  NOP\n  LDAV 0x05\n  OUTV 0b11\n  POPP\n",
        8, some 2) := by decide +kernel
  obtain ⟨program, h, heq⟩ := map_eq_ok_iff.1 hok
  simp only [Prod.mk.injEq] at heq
  obtain ⟨hsource, hcount, hgo⟩ := heq
  obtain ⟨plain, hplain, hisPlain, hbytes, hcounts, hlabels⟩ := assemble_plainSource h
  exact ⟨program, plain, h, hsource, hplain, hisPlain, hbytes, hcounts.trans hcount,
    (hlabels "go").trans hgo⟩

end Breadboard
