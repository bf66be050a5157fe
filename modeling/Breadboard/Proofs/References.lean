import Breadboard.Proofs.Emission

/-!
# References and definitions

An operand names a definition that may stand before or after it. The theorem at the end follows the
name through all passes: from the one instruction that defines it, over the table and the operand,
to the bytes at the slot where the processor will arrive. The definition is the only one of its
name because the names are distinct (`Program.exists_defines`), and its slot holds what is written
for it because layout and emission agree (`Assembled.holds_slots`).
-/

namespace Breadboard

/-- The instruction with index `j` is the only one of the program that defines `name`, where `name?`
is the name that a statement defines. -/
structure Program.Defines (program : Program) (name? : Statement → Option String) (name : String)
    (j : Nat) (definition : Instruction) : Prop where
  getElem?_eq : program.instructions[j]? = some definition
  name?_eq : name? definition.statement = some name
  index_eq : ∀ k other, program.instructions[k]? = some other →
    name? other.statement = some name → k = j

/-- The operand of an instruction is one byte, which is written behind `op` at its slot. -/
def Program.Carries (program : Program) (instruction : Instruction) (op : Opcode) (value : UInt8) :
    Prop :=
  instruction.operand? = some (.byte value) ∧
    ∃ start, instruction.slot? = some start ∧ program.Holds start ⟨op, value⟩

/-- The first slot behind the instruction with index `i`: that of the next instruction that takes
one, or else the end of the program. -/
def Program.slotAfter (program : Program) (i : Nat) : Nat :=
  ((program.instructions.drop (i + 1)).findSome? Instruction.slot?).getD program.slotCount

/-- A jump carries the slot of a label, where a `NOP` stands. -/
structure Program.JumpLands (program : Program) (instruction label : Instruction) (target : Nat) :
    Prop where
  target_eq : label.slot? = some target
  target_le : target ≤ 255
  carries : program.Carries instruction .jmp (UInt8.ofNat target)
  holds_target : program.Holds target ⟨.nop, 0⟩

/-- A call with index `i` at slot `start` pushes the slot behind it and jumps to `entry`, the slot
of an opening, where a `NOP` stands. -/
structure Program.CallLands (program : Program) (i : Nat) (instruction opening : Instruction)
    (start entry : Nat) : Prop where
  start_eq : instruction.slot? = some start
  operand?_eq : instruction.operand? = some (.call (UInt8.ofNat (start + 2)) (UInt8.ofNat entry))
  entry_eq : opening.slot? = some entry
  entry_le : entry ≤ 255
  return_le : start + 2 ≤ 255
  slotAfter_eq : program.slotAfter i = start + 2
  holds_start : program.Holds start ⟨.pshv, UInt8.ofNat (start + 2)⟩
  holds_succ : program.Holds (start + 1) ⟨.jmpv, UInt8.ofNat entry⟩
  holds_entry : program.Holds entry ⟨.nop, 0⟩

/-- The body that opens at index `j` is closed at index `k`, before any other opens, by a `POPP`. -/
structure Program.ClosesAt (program : Program) (j k : Nat) (closing : Instruction) : Prop where
  lt : j < k
  getElem?_eq : program.instructions[k]? = some closing
  statement_eq : closing.statement = .closing
  openingName?_eq : ∀ m other, j < m → m < k → program.instructions[m]? = some other →
    other.statement.openingName? = none
  holds : ∃ slot, closing.slot? = some slot ∧ program.Holds slot ⟨.popp, 0⟩

/-- The operation with index `i` and operand `arg` reaches what `arg` names. -/
def Program.Lands (program : Program) (i : Nat) (instruction : Instruction) (arg : String) :
    Opcode → Prop
  | .jmp => ∃ j label target, program.Defines Statement.labelName? arg j label ∧
      program.JumpLands instruction label target
  | .run => ∃ j opening start entry, program.Defines Statement.openingName? arg j opening ∧
      program.CallLands i instruction opening start entry ∧
        ∃ k closing, program.ClosesAt j k closing
  | op =>
    (∀ name, arg = "$" ++ name → ∃ j constant value,
      program.Defines Statement.constantName? name j constant ∧
      constant.statement = .constant name value ∧ program.Carries instruction op value) ∧
    (arg.toList.head? ≠ some '$' → ∃ value, Literal.byte? arg = some value ∧
      program.Carries instruction op value)

/-! ## Definitions -/

theorem ne_some_of_nodup_filterMap_cons {α β : Type} {f : α → Option β} {b : β} {z y : α}
    {zs : List α} {k : Nat} (hnodup : ((z :: zs).filterMap f).Nodup) (hz : f z = some b)
    (hy : zs[k]? = some y) :
    f y ≠ some b := by
  intro hfy
  rw [List.filterMap_cons_some hz] at hnodup
  have hmem : b ∈ zs.filterMap f := List.mem_filterMap.2 ⟨y, List.mem_of_getElem? hy, hfy⟩
  exact (List.nodup_cons.1 hnodup).1 hmem

/-- Elements that make the same contribution to a list without repetition have the same index. -/
theorem index_eq_of_nodup_filterMap {α β : Type} {f : α → Option β} {b : β} :
    ∀ {xs : List α} {j k : Nat} {x y : α},
    (xs.filterMap f).Nodup → xs[j]? = some x → f x = some b → xs[k]? = some y → f y = some b → j = k
  | [], j, k, x, y, _, hx, _, _, _ => by simp at hx
  | z :: zs, 0, 0, x, y, _, _, _, _, _ => rfl
  | z :: zs, 0, k + 1, x, y, hnodup, hx, hfx, hy, hfy => by
    obtain rfl : z = x := by simpa using hx
    exact absurd hfy (ne_some_of_nodup_filterMap_cons hnodup hfx hy)
  | z :: zs, j + 1, 0, x, y, hnodup, hx, hfx, hy, hfy => by
    obtain rfl : z = y := by simpa using hy
    exact absurd hfx (ne_some_of_nodup_filterMap_cons hnodup hfy hx)
  | z :: zs, j + 1, k + 1, x, y, hnodup, hx, hfx, hy, hfy => by
    have htail : (zs.filterMap f).Nodup :=
      hnodup.sublist ((List.sublist_cons_self z zs).filterMap f)
    have ih : j = k := index_eq_of_nodup_filterMap htail hx hfx hy hfy
    rw [ih]

theorem Program.getElem?_statements_eq_some_iff {program : Program} {i : Nat} {s : Statement} :
    program.statements[i]? = some s ↔
      ∃ instruction, program.instructions[i]? = some instruction ∧ instruction.statement = s := by
  simp [Program.statements, Option.map_eq_some_iff]

/-- Where names are distinct, a statement that defines a name is the only one. -/
theorem Program.exists_defines {program : Program} {name? : Statement → Option String}
    {name : String} {j : Nat} {s : Statement} (hnodup : (program.statements.filterMap name?).Nodup)
    (hj : program.statements[j]? = some s) (hname : name? s = some name) :
    ∃ definition, program.Defines name? name j definition ∧ definition.statement = s := by
  obtain ⟨definition, hdef, rfl⟩ := Program.getElem?_statements_eq_some_iff.1 hj
  refine ⟨definition, ⟨hdef, hname, ?_⟩, rfl⟩
  intro k other hk hother
  exact index_eq_of_nodup_filterMap hnodup
    (Program.getElem?_statements_eq_some_iff.2 ⟨other, hk, rfl⟩) hother hj hname

/-! ## The slot behind an instruction -/

theorem findSome?_slot?_placeFrom (start : Nat) (source : List SourceStatement) :
    ((placeFrom start source).findSome? Placed.slot?).getD
      (start + extent (source.map SourceStatement.statement)) = start := by
  induction source generalizing start with
  | nil => rfl
  | cons s rest ih =>
    by_cases hzero : s.statement.width = 0
    · -- a constant is passed over, and keeps the start
      have := ih start
      simpa [Placed.slot?, hzero] using this
    · simp [Placed.slot?, hzero]

namespace Assembled

variable {source : List SourceStatement} {program : Program} {i : Nat} {instruction : Instruction}
  {op : Opcode} {arg : String}

theorem slotAfter_eq (h : Assembled source program) (i : Nat) :
    program.slotAfter i = slotAt program.statements (i + 1) := by
  have hslot : ∀ (p : Placed) (instruction : Instruction),
      p.instruction program.symbols = .ok instruction → instruction.slot? = p.slot? :=
    fun p instruction hp => (Placed.instruction_eq_ok_iff.1 hp).2.2
  -- the instructions have the slots of the placed statements, whose starts are known
  have hslots : (program.instructions.drop (i + 1)).findSome? Instruction.slot? =
      ((place source).drop (i + 1)).findSome? Placed.slot? := by
    have hmap := congrArg (fun slots => (slots.drop (i + 1)).findSome? id)
      (map_eq_of_map_eq_ok hslot h.resolved)
    simpa [← List.map_drop, List.findSome?_map] using hmap
  have hcount : program.slotCount =
      slotAt program.statements (i + 1) + extent (program.statements.drop (i + 1)) := by
    rw [slotCount_eq, slotAt_add_extent_drop]
  have hfirst := findSome?_slot?_placeFrom (slotAt program.statements (i + 1)) (source.drop (i + 1))
  rw [Program.slotAfter, hslots, hcount, place, drop_placeFrom, Nat.zero_add, ← h.statements_eq]
  rw [List.map_drop, ← h.statements_eq] at hfirst
  exact hfirst

/-! ## The slots of a definition -/

/-- An instruction whose statement is written as one slot has it at its start. -/
theorem holds_of_slots_eq (h : Assembled source program) {slot : Slot}
    (hi : program.instructions[i]? = some instruction) (hslots : instruction.slots = [slot]) :
    instruction.slot? = some (slotAt program.statements i) ∧
      program.Holds (slotAt program.statements i) slot := by
  have hlen := h.length_slots (List.mem_of_getElem? hi)
  have hwidth : instruction.statement.width ≠ 0 := by
    rw [hslots] at hlen
    exact fun hzero => absurd (hlen.trans hzero) (by simp)
  refine ⟨by rw [h.slot?_eq hi, if_neg hwidth], ?_⟩
  exact h.holds_slots (k := 0) hi (by rw [hslots]; rfl)

theorem carries_of_operand? (h : Assembled source program) {value : UInt8}
    (hi : program.instructions[i]? = some instruction)
    (hs : instruction.statement = .operation op (some arg))
    (hoperand : instruction.operand? = some (.byte value)) : program.Carries instruction op value :=
  ⟨hoperand, _, h.holds_of_slots_eq hi (by simp [Instruction.slots, hs, hoperand])⟩

/-! ## References -/

theorem exists_jumpLands (h : Assembled source program)
    (hi : program.instructions[i]? = some instruction)
    (hs : instruction.statement = .operation .jmp (some arg)) :
    ∃ j label target, program.Defines Statement.labelName? arg j label ∧
      program.JumpLands instruction label target := by
  obtain ⟨operand, hoperand, hok⟩ := h.operand?_eq hi hs
  obtain ⟨target, hget, hle, rfl⟩ := Symbols.jump_eq_ok_iff.1 hok
  rw [h.symbols_eq, labels_place_get?_eq_some_iff h.consistent.toDistinctNames,
    ← h.statements_eq] at hget
  -- the table has the slot of one statement, which is the one definition in the program
  obtain ⟨j, hj, rfl⟩ := hget
  obtain ⟨label, hdefines, hlabel⟩ := Program.exists_defines h.consistent_statements.labels hj rfl
  have hnop : label.slots = [⟨.nop, 0⟩] := by simp [Instruction.slots, hlabel]
  obtain ⟨hslot, hholds⟩ := h.holds_of_slots_eq hdefines.getElem?_eq hnop
  exact ⟨j, label, _, hdefines, hslot, hle, h.carries_of_operand? hi hs hoperand, hholds⟩

theorem exists_closesAt (h : Assembled source program) {j : Nat} {name : String}
    (hj : program.statements[j]? = some (.opening name)) :
    ∃ k closing, program.ClosesAt j k closing := by
  obtain ⟨k, hjk, hk, hnone⟩ := exists_closing_of_opening h.consistent_statements.marks_eq hj
  obtain ⟨closing, hclosing, hs⟩ := Program.getElem?_statements_eq_some_iff.1 hk
  refine ⟨k, closing, hjk, hclosing, hs, ?_, _,
    h.holds_of_slots_eq hclosing (by simp [Instruction.slots, hs])⟩
  intro m other hjm hmk hm
  have hmark := hnone m _ hjm hmk (Program.getElem?_statements_eq_some_iff.2 ⟨other, hm, rfl⟩)
  cases hother : other.statement with
  | opening name => rw [hother] at hmark; cases hmark
  | _ => rfl

theorem exists_callLands (h : Assembled source program)
    (hi : program.instructions[i]? = some instruction)
    (hs : instruction.statement = .operation .run (some arg)) :
    ∃ j opening start entry, program.Defines Statement.openingName? arg j opening ∧
      program.CallLands i instruction opening start entry ∧
        ∃ k closing, program.ClosesAt j k closing := by
  obtain ⟨operand, hoperand, hok⟩ := h.operand?_eq hi hs
  obtain ⟨entry, hget, hentry, hreturn, rfl⟩ := Symbols.call_eq_ok_iff.1 hok
  rw [h.symbols_eq, subroutines_place_get?_eq_some_iff h.consistent.toDistinctNames,
    ← h.statements_eq] at hget
  obtain ⟨j, hj, rfl⟩ := hget
  obtain ⟨opening, hdefines, hopening⟩ :=
    Program.exists_defines h.consistent_statements.openings hj rfl
  have hnop : opening.slots = [⟨.nop, 0⟩] := by simp [Instruction.slots, hopening]
  obtain ⟨hslot, hholds⟩ := h.holds_of_slots_eq hdefines.getElem?_eq hnop
  have hslots : instruction.slots = [⟨.pshv, UInt8.ofNat (slotAt program.statements i + 2)⟩,
      ⟨.jmpv, UInt8.ofNat (slotAt program.statements j)⟩] := by
    simp [Instruction.slots, hs, hoperand]
  refine ⟨j, opening, slotAt program.statements i, slotAt program.statements j, hdefines, ?_,
    h.exists_closesAt hj⟩
  constructor
  case start_eq => rw [h.slot?_eq hi, if_neg (by simp [hs, Statement.width])]
  case operand?_eq => exact hoperand
  case entry_eq => exact hslot
  case entry_le => exact hentry
  case return_le => exact hreturn
  case slotAfter_eq =>
    have hi' := Program.getElem?_statements_eq_some_iff.2 ⟨instruction, hi, hs⟩
    rw [h.slotAfter_eq, slotAt_succ hi']
    rfl
  case holds_start => exact h.holds_slots hi (k := 0) (by rw [hslots]; rfl)
  case holds_succ => exact h.holds_slots hi (k := 1) (by rw [hslots]; rfl)
  case holds_entry => exact hholds

/-- All other operands carry the value of a constant or of a literal. -/
theorem exists_carries (h : Assembled source program)
    (hi : program.instructions[i]? = some instruction)
    (hs : instruction.statement = .operation op (some arg))
    (hplain : ∀ start, program.symbols.operand op start arg = program.symbols.value arg) :
    (∀ name, arg = "$" ++ name → ∃ j constant value,
      program.Defines Statement.constantName? name j constant ∧
      constant.statement = .constant name value ∧ program.Carries instruction op value) ∧
    (arg.toList.head? ≠ some '$' → ∃ value, Literal.byte? arg = some value ∧
      program.Carries instruction op value) := by
  obtain ⟨operand, hoperand, hok⟩ := h.operand?_eq hi hs
  rw [hplain] at hok
  obtain ⟨value, rfl, hvalue⟩ := Symbols.value_eq_ok_iff.1 hok
  have hcarries := h.carries_of_operand? hi hs hoperand
  rcases hvalue with ⟨name, rfl, hget⟩ | ⟨hhead, hliteral⟩
  · refine ⟨?_, fun hhead => absurd (by simp) hhead⟩
    intro name' hname'
    obtain rfl : name = name' := by simpa using hname'
    rw [h.symbols_eq, constants_place_get?_eq_some_iff h.consistent.toDistinctNames,
      ← h.statements_eq] at hget
    obtain ⟨j, hj⟩ := List.mem_iff_getElem?.1 hget
    obtain ⟨constant, hdefines, hconstant⟩ :=
      Program.exists_defines h.consistent_statements.constants hj rfl
    exact ⟨j, constant, value, hdefines, hconstant, hcarries⟩
  · refine ⟨?_, fun _ => ⟨value, hliteral, hcarries⟩⟩
    rintro name rfl
    exact absurd (by simp) hhead

end Assembled

/-- **Every reference lands on its definition**, wherever in the source the definition stands. -/
theorem lands_of_assemble {source : String} {program : Program} {i : Nat}
    {instruction : Instruction} {op : Opcode} {arg : String} (h : assemble source = .ok program)
    (hi : program.instructions[i]? = some instruction)
    (hs : instruction.statement = .operation op (some arg)) :
    program.Lands i instruction arg op := by
  obtain ⟨statements, -, hprogram⟩ := assemble_eq_ok_iff.1 h
  cases op with
  | jmp => exact hprogram.exists_jumpLands hi hs
  | run => exact hprogram.exists_callLands hi hs
  | _ => exact hprogram.exists_carries hi hs fun _ => rfl

/-- A call and a constant that are defined further down, and a jump that goes back. -/
theorem lands_forward_and_back :
    ∃ program call jump load,
      assemble "  RUN greet\nloop\n  JMP loop\ngreet\x7b\n  LDAV $FIVE\n\x7d\n$FIVE 5\n" = .ok program ∧
      program.instructions[0]? = some call ∧ program.Lands 0 call "greet" .run ∧
      program.instructions[2]? = some jump ∧ program.Lands 2 jump "loop" .jmp ∧
      program.instructions[4]? = some load ∧ program.Lands 4 load "$FIVE" .ldav := by
  have hok :
      (assemble "  RUN greet\nloop\n  JMP loop\ngreet\x7b\n  LDAV $FIVE\n\x7d\n$FIVE 5\n").map
        Program.statements =
      .ok [.operation .run (some "greet"), .label "loop", .operation .jmp (some "loop"),
        .opening "greet", .operation .ldav (some "$FIVE"), .closing,
        .constant "FIVE" 5] := by decide +kernel
  obtain ⟨program, h, hstatements⟩ := map_eq_ok_iff.1 hok
  have hget (i : Nat) := congrArg (fun statements => statements[i]?) hstatements
  obtain ⟨call, hcall, hcall'⟩ := Program.getElem?_statements_eq_some_iff.1 (hget 0)
  obtain ⟨jump, hjump, hjump'⟩ := Program.getElem?_statements_eq_some_iff.1 (hget 2)
  obtain ⟨load, hload, hload'⟩ := Program.getElem?_statements_eq_some_iff.1 (hget 4)
  exact ⟨program, call, jump, load, h, hcall, lands_of_assemble h hcall hcall', hjump,
    lands_of_assemble h hjump hjump', hload, lands_of_assemble h hload hload'⟩

end Breadboard
