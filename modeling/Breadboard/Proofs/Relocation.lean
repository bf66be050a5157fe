import Breadboard.Proofs.References

/-!
# Relocation

What becomes of a source that is put behind another one. Its statements are placed higher up by the
slots of the first source, and only the operands that name a slot notice: those of jumps to a label
and of calls. All others, a literal operand of a source-level `JMPV` or `PSHV` among them, are data
and stay.

A source alone and the same source as a part of a longer one are related by a move of its placed
statements (`Placed.move`), and of its tables (`Symbols.MovedInto`). One lemma says what a move
does to an instruction (`Symbols.MovedInto.instruction_iff`); it serves both parts of the longer
source, of which the first is moved by nothing.
-/

namespace Breadboard

/-- No name is defined in both, each kind for itself. -/
structure DisjointNames (a b : List Statement) : Prop where
  constants : ∀ name ∈ constantNames a, name ∉ constantNames b
  labels : ∀ name ∈ labelNames a, name ∉ labelNames b
  openings : ∀ name ∈ openingNames a, name ∉ openingNames b

/-- Whether a statement transfers control to a name: a jump to a label, or a call. -/
def Statement.isTransfer : Statement → Bool
  | .operation .jmp _ | .operation .run _ => true
  | _ => false

/-- A slot with its operand increased. -/
def Slot.raise (offset : Nat) (slot : Slot) : Slot :=
  ⟨slot.opcode, UInt8.ofNat (slot.operand.toNat + offset)⟩

/-- The slots of an instruction that stands `offset` slots higher up. -/
def Instruction.raisedSlots (offset : Nat) (instruction : Instruction) : List Slot :=
  if instruction.statement.isTransfer then instruction.slots.map (Slot.raise offset)
  else instruction.slots

/-- The bytes of a program that stands `offset` slots higher up. -/
def Program.raisedBytes (offset : Nat) (program : Program) : List UInt8 :=
  (program.instructions.flatMap (Instruction.raisedSlots offset)).flatMap Slot.bytes

/-- All slots to which a program transfers control can be named `offset` slots higher up. -/
structure Program.Reaches (offset : Nat) (program : Program) : Prop where
  target_le : ∀ jump ∈ program.instructions, ∀ name, jump.statement = .operation .jmp (some name) →
    ∀ label ∈ program.instructions, label.statement = .label name →
      ∀ target, label.slot? = some target → target + offset ≤ 255
  return_le : ∀ call ∈ program.instructions, ∀ name, call.statement = .operation .run (some name) →
    ∀ start, call.slot? = some start → start + 2 + offset ≤ 255
  entry_le : ∀ call ∈ program.instructions, ∀ name, call.statement = .operation .run (some name) →
    ∀ opening ∈ program.instructions, opening.statement = .opening name →
      ∀ entry, opening.slot? = some entry → entry + offset ≤ 255

/-! ## Moving an operand -/

namespace Operand

/-- An operand with its bytes increased. -/
def raise (offset : Nat) : Operand → Operand
  | byte value => byte (UInt8.ofNat (value.toNat + offset))
  | call ret entry => call (UInt8.ofNat (ret.toNat + offset)) (UInt8.ofNat (entry.toNat + offset))

/-- The increased bytes are still bytes. -/
def Fits (offset : Nat) : Operand → Prop
  | byte value => value.toNat + offset ≤ 255
  | call ret entry => ret.toNat + offset ≤ 255 ∧ entry.toNat + offset ≤ 255

end Operand

/-- All that a table says, the larger tables say of the name `offset` slots higher up. -/
structure Symbols.MovedInto (offset : Nat) (small large : Symbols) : Prop where
  constants : ∀ name value, small.constants.get? name = some value →
    large.constants.get? name = some value
  labels : ∀ name slot, small.labels.get? name = some slot →
    large.labels.get? name = some (slot + offset)
  subroutines : ∀ name slot, small.subroutines.get? name = some slot →
    large.subroutines.get? name = some (slot + offset)

/-- The tables of a part of placed statements, moved, are in those of the whole. -/
theorem Symbols.movedInto_ofPlaced {part whole : List Placed} {n offset : Nat}
    (hpart : DistinctNames (statementsOf part)) (hwhole : DistinctNames (statementsOf whole))
    (hsub : ∀ p ∈ part, p.move n offset ∈ whole) :
    (Symbols.ofPlaced part).MovedInto offset (Symbols.ofPlaced whole) := by
  constructor
  · intro name value hget
    obtain ⟨p, hp, hs⟩ := (constants_get?_eq_some_iff hpart).1 hget
    exact (constants_get?_eq_some_iff hwhole).2 ⟨_, hsub p hp, hs⟩
  · intro name slot hget
    obtain ⟨p, hp, hs, rfl⟩ := (labels_get?_eq_some_iff hpart).1 hget
    exact (labels_get?_eq_some_iff hwhole).2 ⟨_, hsub p hp, hs, rfl⟩
  · intro name slot hget
    obtain ⟨p, hp, hs, rfl⟩ := (subroutines_get?_eq_some_iff hpart).1 hget
    exact (subroutines_get?_eq_some_iff hwhole).2 ⟨_, hsub p hp, hs, rfl⟩

theorem toNat_ofNat_of_le {address : Nat} (h : address ≤ 255) :
    (UInt8.ofNat address).toNat = address := by
  rw [UInt8.toNat_ofNat']
  omega

namespace Symbols.MovedInto

variable {offset : Nat} {small large : Symbols} {operand operand' : Operand} {arg : String}

theorem jump_iff (h : small.MovedInto offset large) (hok : small.jump arg = .ok operand) :
    large.jump arg = .ok operand' ↔ operand.Fits offset ∧ operand' = operand.raise offset := by
  obtain ⟨target, hget, hle, rfl⟩ := jump_eq_ok_iff.1 hok
  rw [jump_eq_ok_iff, h.labels _ _ hget]
  simp only [Operand.Fits, Operand.raise, toNat_ofNat_of_le hle, Option.some.injEq, exists_eq_left']

theorem call_iff (h : small.MovedInto offset large) {start : Nat}
    (hok : small.call start arg = .ok operand) :
    large.call (start + offset) arg = .ok operand' ↔
      operand.Fits offset ∧ operand' = operand.raise offset := by
  obtain ⟨target, hget, hle, hret, rfl⟩ := call_eq_ok_iff.1 hok
  have hstart : start + offset + 2 = start + 2 + offset := by omega
  rw [call_eq_ok_iff, h.subroutines _ _ hget]
  simp only [Operand.Fits, Operand.raise, toNat_ofNat_of_le hle, toNat_ofNat_of_le hret, hstart,
    Option.some.injEq, exists_eq_left']
  constructor
  · rintro ⟨hentry, hret', rfl⟩
    exact ⟨⟨hret', hentry⟩, rfl⟩
  · rintro ⟨⟨hret', hentry⟩, rfl⟩
    exact ⟨hentry, hret', rfl⟩

theorem value_iff (h : small.MovedInto offset large) (hok : small.value arg = .ok operand) :
    large.value arg = .ok operand' ↔ operand' = operand := by
  obtain ⟨value, rfl, hvalue⟩ := value_eq_ok_iff.1 hok
  have hlarge : large.value arg = .ok (.byte value) := by
    refine value_eq_ok_iff.2 ⟨value, rfl, ?_⟩
    rcases hvalue with ⟨name, harg, hget⟩ | hliteral
    · exact Or.inl ⟨name, harg, h.constants _ _ hget⟩
    · exact Or.inr hliteral
  rw [hlarge, Except.ok.injEq, eq_comm]

theorem operand_iff (h : small.MovedInto offset large) {op : Opcode} {start : Nat}
    (hok : small.operand op start arg = .ok operand) :
    large.operand op (start + offset) arg = .ok operand' ↔
      ((Statement.operation op (some arg)).isTransfer → operand.Fits offset) ∧
        operand' = if (Statement.operation op (some arg)).isTransfer then operand.raise offset
          else operand := by
  cases op with
  | jmp => simpa [Statement.isTransfer, Symbols.operand] using h.jump_iff hok
  | run => simpa [Statement.isTransfer, Symbols.operand] using h.call_iff hok
  | _ => simpa [Statement.isTransfer, Symbols.operand] using h.value_iff hok

end Symbols.MovedInto

/-! ## Moving an instruction -/

/-- An instruction `n` lines further down and `offset` slots higher up. -/
def Instruction.move (n offset : Nat) (instruction : Instruction) : Instruction where
  toSourceStatement := instruction.toSourceStatement.lower n
  slot? := instruction.slot?.map (· + offset)
  operand? :=
    if instruction.statement.isTransfer then instruction.operand?.map (Operand.raise offset)
    else instruction.operand?

/-- An instruction can be moved: the slots that it names can still be named. -/
def Instruction.Fits (offset : Nat) (instruction : Instruction) : Prop :=
  instruction.statement.isTransfer → ∀ operand, instruction.operand? = some operand →
    operand.Fits offset

theorem Instruction.fits_iff_of_isTransfer {offset : Nat} {instruction : Instruction}
    {operand : Operand} (htransfer : instruction.statement.isTransfer)
    (hoperand : instruction.operand? = some operand) :
    instruction.Fits offset ↔ operand.Fits offset := by
  constructor
  · intro h
    exact h htransfer operand hoperand
  · intro h _ other hother
    exact Option.some.inj (hoperand.symm.trans hother) ▸ h

theorem Placed.slot?_move (n offset : Nat) (p : Placed) :
    (p.move n offset).slot? = p.slot?.map (· + offset) := by
  unfold Placed.slot?
  by_cases hzero : p.statement.width = 0
  · simp [hzero]
  · simp [hzero]

namespace Symbols.MovedInto

variable {offset : Nat} {small large : Symbols}

theorem operand?_iff (h : small.MovedInto offset large) {n : Nat} {p : Placed}
    {instruction : Instruction} {operand? : Option Operand}
    (hok : p.instruction small = .ok instruction) :
    (p.move n offset).operand? large = .ok operand? ↔
      instruction.Fits offset ∧ operand? = (instruction.move n offset).operand? := by
  obtain ⟨hoperand, hsource, _⟩ := Placed.instruction_eq_ok_iff.1 hok
  by_cases hs : ∃ op arg, p.statement = .operation op (some arg)
  · obtain ⟨op, arg, hs⟩ := hs
    rw [Placed.operand?_of_operation hs] at hoperand
    obtain ⟨operand, hsmall, hsome⟩ := map_eq_ok_iff.1 hoperand
    rw [Placed.operand?_of_operation (p := p.move n offset) hs, map_eq_ok_iff]
    simp only [Placed.start_move, h.operand_iff hsmall, Instruction.Fits, Instruction.move, hsource,
      hs, ← hsome, Option.some.injEq, forall_eq', and_assoc, exists_and_left, exists_eq_left,
      eq_comm (b := operand?)]
    split <;> rfl
  · have hnot : ∀ op arg, p.statement ≠ .operation op (some arg) :=
      fun op arg hs' => hs ⟨op, arg, hs'⟩
    rw [Placed.operand?_of_ne hnot] at hoperand
    have hnone : instruction.operand? = none := (Except.ok.inj hoperand).symm
    rw [Placed.operand?_of_ne (p := p.move n offset) hnot]
    have hfits : instruction.Fits offset :=
      fun _ operand hsome => absurd (hnone.symm.trans hsome) nofun
    have hmove : (instruction.move n offset).operand? = none := by simp [Instruction.move, hnone]
    rw [hmove, Except.ok.injEq, eq_comm]
    exact ⟨fun h => ⟨hfits, h⟩, fun h => h.2⟩

/-- What a move does to an instruction: it goes through where the slots that it names can still be
named, and changes nothing else. -/
theorem instruction_iff (h : small.MovedInto offset large) {n : Nat} (p : Placed)
    (instruction : Instruction) (hok : p.instruction small = .ok instruction)
    (instruction' : Instruction) :
    (p.move n offset).instruction large = .ok instruction' ↔
      instruction.Fits offset ∧ instruction' = instruction.move n offset := by
  obtain ⟨-, hsource, hslot⟩ := Placed.instruction_eq_ok_iff.1 hok
  rw [Placed.instruction_eq_ok_iff, h.operand?_iff hok, Placed.slot?_move, ← hslot]
  obtain ⟨source', slot?', operand?'⟩ := instruction'
  simp only [Instruction.move, Instruction.mk.injEq]
  constructor
  · rintro ⟨⟨hfits, rfl⟩, rfl, rfl⟩
    exact ⟨hfits, by rw [hsource]; rfl, rfl, rfl⟩
  · rintro ⟨hfits, rfl, rfl, rfl⟩
    exact ⟨⟨hfits, rfl⟩, by rw [hsource]; rfl, rfl⟩

end Symbols.MovedInto

theorem Instruction.move_zero (instruction : Instruction) : instruction.move 0 0 = instruction := by
  have hraise : Operand.raise 0 = id := by
    funext operand
    cases operand <;> simp [Operand.raise]
  have hlower : instruction.toSourceStatement.lower 0 = instruction.toSourceStatement := rfl
  simp [Instruction.move, hraise, hlower]

theorem Instruction.fits_zero (instruction : Instruction) : instruction.Fits 0 := by
  intro _ operand _
  cases operand with
  | byte value =>
    have hvalue := value.toNat_lt
    simp only [Operand.Fits]
    omega
  | call ret entry =>
    have hret := ret.toNat_lt
    have hentry := entry.toNat_lt
    simp only [Operand.Fits]
    omega

/-! ## One source behind another -/

theorem Consistent.append {a b : List Statement} (ha : Consistent a) (hb : Consistent b)
    (hdisjoint : DisjointNames a b) : Consistent (a ++ b) := by
  have hnodup : ∀ {xs ys : List String}, xs.Nodup → ys.Nodup → (∀ name ∈ xs, name ∉ ys) →
      (xs ++ ys).Nodup := by
    intro xs ys hxs hys hnone
    exact List.nodup_append.2 ⟨hxs, hys, fun x hx y hy hxy => hnone x hx (hxy ▸ hy)⟩
  refine ⟨⟨?_, ?_, ?_⟩, ?_⟩
  · rw [constantNames, List.filterMap_append]
    exact hnodup ha.constants hb.constants hdisjoint.constants
  · rw [labelNames, List.filterMap_append]
    exact hnodup ha.labels hb.labels hdisjoint.labels
  · rw [openingNames_append]
    exact hnodup ha.openings hb.openings hdisjoint.openings
  · rw [marks_append, ha.marks_eq, hb.marks_eq, openingNames_append, bodies_append]

namespace Assembled

variable {xs ys : List SourceStatement} {p q r : Program} {whole : List Placed}

/-- A part of a longer source becomes the instructions that it has alone, moved, if they can be. -/
theorem map_instruction_move_iff (hq : Assembled ys q) (hwhole : DistinctNames (statementsOf whole))
    {n offset : Nat} (hsub : ∀ y ∈ place ys, y.move n offset ∈ whole)
    (instructions : List Instruction) :
    ((place ys).map (Placed.move n offset)).map (Placed.instruction (Symbols.ofPlaced whole)) =
        instructions.map Except.ok ↔
      (∀ instruction ∈ q.instructions, instruction.Fits offset) ∧
        instructions = q.instructions.map (Instruction.move n offset) := by
  have hpart : DistinctNames (statementsOf (place ys)) := by
    rw [statementsOf_place]
    exact hq.consistent.toDistinctNames
  have hmoved : q.symbols.MovedInto offset (Symbols.ofPlaced whole) :=
    hq.symbols_eq ▸ Symbols.movedInto_ofPlaced hpart hwhole hsub
  rw [List.map_map]
  exact map_eq_ok_iff_of_map_eq_ok hmoved.instruction_iff hq.resolved

/-- The first part is moved by nothing. -/
theorem map_instruction_first_iff (hp : Assembled xs p)
    (hwhole : DistinctNames (statementsOf whole)) (hsub : ∀ x ∈ place xs, x ∈ whole)
    (instructions : List Instruction) :
    (place xs).map (Placed.instruction (Symbols.ofPlaced whole)) = instructions.map Except.ok ↔
      instructions = p.instructions := by
  have hplace : (place xs).map (Placed.move 0 0) = place xs := List.map_id (place xs)
  have hmove : p.instructions.map (Instruction.move 0 0) = p.instructions := by
    rw [show Instruction.move 0 0 = id from funext Instruction.move_zero, List.map_id]
  have hmoved : ∀ x ∈ place xs, x.move 0 0 ∈ whole := hsub
  have hpart := hp.map_instruction_move_iff hwhole hmoved instructions
  rw [hplace, hmove] at hpart
  rw [hpart]
  exact ⟨fun h => h.2, fun h => ⟨fun instruction _ => instruction.fits_zero, h⟩⟩

/-- The program of one source behind another: the instructions of the first, and those of the second
moved. -/
theorem append_iff (hp : Assembled xs p) (hq : Assembled ys q)
    (hdisjoint : DisjointNames p.statements q.statements) (n : Nat) :
    Assembled (xs ++ ys.map (SourceStatement.lower n)) r ↔
      (∀ instruction ∈ q.instructions, instruction.Fits p.slotCount) ∧
        r = ⟨p.instructions ++ q.instructions.map (Instruction.move n p.slotCount),
          Symbols.ofPlaced (place (xs ++ ys.map (SourceStatement.lower n)))⟩ := by
  have hplace : place (xs ++ ys.map (SourceStatement.lower n)) =
      place xs ++ (place ys).map (Placed.move n p.slotCount) := by
    rw [place_append_lower, ← hp.statements_eq, ← slotCount_eq]
  have hstatements : (xs ++ ys.map (SourceStatement.lower n)).map SourceStatement.statement =
      p.statements ++ q.statements := by
    rw [hp.statements_eq, hq.statements_eq]
    simp
  have hshaped :
      Shaped ((xs ++ ys.map (SourceStatement.lower n)).map SourceStatement.statement) := by
    rw [hstatements]
    intro op arg? hmem
    rcases List.mem_append.1 hmem with hmem | hmem
    · exact hp.shaped_statements op arg? hmem
    · exact hq.shaped_statements op arg? hmem
  have hcons :
      Consistent ((xs ++ ys.map (SourceStatement.lower n)).map SourceStatement.statement) :=
    hstatements ▸ hp.consistent_statements.append hq.consistent_statements hdisjoint
  have hwhole :
      DistinctNames (statementsOf (place xs ++ (place ys).map (Placed.move n p.slotCount))) := by
    rw [← hplace, statementsOf_place]
    exact hcons.toDistinctNames
  -- both parts, moved, are parts of the whole, so their tables are parts of its tables
  have hfirst := hp.map_instruction_first_iff hwhole fun x hx => List.mem_append_left _ hx
  have hsecond :=
    hq.map_instruction_move_iff hwhole fun y hy => List.mem_append_right _ (List.mem_map_of_mem hy)
  obtain ⟨instructions, symbols⟩ := r
  simp only [hplace, Program.mk.injEq]
  constructor
  · rintro ⟨-, -, hsymbols, hresolved⟩
    rw [hplace] at hsymbols hresolved
    rw [hsymbols, List.map_append] at hresolved
    obtain ⟨first, second, hall, ha, hb⟩ := List.map_eq_append_iff.1 hresolved.symm
    obtain rfl := (hfirst _).1 ha.symm
    obtain ⟨hfits, rfl⟩ := (hsecond _).1 hb.symm
    exact ⟨hfits, hall, hsymbols⟩
  · rintro ⟨hfits, rfl, rfl⟩
    refine ⟨hshaped, hcons, by rw [hplace], ?_⟩
    rw [hplace, List.map_append, List.map_append, (hfirst _).2 rfl, (hsecond _).2 ⟨hfits, rfl⟩]

end Assembled

/-! ## Slots of moved instructions -/

section
variable {n offset : Nat} {instruction : Instruction} {operand : Operand}

theorem Instruction.slots_move
    (h : instruction.statement.isTransfer → instruction.operand?.isSome) :
    (instruction.move n offset).slots = instruction.raisedSlots offset := by
  by_cases htransfer : instruction.statement.isTransfer
  · obtain ⟨operand, hoperand⟩ := Option.isSome_iff_exists.1 (h htransfer)
    cases hs : instruction.statement with
    | operation op arg? =>
      rw [hs] at htransfer
      cases operand with
      | byte value =>
        simp [raisedSlots, slots, move, hs, htransfer, hoperand, Operand.raise, Slot.raise]
      | call ret entry =>
        simp [raisedSlots, slots, move, hs, htransfer, hoperand, Operand.raise, Slot.raise]
    | _ => simp [hs, Statement.isTransfer] at htransfer
  · simp [raisedSlots, slots, move, htransfer]

/-- The operands of a transfer that fits are increased without starting over at zero. -/
theorem Instruction.toNat_operand_raise (h : instruction.Fits offset)
    (htransfer : instruction.statement.isTransfer) (hoperand : instruction.operand? = some operand)
    {slot : Slot} (hslot : slot ∈ instruction.slots) :
    (slot.raise offset).operand.toNat = slot.operand.toNat + offset := by
  have hfits := (fits_iff_of_isTransfer htransfer hoperand).1 h
  apply toNat_ofNat_of_le
  cases hs : instruction.statement with
  | operation op arg? =>
    cases operand with
    | byte value =>
      obtain rfl : slot = ⟨op, value⟩ := by simpa [slots, hs, hoperand] using hslot
      exact hfits
    | call ret entry =>
      obtain rfl | rfl : slot = ⟨.pshv, ret⟩ ∨ slot = ⟨.jmpv, entry⟩ := by
        simpa [slots, hs, hoperand] using hslot
      · exact hfits.1
      · exact hfits.2
  | _ => simp [hs, Statement.isTransfer] at htransfer

end

/-! ## Slots that are named -/

theorem Shaped.exists_name_of_isTransfer {statements : List Statement} (h : Shaped statements)
    {s : Statement} (hmem : s ∈ statements) (htransfer : s.isTransfer) :
    ∃ name, s = .operation .jmp (some name) ∨ s = .operation .run (some name) := by
  cases s with
  | operation op arg? =>
    have hneeds : arg?.isSome = op.hasOperand := h op arg? hmem
    cases op with
    | jmp =>
      obtain ⟨name, rfl⟩ := Option.isSome_iff_exists.1 hneeds
      exact ⟨name, Or.inl rfl⟩
    | run =>
      obtain ⟨name, rfl⟩ := Option.isSome_iff_exists.1 hneeds
      exact ⟨name, Or.inr rfl⟩
    | _ => simp [Statement.isTransfer] at htransfer
  | _ => simp [Statement.isTransfer] at htransfer

section
variable {program : Program} {instruction label opening other definition : Instruction}
  {name : String} {i j target start entry offset : Nat}

theorem Program.Defines.eq_of_mem {name? : Statement → Option String}
    (h : program.Defines name? name j definition) (hmem : other ∈ program.instructions)
    (hname : name? other.statement = some name) : other = definition := by
  obtain ⟨k, hk⟩ := List.mem_iff_getElem?.1 hmem
  obtain rfl := h.index_eq k other hk hname
  exact Option.some.inj (hk.symm.trans h.getElem?_eq)

theorem Program.JumpLands.fits_iff (h : program.JumpLands instruction label target)
    (hs : instruction.statement = .operation .jmp (some name)) :
    instruction.Fits offset ↔ target + offset ≤ 255 := by
  rw [Instruction.fits_iff_of_isTransfer (by rw [hs]; rfl) h.carries.1, Operand.Fits,
    toNat_ofNat_of_le h.target_le]

theorem Program.CallLands.fits_iff (h : program.CallLands i instruction opening start entry)
    (hs : instruction.statement = .operation .run (some name)) :
    instruction.Fits offset ↔ start + 2 + offset ≤ 255 ∧ entry + offset ≤ 255 := by
  rw [Instruction.fits_iff_of_isTransfer (by rw [hs]; rfl) h.operand?_eq, Operand.Fits,
    toNat_ofNat_of_le h.return_le, toNat_ofNat_of_le h.entry_le]

end

namespace Assembled

variable {source : List SourceStatement} {program : Program} {offset : Nat}

theorem exists_operand_of_isTransfer (h : Assembled source program) {instruction : Instruction}
    (hmem : instruction ∈ program.instructions) (htransfer : instruction.statement.isTransfer) :
    ∃ operand, instruction.operand? = some operand := by
  obtain ⟨i, hi⟩ := List.mem_iff_getElem?.1 hmem
  obtain ⟨name, hs | hs⟩ :=
    h.shaped_statements.exists_name_of_isTransfer (List.mem_map_of_mem hmem) htransfer
  · obtain ⟨operand, hoperand, -⟩ := h.operand?_eq hi hs
    exact ⟨operand, hoperand⟩
  · obtain ⟨operand, hoperand, -⟩ := h.operand?_eq hi hs
    exact ⟨operand, hoperand⟩

/-- The instructions of a program can be moved when the slots to which they transfer control can be
named higher up. -/
theorem forall_fits_iff (h : Assembled source program) :
    (∀ instruction ∈ program.instructions, instruction.Fits offset) ↔ program.Reaches offset := by
  constructor
  · intro hfits
    constructor
    case target_le =>
      intro jump hjump name hs label hlabel hl target htarget
      obtain ⟨i, hi⟩ := List.mem_iff_getElem?.1 hjump
      obtain ⟨j, label, _, hdefines, hlands⟩ := h.exists_jumpLands hi hs
      obtain rfl := hdefines.eq_of_mem hlabel (Statement.labelName?_eq_some_iff.2 hl)
      obtain rfl := Option.some.inj (htarget.symm.trans hlands.target_eq)
      exact (hlands.fits_iff hs).1 (hfits jump hjump)
    case return_le =>
      intro call hcall name hs start hstart
      obtain ⟨i, hi⟩ := List.mem_iff_getElem?.1 hcall
      obtain ⟨j, opening, _, entry, -, hlands, -⟩ := h.exists_callLands hi hs
      obtain rfl := Option.some.inj (hstart.symm.trans hlands.start_eq)
      exact ((hlands.fits_iff hs).1 (hfits call hcall)).1
    case entry_le =>
      intro call hcall name hs opening hopening ho entry hentry
      obtain ⟨i, hi⟩ := List.mem_iff_getElem?.1 hcall
      obtain ⟨j, opening, start, _, hdefines, hlands, -⟩ := h.exists_callLands hi hs
      obtain rfl := hdefines.eq_of_mem hopening (Statement.openingName?_eq_some_iff.2 ho)
      obtain rfl := Option.some.inj (hentry.symm.trans hlands.entry_eq)
      exact ((hlands.fits_iff hs).1 (hfits call hcall)).2
  · intro hreaches instruction hmem htransfer
    obtain ⟨i, hi⟩ := List.mem_iff_getElem?.1 hmem
    -- the definition is the one that the reference lands on, and it is a statement of that name
    obtain ⟨name, hs | hs⟩ :=
      h.shaped_statements.exists_name_of_isTransfer (List.mem_map_of_mem hmem) htransfer
    · obtain ⟨j, label, target, hdefines, hlands⟩ := h.exists_jumpLands hi hs
      have hle := hreaches.target_le instruction hmem name hs label
        (List.mem_of_getElem? hdefines.getElem?_eq)
        (Statement.labelName?_eq_some_iff.1 hdefines.name?_eq) target hlands.target_eq
      exact (hlands.fits_iff hs).2 hle htransfer
    · obtain ⟨j, opening, start, entry, hdefines, hlands, -⟩ := h.exists_callLands hi hs
      have hreturn := hreaches.return_le instruction hmem name hs start hlands.start_eq
      have hentry := hreaches.entry_le instruction hmem name hs opening
        (List.mem_of_getElem? hdefines.getElem?_eq)
        (Statement.openingName?_eq_some_iff.1 hdefines.name?_eq) entry hlands.entry_eq
      exact (hlands.fits_iff hs).2 ⟨hreturn, hentry⟩ htransfer

theorem flatMap_slots_move (h : Assembled source program) (n : Nat) :
    (program.instructions.map (Instruction.move n offset)).flatMap Instruction.slots =
      program.instructions.flatMap (Instruction.raisedSlots offset) := by
  rw [List.flatMap_map, List.flatMap_def, List.flatMap_def]
  congr 1
  apply List.map_congr_left
  intro instruction hmem
  apply Instruction.slots_move
  intro htransfer
  exact Option.isSome_iff_exists.2 (h.exists_operand_of_isTransfer hmem htransfer)

end Assembled

theorem exists_symbols_assemble_append {a b : String} {p q : Program} (hlines : WholeLines a)
    (hp : assemble a = .ok p) (hq : assemble b = .ok q)
    (hdisjoint : DisjointNames p.statements q.statements) :
    ∃ symbols, ∀ r, assemble (a ++ b) = .ok r ↔
      (∀ instruction ∈ q.instructions, instruction.Fits p.slotCount) ∧
        r = ⟨p.instructions ++ q.instructions.map
          (Instruction.move (lines a).length p.slotCount), symbols⟩ := by
  obtain ⟨xs, hxs, hp⟩ := assemble_eq_ok_iff.1 hp
  obtain ⟨ys, hys, hq⟩ := assemble_eq_ok_iff.1 hq
  have hread : sourceStatements (a ++ b) =
      .ok (xs ++ ys.map (SourceStatement.lower (lines a).length)) :=
    (sourceStatements_append hlines).2 ⟨xs, ys, hxs, hys, rfl⟩
  refine ⟨Symbols.ofPlaced (place (xs ++ ys.map (SourceStatement.lower (lines a).length))), ?_⟩
  intro r
  simp only [assemble_eq_ok_iff, hread, Except.ok.injEq, exists_eq_left']
  exact hp.append_iff hq hdisjoint (lines a).length

/-- **Relocation.** A source behind another one, with no name in common, assembles exactly when the
slots to which it transfers control can be named behind the slots of the first. Then its bytes
follow those of the first, with the operands of its transfers increased and all others unchanged.
-/
theorem assemble_append {a b : String} {p q : Program} (hlines : WholeLines a)
    (hp : assemble a = .ok p) (hq : assemble b = .ok q)
    (hdisjoint : DisjointNames p.statements q.statements) :
    ((∃ r, assemble (a ++ b) = .ok r) ↔ q.Reaches p.slotCount) ∧
      ∀ r, assemble (a ++ b) = .ok r →
        r.bytes = p.bytes ++ q.raisedBytes p.slotCount ∧
          ∀ instruction ∈ q.instructions, instruction.statement.isTransfer →
            ∀ slot ∈ instruction.slots,
              (slot.raise p.slotCount).operand.toNat = slot.operand.toNat + p.slotCount := by
  obtain ⟨symbols, happend⟩ := exists_symbols_assemble_append hlines hp hq hdisjoint
  obtain ⟨source, -, hq⟩ := assemble_eq_ok_iff.1 hq
  constructor
  · rw [← hq.forall_fits_iff]
    constructor
    · rintro ⟨r, hr⟩
      exact ((happend r).1 hr).1
    · intro hfits
      exact ⟨_, (happend _).2 ⟨hfits, rfl⟩⟩
  · intro r hr
    obtain ⟨hfits, rfl⟩ := (happend r).1 hr
    constructor
    · simp only [Program.bytes, Program.slots, Program.raisedBytes, List.flatMap_append]
      rw [hq.flatMap_slots_move]
    · intro instruction hmem htransfer slot hslot
      obtain ⟨operand, hoperand⟩ := hq.exists_operand_of_isTransfer hmem htransfer
      exact Instruction.toNat_operand_raise (hfits instruction hmem) htransfer hoperand hslot

/-- A loop, and behind it a call, a jump of its own and one to a slot by number, which stays. -/
theorem assemble_append_loop :
    ∃ p q r, assemble "loop\n  JMP loop\n" = .ok p ∧
      assemble "  RUN greet\nend\n  JMP end\n  JMPV 3\ngreet\x7b\n\x7d" = .ok q ∧
      assemble ("loop\n  JMP loop\n" ++ "  RUN greet\nend\n  JMP end\n  JMPV 3\ngreet\x7b\n\x7d") =
        .ok r ∧
      DisjointNames p.statements q.statements ∧ q.Reaches p.slotCount ∧
      r.bytes = p.bytes ++ q.raisedBytes p.slotCount := by
  have hfirst : (assemble "loop\n  JMP loop\n").map Program.statements =
      .ok [.label "loop", .operation .jmp (some "loop")] := by decide +kernel
  have hsecond :
      (assemble "  RUN greet\nend\n  JMP end\n  JMPV 3\ngreet\x7b\n\x7d").map Program.statements =
      .ok [.operation .run (some "greet"), .label "end", .operation .jmp (some "end"),
        .operation .jmpv (some "3"), .opening "greet", .closing] := by decide +kernel
  have hboth : (assemble ("loop\n  JMP loop\n" ++
      "  RUN greet\nend\n  JMP end\n  JMPV 3\ngreet\x7b\n\x7d")).map Program.slotCount =
        .ok 9 := by decide +kernel
  obtain ⟨p, hp, hps⟩ := map_eq_ok_iff.1 hfirst
  obtain ⟨q, hq, hqs⟩ := map_eq_ok_iff.1 hsecond
  obtain ⟨r, hr, -⟩ := map_eq_ok_iff.1 hboth
  have hdisjoint : DisjointNames p.statements q.statements := by
    rw [hps, hqs]
    exact ⟨by decide, by decide, by decide⟩
  have hlines : WholeLines "loop\n  JMP loop\n" := Or.inr ⟨"loop\n  JMP loop", by decide⟩
  obtain ⟨hreaches, hbytes⟩ := assemble_append hlines hp hq hdisjoint
  exact ⟨p, q, r, hp, hq, hr, hdisjoint, hreaches.1 ⟨r, hr⟩, (hbytes r hr).1⟩

end Breadboard
