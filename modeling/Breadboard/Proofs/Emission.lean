import Breadboard.Proofs.Assembly

/-!
# Layout and emission agree

The slot of an instruction is fixed by the widths of the statements before it, its bytes by the
operands that resolved later. The two agree because the reader gives an operand to exactly the
opcodes that need one, and resolution gives a call to exactly the calls
(`Assembled.operand_shape`): so an instruction is written in as many slots as are kept for it
(`Assembled.length_slots`). A program that does not come from a source need not have this property.
-/

namespace Breadboard

/-- The numbers of the slots that are kept for an instruction. -/
def Instruction.range (instruction : Instruction) : List Nat :=
  match instruction.slot? with
  | some start => List.range' start instruction.width
  | none => []

/-- The two bytes at slot `k` of a program are those of `slot`. -/
def Program.Holds (program : Program) (k : Nat) (slot : Slot) : Prop :=
  program.bytes[2 * k]? = some slot.opcode.byte ∧ program.bytes[2 * k + 1]? = some slot.operand

/-! ## Slots as bytes -/

theorem length_flatMap_bytes (slots : List Slot) :
    (slots.flatMap Slot.bytes).length = 2 * slots.length := by
  induction slots with
  | nil => rfl
  | cons slot rest ih =>
    simp only [List.flatMap_cons, List.length_append, ih, Slot.bytes, List.length_cons,
      List.length_nil]
    omega

theorem getElem?_flatMap_bytes : ∀ (slots : List Slot) (k : Nat),
    (slots.flatMap Slot.bytes)[2 * k]? = slots[k]?.map (fun slot => slot.opcode.byte) ∧
      (slots.flatMap Slot.bytes)[2 * k + 1]? = slots[k]?.map Slot.operand
  | [], _ => by simp
  | slot :: rest, 0 => by simp [Slot.bytes]
  | slot :: rest, k + 1 => by
    have h2 : 2 * (k + 1) = 2 * k + 2 := by omega
    have ih := getElem?_flatMap_bytes rest k
    simp only [List.flatMap_cons, Slot.bytes, List.cons_append, List.nil_append, h2,
      List.getElem?_cons_succ]
    exact ih

theorem Program.holds_of_getElem? {program : Program} {k : Nat} {slot : Slot}
    (h : program.slots[k]? = some slot) : program.Holds k slot := by
  obtain ⟨hop, harg⟩ := getElem?_flatMap_bytes program.slots k
  rw [h] at hop harg
  exact ⟨hop, harg⟩

/-- What an element of a list contributes stands behind what the elements before it do. -/
theorem getElem?_flatMap {α β : Type} (f : α → List β) : ∀ {xs : List α} {i k : Nat} {x : α},
    xs[i]? = some x → k < (f x).length →
      (xs.flatMap f)[((xs.take i).flatMap f).length + k]? = (f x)[k]?
  | [], i, k, x, hi, _ => by simp at hi
  | y :: ys, 0, k, x, hi, hk => by
    obtain rfl : y = x := by simpa using hi
    simp only [List.take_zero, List.flatMap_nil, List.length_nil, Nat.zero_add, List.flatMap_cons]
    exact List.getElem?_append_left hk
  | y :: ys, i + 1, k, x, hi, hk => by
    have ih : (ys.flatMap f)[((ys.take i).flatMap f).length + k]? = (f x)[k]? :=
      getElem?_flatMap f (by simpa using hi) hk
    simp only [List.take_succ_cons, List.flatMap_cons, List.length_append]
    rw [List.getElem?_append_right (by omega), ← ih]
    congr 1
    omega

/-! ## Shapes -/

theorem Symbols.operand_isCall_iff {symbols : Symbols} {op : Opcode} {start : Nat} {arg : String}
    {operand : Operand} (h : symbols.operand op start arg = .ok operand) :
    (∃ ret entry, operand = .call ret entry) ↔ op = .run := by
  have hvalue : symbols.value arg = .ok operand → ¬ ∃ ret entry, operand = .call ret entry := by
    intro hok
    obtain ⟨value, rfl, _⟩ := Symbols.value_eq_ok_iff.1 hok
    rintro ⟨_, _, hcall⟩
    cases hcall
  cases op with
  | jmp =>
    obtain ⟨target, _, _, rfl⟩ := Symbols.jump_eq_ok_iff.1 h
    simp
  | run =>
    obtain ⟨target, _, _, _, rfl⟩ := Symbols.call_eq_ok_iff.1 h
    simp
  | _ => simpa using hvalue h

theorem Statement.width_operation (op : Opcode) (arg? : Option String) :
    (Statement.operation op arg?).width = if op = .run then 2 else 1 := by
  cases op <;> rfl

theorem Statement.width_eq_zero_iff {s : Statement} :
    s.width = 0 ↔ ∃ name value, s = .constant name value := by
  cases s with
  | operation op arg? => rw [width_operation]; split <;> simp
  | _ => simp [width]

namespace Assembled

variable {source : List SourceStatement} {program : Program}

/-- An operation has an operand exactly when its opcode needs one, and it is a call exactly when the
opcode is. -/
theorem operand_shape (h : Assembled source program) {instruction : Instruction} {op : Opcode}
    {arg? : Option String} (hmem : instruction ∈ program.instructions)
    (hs : instruction.statement = .operation op arg?) :
    instruction.operand?.isSome = op.hasOperand ∧
      ∀ operand, instruction.operand? = some operand →
        ((∃ ret entry, operand = .call ret entry) ↔ op = .run) := by
  obtain ⟨i, hi⟩ := List.mem_iff_getElem?.1 hmem
  have hneeds : arg?.isSome = op.hasOperand :=
    h.shaped_statements op arg? (hs ▸ List.mem_map.2 ⟨instruction, hmem, rfl⟩)
  cases arg? with
  | none =>
    have hnone := h.operand?_eq_none hi (by simp [hs])
    rw [hnone]
    exact ⟨hneeds, nofun⟩
  | some arg =>
    obtain ⟨operand, hsome, hok⟩ := h.operand?_eq hi hs
    rw [hsome]
    refine ⟨hneeds, ?_⟩
    rintro _ ⟨⟩
    exact Symbols.operand_isCall_iff hok

/-- An instruction is written in as many slots as are kept for it. -/
theorem length_slots (h : Assembled source program) {instruction : Instruction}
    (hmem : instruction ∈ program.instructions) :
    instruction.slots.length = instruction.width := by
  cases hs : instruction.statement with
  | operation op arg? =>
    obtain ⟨hsome, hcall⟩ := h.operand_shape hmem hs
    simp only [Instruction.slots, Instruction.width, hs, Statement.width_operation]
    by_cases hrun : op = .run
    · obtain ⟨operand, hoperand⟩ := Option.isSome_iff_exists.1 (hsome.trans (by rw [hrun]; rfl))
      obtain ⟨ret, entry, rfl⟩ := (hcall operand hoperand).2 hrun
      simp [hoperand, hrun]
    · -- without a call, the operand is missing or one byte, and takes one slot
      have hnot : ∀ ret entry, instruction.operand? ≠ some (.call ret entry) :=
        fun ret entry hoperand => hrun ((hcall _ hoperand).1 ⟨ret, entry, rfl⟩)
      rw [if_neg hrun]
      split
      · rename_i ret entry hoperand
        exact absurd hoperand (hnot ret entry)
      · rfl
      · rfl
  | _ => simp [Instruction.slots, Instruction.width, hs, Statement.width]

/-! ## Slot ranges -/

theorem slotCount_eq (program : Program) : program.slotCount = extent program.statements := by
  rw [extent, Program.statements, List.foldr_map]
  rfl

theorem totalWidth_take (program : Program) (i : Nat) :
    Instruction.totalWidth (program.instructions.take i) = slotAt program.statements i := by
  rw [slotAt, extent, Program.statements, ← List.map_take, List.foldr_map]
  rfl

theorem flatMap_range_placeFrom (start : Nat) (source : List SourceStatement) :
    (placeFrom start source).flatMap (fun p => List.range' p.start p.statement.width) =
      List.range' start (extent (source.map SourceStatement.statement)) := by
  induction source generalizing start with
  | nil => rfl
  | cons s rest ih =>
    simp only [placeFrom_cons, List.flatMap_cons, ih, List.map_cons, extent_cons]
    exact List.range'_append_1

theorem flatMap_range (h : Assembled source program) :
    program.instructions.flatMap Instruction.range = List.range program.slotCount := by
  have hrange : ∀ (p : Placed) (instruction : Instruction),
      p.instruction program.symbols = .ok instruction →
      instruction.range = List.range' p.start p.statement.width := by
    intro p instruction hp
    obtain ⟨_, hsource, hslot⟩ := Placed.instruction_eq_ok_iff.1 hp
    unfold Instruction.range Instruction.width
    rw [hslot, hsource, Placed.slot?]
    by_cases hzero : p.statement.width = 0
    · simp [hzero]
    · simp [hzero]
  have hmap := map_eq_of_map_eq_ok hrange h.resolved
  rw [List.flatMap_def, hmap, ← List.flatMap_def, place, flatMap_range_placeFrom, slotCount_eq,
    h.statements_eq, List.range_eq_range']

/-! ## Bytes -/

theorem length_flatMap_slots_eq {instructions : List Instruction}
    (h : ∀ instruction ∈ instructions, instruction.slots.length = instruction.width) :
    (instructions.flatMap Instruction.slots).length = Instruction.totalWidth instructions := by
  induction instructions with
  | nil => rfl
  | cons first rest ih =>
    obtain ⟨hfirst, hrest⟩ := List.forall_mem_cons.1 h
    rw [List.flatMap_cons, List.length_append, hfirst, ih hrest]
    rfl

theorem length_flatMap_slots (h : Assembled source program) (i : Nat) :
    ((program.instructions.take i).flatMap Instruction.slots).length =
      slotAt program.statements i := by
  rw [← totalWidth_take]
  apply length_flatMap_slots_eq
  intro instruction hmem
  exact h.length_slots (List.mem_of_mem_take hmem)

theorem length_bytes (h : Assembled source program) :
    program.bytes.length = 2 * program.slotCount := by
  have hall := h.length_flatMap_slots program.instructions.length
  have hlen : program.statements.length = program.instructions.length := by
    simp [Program.statements]
  rw [List.take_length, slotAt, ← hlen, List.take_length, ← slotCount_eq] at hall
  rw [Program.bytes, length_flatMap_bytes, Program.slots, hall]

/-- The slots that are written for an instruction stand where it was placed. -/
theorem holds_slots (h : Assembled source program) {i k : Nat} {instruction : Instruction}
    {slot : Slot} (hi : program.instructions[i]? = some instruction)
    (hk : instruction.slots[k]? = some slot) :
    program.Holds (slotAt program.statements i + k) slot := by
  have hlt : k < instruction.slots.length := (List.getElem?_eq_some_iff.1 hk).1
  have hget := getElem?_flatMap Instruction.slots hi hlt
  rw [h.length_flatMap_slots, hk] at hget
  exact Program.holds_of_getElem? hget

end Assembled

/-! ## The image -/

theorem Image.ofBytes_of_le {bytes : List UInt8} {image : Image}
    (h : bytes.length ≤ Image.capacity) :
    Image.ofBytes bytes = .ok image ↔
      image.bytes = bytes ++ List.replicate (Image.capacity - bytes.length) Image.padding := by
  obtain ⟨content, hlen⟩ := image
  simp [Image.ofBytes, h, eq_comm]

theorem Image.ofBytes_of_lt {bytes : List UInt8} (h : Image.capacity < bytes.length) :
    Image.ofBytes bytes = .error (.imageOverflow bytes.length) := by
  simp [Image.ofBytes, Nat.not_le.2 h]

theorem Image.exists_ofBytes_iff {bytes : List UInt8} :
    (∃ image, Image.ofBytes bytes = .ok image) ↔ bytes.length ≤ Image.capacity := by
  unfold Image.ofBytes
  split <;> simp [*]

/-- Where the instructions of a program are placed, what is written for them, and what becomes of it
in the image. -/
structure Program.LaidOut (program : Program) : Prop where
  /-- Constants, and they alone, take no slot. -/
  slot?_eq_none_iff : ∀ instruction ∈ program.instructions,
    instruction.slot? = none ↔ ∃ name value, instruction.statement = .constant name value
  /-- All others start at the sum of the widths before them. -/
  slot?_eq_totalWidth : ∀ i instruction start, program.instructions[i]? = some instruction →
    instruction.slot? = some start →
      start = Instruction.totalWidth (program.instructions.take i)
  /-- An operand is there exactly when the opcode needs one, and is a call exactly when the opcode
  is. -/
  operand_shape : ∀ instruction ∈ program.instructions, ∀ op arg?,
    instruction.statement = .operation op arg? →
      instruction.operand?.isSome = op.hasOperand ∧
        ∀ operand, instruction.operand? = some operand →
          ((∃ ret entry, operand = .call ret entry) ↔ op = .run)
  length_slots : ∀ instruction ∈ program.instructions, instruction.slots.length = instruction.width
  /-- The ranges of slots follow each other without gap or overlap from zero to the end. -/
  flatMap_range : program.instructions.flatMap Instruction.range = List.range program.slotCount
  length_bytes : program.bytes.length = 2 * program.slotCount
  /-- What is written for an instruction stands at its slots. -/
  holds : ∀ instruction ∈ program.instructions, ∀ start, instruction.slot? = some start →
    ∀ k slot, instruction.slots[k]? = some slot → program.Holds (start + k) slot
  /-- The image holds up to 16384 slots. -/
  image_isOk_iff : (∃ image, program.image = .ok image) ↔ program.slotCount ≤ 16384
  image_bytes : ∀ image, program.image = .ok image → image.bytes.length = 32768 ∧
    image.bytes = program.bytes ++ List.replicate (32768 - 2 * program.slotCount) 0xFF
  image_overflow : 16384 < program.slotCount →
    program.image = .error (.imageOverflow (2 * program.slotCount))

/-- **Layout and emission agree** on every program that comes from a source. -/
theorem laidOut_of_assemble {source : String} {program : Program}
    (h : assemble source = .ok program) :
    program.LaidOut := by
  obtain ⟨statements, -, hprogram⟩ := assemble_eq_ok_iff.1 h
  have hlen := hprogram.length_bytes
  have hfits : program.bytes.length ≤ Image.capacity ↔ program.slotCount ≤ 16384 := by
    rw [hlen, Image.capacity]; omega
  constructor
  case slot?_eq_none_iff =>
    intro instruction hmem
    obtain ⟨i, hi⟩ := List.mem_iff_getElem?.1 hmem
    rw [hprogram.slot?_eq hi, ← Statement.width_eq_zero_iff]
    simp
  case slot?_eq_totalWidth =>
    intro i instruction start hi hstart
    rw [Assembled.totalWidth_take, hprogram.slotAt_eq hi hstart]
  case operand_shape =>
    intro instruction hmem op arg? hs
    exact hprogram.operand_shape hmem hs
  case length_slots => exact fun instruction hmem => hprogram.length_slots hmem
  case flatMap_range => exact hprogram.flatMap_range
  case length_bytes => exact hlen
  case holds =>
    intro instruction hmem start hstart k slot hk
    obtain ⟨i, hi⟩ := List.mem_iff_getElem?.1 hmem
    rw [← hprogram.slotAt_eq hi hstart]
    exact hprogram.holds_slots hi hk
  case image_isOk_iff => exact Image.exists_ofBytes_iff.trans hfits
  case image_bytes =>
    intro image himage
    have hle := Image.exists_ofBytes_iff.1 ⟨image, himage⟩
    have hbytes := (Image.ofBytes_of_le hle).1 himage
    rw [hlen] at hbytes
    exact ⟨image.length_bytes, hbytes⟩
  case image_overflow =>
    intro hlt
    rw [Program.image, Image.ofBytes_of_lt (by rw [hlen, Image.capacity]; omega), hlen]

/-- A call before the subroutine it names, a jump back and a constant. -/
theorem laidOut_forward_call :
    ∃ program,
      assemble "$FIVE 5\n  RUN greet\nloop\n  JMP loop\ngreet\x7b\n  LDAV $FIVE\n\x7d\n" = .ok program ∧
      program.slotCount = 7 ∧ program.LaidOut := by
  have hok :
      (assemble "$FIVE 5\n  RUN greet\nloop\n  JMP loop\ngreet\x7b\n  LDAV $FIVE\n\x7d\n").map
        Program.slotCount = .ok 7 := by decide +kernel
  obtain ⟨program, h, hcount⟩ := map_eq_ok_iff.1 hok
  exact ⟨program, h, hcount, laidOut_of_assemble h⟩

end Breadboard
