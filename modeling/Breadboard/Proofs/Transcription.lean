import Breadboard.Proofs.Assembly
import Mathlib.Logic.Embedding.Basic

/-!
# Other names and other lines

A name is only ever compared with other names of its kind, and a line is only ever shown. So a
source whose statements are written again, with other names and on other lines (`Transcription`),
has the outcome of the first source, with the other names and the other lines in it: the same
program, or the same fault at the line that stands for the first one.

Each function on the way from placed statements to a program is followed through a transcription,
and commutes with it: looking a name up and defining it, one step of the survey and the whole
survey, an operand, an instruction, and at the end the program (`Transcription.ofPlaced_map`).
Names have to stay different for this, and lines need not.
-/

namespace Breadboard

/-! ## Renaming -/

/-- New names for constants, for labels and for subroutines. Each kind is renamed for itself, and
different names stay different. -/
structure Renaming where
  constant : String ↪ String
  label : String ↪ String
  subroutine : String ↪ String

namespace Renaming

/-- All names stay. -/
def refl : Renaming :=
  ⟨.refl _, .refl _, .refl _⟩

variable (r : Renaming)

/-- An operand that is a byte: the name of a constant behind `$`, or a literal, which stays. -/
def value (arg : String) : String :=
  match arg.toList with
  | '$' :: name => "$" ++ r.constant (String.ofList name)
  | _ => arg

/-- The operand of an operation. -/
def arg (op : Opcode) (arg : String) : String :=
  match op with
  | .jmp => r.label arg
  | .run => r.subroutine arg
  | _ => r.value arg

/-- A statement with other names. -/
def statement : Statement → Statement
  | .constant name value => .constant (r.constant name) value
  | .label name => .label (r.label name)
  | .operation op arg? => .operation op (arg?.map (r.arg op))
  | .opening name => .opening (r.subroutine name)
  | .closing => .closing

theorem value_dollar (name : String) : r.value ("$" ++ name) = "$" ++ r.constant name := by
  simp [value]

theorem value_of_head?_ne {arg : String} (h : arg.toList.head? ≠ some '$') : r.value arg = arg := by
  unfold value
  split
  · rename_i hlist
    rw [hlist] at h
    exact absurd rfl h
  · rfl

@[simp] theorem width_statement (s : Statement) : (r.statement s).width = s.width := by
  cases s with
  | operation op arg? => cases op <;> rfl
  | _ => rfl

theorem value_refl (arg : String) : refl.value arg = arg := by
  rcases Symbols.exists_eq_dollar_or arg with ⟨name, rfl⟩ | ⟨hhead, -⟩
  · exact refl.value_dollar name
  · exact refl.value_of_head?_ne hhead

@[simp] theorem statement_refl (s : Statement) : refl.statement s = s := by
  cases s with
  | operation op arg? =>
    have harg : refl.arg op = id := by
      funext arg
      cases op with
      | jmp => rfl
      | run => rfl
      | _ => exact value_refl arg
    rw [statement, harg, Option.map_id_fun, id]
  | _ => rfl

end Renaming

/-! ## Transcriptions -/

/-- Statements written again: with other names, and what stood on line `n` on the line `line n`. -/
structure Transcription extends Renaming where
  line : Nat → Line

namespace Transcription

variable (t : Transcription)

/-- A definition, with its name changed by `rename`. -/
def symbol {α : Type} (rename : String ↪ String) (symbol : Symbol α) : Symbol α :=
  ⟨rename symbol.name, (t.line symbol.line).number, symbol.value⟩

def table {α : Type} (rename : String ↪ String) (table : SymbolTable α) : SymbolTable α :=
  ⟨table.kind, table.symbols.map (t.symbol rename)⟩

def symbols (symbols : Symbols) : Symbols where
  constants := t.table t.constant symbols.constants
  labels := t.table t.label symbols.labels
  subroutines := t.table t.subroutine symbols.subroutines

/-- The new names of a kind, by the word for the kind. -/
def ofKind (kind : String) : String ↪ String :=
  if kind = "constant" then t.constant
  else if kind = "label" then t.label
  else t.subroutine

def fault : Fault → Fault
  | .unknownConstant name => .unknownConstant (t.constant name)
  | .unknownLabel name => .unknownLabel (t.label name)
  | .unknownSubroutine name => .unknownSubroutine (t.subroutine name)
  | .nestedSubroutine outer inner => .nestedSubroutine (t.subroutine outer) (t.subroutine inner)
  | .unclosedSubroutine name => .unclosedSubroutine (t.subroutine name)
  | .redefined kind name first => .redefined kind (t.ofKind kind name) (t.line first).number
  | fault => fault

def diagnostic (d : Diagnostic) : Diagnostic :=
  ⟨t.fault d.fault, d.line?.map fun line => t.line line.number⟩

def sourceStatement (s : SourceStatement) : SourceStatement :=
  ⟨t.line s.line.number, t.statement s.statement⟩

def placed (p : Placed) : Placed :=
  ⟨t.sourceStatement p.toSourceStatement, p.start⟩

def survey (survey : Survey) : Survey :=
  ⟨t.symbols survey.symbols,
    survey.body?.map fun (name, line) => (t.subroutine name, t.line line.number)⟩

def instruction (instruction : Instruction) : Instruction :=
  ⟨t.sourceStatement instruction.toSourceStatement, instruction.slot?, instruction.operand?⟩

def program (program : Program) : Program :=
  ⟨program.instructions.map t.instruction, t.symbols program.symbols⟩

/-! ## Placing -/

theorem placeFrom_map (start : Nat) (statements : List SourceStatement) :
    placeFrom start (statements.map t.sourceStatement) =
      (placeFrom start statements).map t.placed := by
  induction statements generalizing start with
  | nil => rfl
  | cons s rest ih =>
    have hwidth : (t.sourceStatement s).statement.width = s.statement.width :=
      t.width_statement s.statement
    simp only [List.map_cons, placeFrom_cons, hwidth, ih]
    rfl

/-! ## Tables -/

section
variable {α : Type} (rename : String ↪ String) (table : SymbolTable α)

theorem find?_table (name : String) :
    (t.table rename table).find? (rename name) = (table.find? name).map (t.symbol rename) := by
  have hname : ∀ s : Symbol α, ((t.symbol rename s).name == rename name) = (s.name == name) := by
    intro s
    rw [Bool.eq_iff_iff, beq_iff_eq, beq_iff_eq]
    exact rename.apply_eq_iff_eq s.name name
  simp only [SymbolTable.find?, Transcription.table, List.find?_map, Function.comp_def, hname]

theorem get?_table (name : String) :
    (t.table rename table).get? (rename name) = table.get? name := by
  rw [SymbolTable.get?, find?_table, Option.map_map]
  rfl

theorem bindings_table :
    (t.table rename table).bindings = table.bindings.map (Prod.map rename id) := by
  simp [SymbolTable.bindings, Transcription.table, symbol]

/-- A definition is accepted or refused whatever its name and its line. -/
theorem insert_table (symbol : Symbol α) (hkind : t.ofKind table.kind = rename) :
    (t.table rename table).insert (t.symbol rename symbol) =
      translate t.fault (t.table rename) (table.insert symbol) := by
  have hfind := t.find?_table rename table symbol.name
  cases hfirst : table.find? symbol.name with
  | none =>
    rw [hfirst] at hfind
    rw [SymbolTable.insert_of_find?_eq_none hfirst, SymbolTable.insert_of_find?_eq_none hfind]
    simp [translate, Transcription.table]
  | some first =>
    rw [hfirst] at hfind
    rw [SymbolTable.insert_of_find?_eq_some hfirst, SymbolTable.insert_of_find?_eq_some hfind]
    simp [translate, fault, hkind, Transcription.table, Transcription.symbol]

end

/-! ## The survey -/

/-- One step: what is defined, opened or closed, and what is refused, does not depend on the names
and the lines. -/
theorem step_survey (placed : List Placed) (p : Placed) :
    (t.survey (Survey.ofPlaced placed)).step (t.placed p) =
      translate t.fault t.survey ((Survey.ofPlaced placed).step p) := by
  obtain ⟨⟨line, s⟩, start⟩ := p
  cases s with
  | constant name value =>
    have hinsert := t.insert_table t.constant (Symbols.ofPlaced placed).constants
      ⟨name, line.number, value⟩ rfl
    exact (congrArg (· >>= _) hinsert).trans (translate_bind fun _ _ => rfl)
  | label name =>
    have hinsert := t.insert_table t.label (Symbols.ofPlaced placed).labels
      ⟨name, line.number, start⟩ rfl
    exact (congrArg (· >>= _) hinsert).trans (translate_bind fun _ _ => rfl)
  | operation op arg? => rfl
  | opening name =>
    simp only [Survey.step, Survey.ofPlaced, survey, Transcription.placed, sourceStatement,
      Renaming.statement]
    cases openBody? placed with
    | none =>
      have hinsert := t.insert_table t.subroutine (Symbols.ofPlaced placed).subroutines
        ⟨name, line.number, start⟩ rfl
      exact (congrArg (· >>= _) hinsert).trans (translate_bind fun _ _ => rfl)
    | some body => rfl
  | closing =>
    simp only [Survey.step, Survey.ofPlaced, survey, Transcription.placed, sourceStatement,
      Renaming.statement]
    cases openBody? placed with
    | none => rfl
    | some body => rfl

theorem run_survey (placed : List Placed) :
    Survey.run (Survey.ofPlaced []) (placed.map t.placed) =
      translate t.diagnostic t.survey (Survey.run (Survey.ofPlaced []) placed) := by
  induction placed using List.reverseRecOn with
  | nil => rfl
  | append_singleton placed p ih =>
    rw [List.map_append, List.map_singleton, Survey.run_concat, Survey.run_concat, ih]
    apply translate_bind
    intro survey hrun
    obtain ⟨-, rfl⟩ := Survey.run_eq_ok_iff.1 hrun
    rw [t.step_survey]
    cases (Survey.ofPlaced placed).step p with
    | error fault => rfl
    | ok next => rfl

theorem finish_survey (survey : Survey) :
    (t.survey survey).finish = translate t.diagnostic t.symbols survey.finish := by
  simp only [Survey.finish, Transcription.survey]
  cases survey.body? with
  | none => rfl
  | some body => rfl

theorem symbolsOf_map (placed : List Placed) :
    symbolsOf (placed.map t.placed) = translate t.diagnostic t.symbols (symbolsOf placed) := by
  rw [symbolsOf_eq, symbolsOf_eq, t.run_survey]
  exact translate_bind fun survey _ => t.finish_survey survey

/-! ## Operands -/

section
variable (symbols : Symbols) (start : Nat) (arg : String)

theorem jump_symbols :
    (t.symbols symbols).jump (t.label arg) = translate t.fault id (symbols.jump arg) := by
  have hget : (t.symbols symbols).labels.get? (t.label arg) = symbols.labels.get? arg :=
    t.get?_table t.label symbols.labels arg
  unfold Symbols.jump
  rw [hget]
  cases symbols.labels.get? arg with
  | none => rfl
  | some target =>
    simp only [addressByte]
    split <;> rfl

theorem call_symbols :
    (t.symbols symbols).call start (t.subroutine arg) =
      translate t.fault id (symbols.call start arg) := by
  have hget : (t.symbols symbols).subroutines.get? (t.subroutine arg) =
      symbols.subroutines.get? arg := t.get?_table t.subroutine symbols.subroutines arg
  unfold Symbols.call
  rw [hget]
  cases symbols.subroutines.get? arg with
  | none => rfl
  | some target =>
    simp only [addressByte]
    split
    · split <;> rfl
    · rfl

theorem value_symbols :
    (t.symbols symbols).value (t.value arg) = translate t.fault id (symbols.value arg) := by
  rcases Symbols.exists_eq_dollar_or arg with ⟨name, rfl⟩ | ⟨hhead, -⟩
  · have hget : (t.symbols symbols).constants.get? (t.constant name) =
        symbols.constants.get? name := t.get?_table t.constant symbols.constants name
    rw [Renaming.value_dollar, Symbols.value_dollar, Symbols.value_dollar, hget]
    cases symbols.constants.get? name <;> rfl
  · rw [Renaming.value_of_head?_ne _ hhead, Symbols.value_of_head?_ne hhead,
      Symbols.value_of_head?_ne hhead]
    cases Literal.byte? arg <;> rfl

/-- An operand has the same value whatever it is called. -/
theorem operand_symbols (op : Opcode) :
    (t.symbols symbols).operand op start (t.arg op arg) =
      translate t.fault id (symbols.operand op start arg) := by
  cases op with
  | jmp => exact t.jump_symbols symbols arg
  | run => exact t.call_symbols symbols start arg
  | _ => exact t.value_symbols symbols arg

end

theorem operand?_placed (symbols : Symbols) (p : Placed) :
    (t.placed p).operand? (t.symbols symbols) = translate t.fault id (p.operand? symbols) := by
  obtain ⟨⟨line, s⟩, start⟩ := p
  cases s with
  | operation op arg? =>
    cases arg? with
    | none => rfl
    | some arg =>
      have hoperand := t.operand_symbols symbols start arg op
      simp only [Placed.operand?, Transcription.placed, sourceStatement, Renaming.statement,
        Option.map_some, hoperand]
      cases symbols.operand op start arg <;> rfl
  | _ => rfl

theorem instruction_placed (symbols : Symbols) (p : Placed) :
    (t.placed p).instruction (t.symbols symbols) =
      translate t.diagnostic t.instruction (p.instruction symbols) := by
  have hslot : (t.placed p).slot? = p.slot? := by
    simp only [Placed.slot?, Transcription.placed, sourceStatement, Renaming.width_statement]
  unfold Placed.instruction
  rw [operand?_placed, hslot]
  cases p.operand? symbols <;> rfl

/-! ## Programs -/

theorem ofPlaced_map (placed : List Placed) :
    Program.ofPlaced (placed.map t.placed) =
      translate t.diagnostic t.program (Program.ofPlaced placed) := by
  unfold Program.ofPlaced
  rw [t.symbolsOf_map]
  apply translate_bind
  intro symbols _
  rw [mapM_map_translate fun p _ => t.instruction_placed symbols p]
  exact translate_bind fun instructions _ => rfl

/-- A source that is read as the statements of another one, written again, has the outcome of the
other one, written again. -/
theorem assemble_eq {a b : String}
    (h : sourceStatements b =
      translate t.diagnostic (List.map t.sourceStatement) (sourceStatements a)) :
    assemble b = translate t.diagnostic t.program (assemble a) := by
  unfold assemble
  rw [h]
  apply translate_bind
  intro statements _
  rw [place, t.placeFrom_map]
  exact t.ofPlaced_map (place statements)

@[simp] theorem statement_instruction (instruction : Instruction) :
    (t.instruction instruction).statement = t.statement instruction.statement := rfl

@[simp] theorem slot?_instruction (instruction : Instruction) :
    (t.instruction instruction).slot? = instruction.slot? := rfl

@[simp] theorem operand?_instruction (instruction : Instruction) :
    (t.instruction instruction).operand? = instruction.operand? := rfl

theorem slots_instruction (instruction : Instruction) :
    (t.instruction instruction).slots = instruction.slots := by
  obtain ⟨⟨line, s⟩, slot?, operand?⟩ := instruction
  cases s <;> rfl

theorem bytes_program (program : Program) : (t.program program).bytes = program.bytes := by
  simp only [Program.bytes, Program.slots, Transcription.program, List.flatMap_map,
    slots_instruction]

end Transcription

/-! ## The lines of a source -/

theorem nodup_number_lines (source : String) : ((lines source).map Line.number).Nodup :=
  List.pairwise_map.2 ((pairwise_number_lines source).imp Nat.ne_of_lt)

/-- The statements of a source stand on different lines. -/
theorem nodup_number_sourceStatements {source : String} {statements : List SourceStatement}
    (h : sourceStatements source = .ok statements) :
    (statements.map fun s => s.line.number).Nodup :=
  List.pairwise_map.2 ((pairwise_number_sourceStatements h).imp Nat.ne_of_lt)

/-- Elements with different keys can be sent to any other elements, by their keys. -/
theorem exists_map_key_eq {α β κ : Type} [DecidableEq κ] [Nonempty β] {key : α → κ} :
    ∀ {xs : List α} {ys : List β}, xs.length = ys.length → (xs.map key).Nodup →
      ∃ f : κ → β, ys = xs.map fun x => f (key x)
  | [], [], _, _ => ⟨fun _ => Classical.ofNonempty, rfl⟩
  | x :: xs, y :: ys, hlen, hnodup => by
    obtain ⟨hx, hxs⟩ := List.nodup_cons.1 hnodup
    obtain ⟨f, rfl⟩ := exists_map_key_eq (by simpa using hlen) hxs
    refine ⟨Function.update f (key x) y, ?_⟩
    rw [List.map_cons, Function.update_self]
    congr 1
    refine List.map_congr_left fun z hz => (Function.update_of_ne ?_ _ _).symm
    intro heq
    exact hx (heq ▸ List.mem_map_of_mem hz)

/-- Statements with the names changed are the statements written again. -/
theorem exists_transcription (r : Renaming) {xs ys : List SourceStatement}
    (hnodup : (xs.map fun s => s.line.number).Nodup)
    (h : ys.map SourceStatement.statement =
      (xs.map SourceStatement.statement).map r.statement) :
    ∃ t : Transcription, t.toRenaming = r ∧ ys = xs.map t.sourceStatement := by
  have : Nonempty SourceStatement := ⟨⟨⟨0, ""⟩, .closing⟩⟩
  have hlen : xs.length = ys.length := by simpa using (congrArg List.length h).symm
  obtain ⟨f, rfl⟩ := exists_map_key_eq hlen hnodup
  refine ⟨⟨r, fun n => (f n).line⟩, rfl, List.map_congr_left fun x hx => ?_⟩
  rw [List.map_map, List.map_map, List.map_inj_left] at h
  have hstatement : (f x.line.number).statement = r.statement x.statement := h x hx
  rw [Transcription.sourceStatement, ← hstatement]

/-! ## Renamed sources -/

/-- A program under other names: the same slots, operands and bytes, and the same definitions in the
same order with the names of each kind changed for themselves. -/
structure Program.Renamed (r : Renaming) (program renamed : Program) : Prop where
  statements : renamed.statements = program.statements.map r.statement
  slots : renamed.instructions.map Instruction.slot? = program.instructions.map Instruction.slot?
  operands :
    renamed.instructions.map Instruction.operand? = program.instructions.map Instruction.operand?
  constants : renamed.symbols.constants.bindings =
    program.symbols.constants.bindings.map (Prod.map r.constant id)
  labels : renamed.symbols.labels.bindings =
    program.symbols.labels.bindings.map (Prod.map r.label id)
  subroutines : renamed.symbols.subroutines.bindings =
    program.symbols.subroutines.bindings.map (Prod.map r.subroutine id)
  bytes : renamed.bytes = program.bytes

theorem Transcription.renamed_program (t : Transcription) (program : Program) :
    program.Renamed t.toRenaming (t.program program) := by
  constructor
  case statements => simp [Program.statements, Transcription.program]
  case slots => simp [Transcription.program]
  case operands => simp [Transcription.program]
  case constants => exact t.bindings_table t.constant program.symbols.constants
  case labels => exact t.bindings_table t.label program.symbols.labels
  case subroutines => exact t.bindings_table t.subroutine program.symbols.subroutines
  case bytes => exact t.bytes_program program

/-- Two programs that differ in nothing but their lines. -/
structure Program.Agrees (program other : Program) : Prop where
  statements : other.statements = program.statements
  slots : other.instructions.map Instruction.slot? = program.instructions.map Instruction.slot?
  operands :
    other.instructions.map Instruction.operand? = program.instructions.map Instruction.operand?
  constants : other.symbols.constants.bindings = program.symbols.constants.bindings
  labels : other.symbols.labels.bindings = program.symbols.labels.bindings
  subroutines : other.symbols.subroutines.bindings = program.symbols.subroutines.bindings
  bytes : other.bytes = program.bytes

/-- Where all names stay, programs differ in nothing but their lines. -/
theorem Program.Renamed.agrees {program other : Program} (h : program.Renamed .refl other) :
    program.Agrees other := by
  have hstatement : Renaming.refl.statement = id := funext Renaming.statement_refl
  have hpair : ∀ α : Type, Prod.map (Function.Embedding.refl String) (id : α → α) = id :=
    fun _ => rfl
  constructor
  case statements => rw [h.statements, hstatement, List.map_id]
  case slots => exact h.slots
  case operands => exact h.operands
  case constants => rw [h.constants, Renaming.refl, hpair, List.map_id]
  case labels => rw [h.labels, Renaming.refl, hpair, List.map_id]
  case subroutines => rw [h.subroutines, Renaming.refl, hpair, List.map_id]
  case bytes => exact h.bytes

/-- **Names do not matter.** Of two sources whose statements differ in the names alone, each kind of
names changed for itself, both assemble or neither does; the programs differ in the names alone. -/
theorem assemble_rename (r : Renaming) {a b : String}
    (ha : ∀ line ∈ lines a, ∃ statement?, line.statement? = .ok statement?)
    (hb : ∀ line ∈ lines b, ∃ statement?, line.statement? = .ok statement?)
    (h : readings b = (readings a).map r.statement) :
    ((∃ p, assemble a = .ok p) ↔ ∃ q, assemble b = .ok q) ∧
      ∀ p q, assemble a = .ok p → assemble b = .ok q → p.Renamed r q := by
  have hreada := sourceStatements_eq_ok_iff.2 ⟨ha, rfl⟩
  have hreadb := sourceStatements_eq_ok_iff.2 ⟨hb, rfl⟩
  rw [← map_statement_sourceStatements hreada, ← map_statement_sourceStatements hreadb] at h
  obtain ⟨t, rfl, hstatements⟩ :=
    exists_transcription r (nodup_number_sourceStatements hreada) h
  have houtcome : assemble b = translate t.diagnostic t.program (assemble a) := by
    apply t.assemble_eq
    rw [hreada, hreadb, hstatements]
    rfl
  refine ⟨?_, fun p q hp hq => ?_⟩
  · rw [houtcome]
    simp only [translate_eq_ok_iff]
    constructor
    · rintro ⟨p, hp⟩
      exact ⟨_, p, hp, rfl⟩
    · rintro ⟨_, p, hp, -⟩
      exact ⟨p, hp⟩
  · rw [houtcome, hp] at hq
    obtain rfl : t.program p = q := Except.ok.inj hq
    exact t.renamed_program p

/-- A constant, a label and a subroutine of one name, of which the label is renamed. -/
theorem assemble_rename_label :
    ∃ (r : Renaming) (p q : Program),
      r.constant "x" = "x" ∧ r.label "x" = "y-x" ∧ r.subroutine "x" = "x" ∧
      assemble "$x 1\nx\n  JMP x\n  RUN x\nx\x7b\n  LDAV $x\n\x7d\n" = .ok p ∧
      assemble "$x 1\n\ny-x # renamed\n  JMP y-x\n  RUN x\nx\x7b\n  LDAV $x\n\x7d\n" = .ok q ∧
      q.symbols.constants.bindings = [("x", 1)] ∧ q.symbols.labels.bindings = [("y-x", 0)] ∧
      q.symbols.subroutines.bindings = [("x", 4)] ∧ q.slotCount = 7 ∧ p.Renamed r q := by
  have hfirst : (assemble "$x 1\nx\n  JMP x\n  RUN x\nx\x7b\n  LDAV $x\n\x7d\n").map
      Program.slotCount = .ok 7 := by decide +kernel
  have hsecond :
      (assemble "$x 1\n\ny-x # renamed\n  JMP y-x\n  RUN x\nx\x7b\n  LDAV $x\n\x7d\n").map
        (fun q => (q.symbols.constants.bindings, q.symbols.labels.bindings,
          q.symbols.subroutines.bindings, q.slotCount)) =
      .ok ([("x", 1)], [("y-x", 0)], [("x", 4)], 7) := by decide +kernel
  obtain ⟨p, hp, -⟩ := map_eq_ok_iff.1 hfirst
  obtain ⟨q, hq, heq⟩ := map_eq_ok_iff.1 hsecond
  simp only [Prod.mk.injEq] at heq
  obtain ⟨hconstants, hlabels, hsubroutines, hcount⟩ := heq
  obtain ⟨_, hreadp, -⟩ := assemble_eq_ok_iff.1 hp
  obtain ⟨_, hreadq, -⟩ := assemble_eq_ok_iff.1 hq
  have hrenamed := assemble_rename
    ⟨.refl _, ⟨("y-" ++ ·), fun m n hmn => by simpa using hmn⟩, .refl _⟩
    (sourceStatements_eq_ok_iff.1 hreadp).1 (sourceStatements_eq_ok_iff.1 hreadq).1
    (by decide +kernel)
  exact ⟨_, p, q, rfl, rfl, rfl, hp, hq, hconstants, hlabels, hsubroutines, hcount,
    hrenamed.2 p q hp hq⟩

end Breadboard
