import Breadboard.Layout
import Breadboard.Proofs.Consistency
import Breadboard.Proofs.Fallible
import Mathlib.Data.List.Induction
import Mathlib.Data.List.Nodup

/-!
# The survey

The pass that fills the symbol tables. Its state after some statements depends on these statements
alone (`Survey.ofPlaced`): the tables hold their definitions in order, and the open subroutine is
that of the last mark. One step succeeds exactly when the statements so far admit the next one
(`Survey.step_eq_ok_iff`), so the pass succeeds exactly on consistent statements, and its tables
are the definitions of the source (`symbolsOf_eq_ok_iff`).
-/

namespace Breadboard

/-! ## What placed statements define -/

namespace Placed

/-- The definition of a constant, if a placed statement is one. -/
def constant? (p : Placed) : Option (Symbol UInt8) :=
  match p.statement with
  | .constant name value => some ⟨name, p.line.number, value⟩
  | _ => none

/-- The definition of a name that stands for the slot of its statement. -/
def slotSymbol? (name? : Statement → Option String) (p : Placed) : Option (Symbol Nat) :=
  (name? p.statement).map fun name => ⟨name, p.line.number, p.start⟩

def label? (p : Placed) : Option (Symbol Nat) :=
  p.slotSymbol? Statement.labelName?

def opening? (p : Placed) : Option (Symbol Nat) :=
  p.slotSymbol? Statement.openingName?

theorem constant?_name (p : Placed) : p.constant?.map Symbol.name = p.statement.constantName? := by
  unfold constant? Statement.constantName?
  cases p.statement <;> rfl

theorem slotSymbol?_name (name? : Statement → Option String) (p : Placed) :
    (p.slotSymbol? name?).map Symbol.name = name? p.statement := by
  simp [slotSymbol?, Function.comp_def]

end Placed

/-- The tables of the definitions of placed statements. -/
def Symbols.ofPlaced (placed : List Placed) : Symbols where
  constants := ⟨"constant", placed.filterMap Placed.constant?⟩
  labels := ⟨"label", placed.filterMap Placed.label?⟩
  subroutines := ⟨"subroutine", placed.filterMap Placed.opening?⟩

/-- The subroutine that is open after placed statements, with its line. -/
def openBody? (placed : List Placed) : Option (String × Line) :=
  (placed.filter fun p => p.statement.isMark).getLast?.bind fun p =>
    p.statement.openingName?.map (·, p.line)

/-- The state of the pass after placed statements. -/
def Survey.ofPlaced (placed : List Placed) : Survey :=
  ⟨Symbols.ofPlaced placed, openBody? placed⟩

/-- The statements of placed statements. -/
def statementsOf (placed : List Placed) : List Statement :=
  placed.map fun p => p.statement

theorem statementsOf_append (a b : List Placed) :
    statementsOf (a ++ b) = statementsOf a ++ statementsOf b := by
  simp [statementsOf]

theorem names_filterMap {α : Type} {symbol? : Placed → Option (Symbol α)}
    {name? : Statement → Option String} (h : ∀ p, (symbol? p).map Symbol.name = name? p.statement)
    (placed : List Placed) :
    (placed.filterMap symbol?).map Symbol.name = (statementsOf placed).filterMap name? := by
  rw [List.map_filterMap, statementsOf, List.filterMap_map]
  congr 1
  funext p
  exact h p

theorem isSome_openBody? (placed : List Placed) :
    (openBody? placed).isSome = isOpen (statementsOf placed) := by
  have hmarks : marks (statementsOf placed) =
      (placed.filter fun p => p.statement.isMark).map fun p => p.statement := List.filter_map
  unfold openBody? isOpen
  rw [hmarks, List.getLast?_map]
  cases (placed.filter fun p => p.statement.isMark).getLast? with
  | none => rfl
  | some p => simp

/-! ## One step -/

/-- A definition is accepted when its name is new, and goes to the end of the table. -/
theorem SymbolTable.insert_eq_ok_iff {α : Type} {table next : SymbolTable α} {symbol : Symbol α} :
    table.insert symbol = .ok next ↔
      symbol.name ∉ table.symbols.map Symbol.name ∧
        next = ⟨table.kind, table.symbols ++ [symbol]⟩ := by
  cases h : table.find? symbol.name with
  | none =>
    rw [insert_of_find?_eq_none h]
    have hnew := find?_eq_none_iff.1 h
    constructor
    · intro hok; cases hok; exact ⟨hnew, rfl⟩
    · rintro ⟨_, rfl⟩; rfl
  | some first =>
    rw [insert_of_find?_eq_some h]
    refine ⟨fun hok => (by cases hok), fun hnew => ?_⟩
    rw [find?_eq_none_iff.2 hnew.1] at h
    cases h

/-- In a table without repeated names, a name finds the one symbol that has it. -/
theorem SymbolTable.find?_eq_some_iff {α : Type} {table : SymbolTable α}
    (h : (table.symbols.map Symbol.name).Nodup) {name : String} {symbol : Symbol α} :
    table.find? name = some symbol ↔ symbol ∈ table.symbols ∧ symbol.name = name := by
  constructor
  · intro hfind
    exact ⟨List.mem_of_find?_eq_some hfind, by simpa using List.find?_some hfind⟩
  · rintro ⟨hmem, rfl⟩
    cases hfind : table.find? symbol.name with
    | none => exact absurd (List.mem_map_of_mem hmem) (find?_eq_none_iff.1 hfind)
    | some other =>
      have hname : other.name = symbol.name := by simpa using List.find?_some hfind
      rw [List.inj_on_of_nodup_map h (List.mem_of_find?_eq_some hfind) hmem hname]

/-- A definition is refused when its name has one, with the line of that one. -/
theorem SymbolTable.insert_eq_error_iff {α : Type} {table : SymbolTable α}
    (h : (table.symbols.map Symbol.name).Nodup) {symbol : Symbol α} {fault : Fault} :
    table.insert symbol = .error fault ↔
      ∃ first ∈ table.symbols, first.name = symbol.name ∧
        fault = .redefined table.kind symbol.name first.line := by
  constructor
  · intro herror
    cases hfind : table.find? symbol.name with
    | none =>
      rw [insert_of_find?_eq_none hfind] at herror
      cases herror
    | some first =>
      rw [insert_of_find?_eq_some hfind] at herror
      cases herror
      obtain ⟨hmem, hname⟩ := (find?_eq_some_iff h).1 hfind
      exact ⟨first, hmem, hname, rfl⟩
  · rintro ⟨first, hmem, hname, rfl⟩
    exact insert_of_find?_eq_some ((find?_eq_some_iff h).2 ⟨hmem, hname⟩)

theorem SymbolTable.insert_bind_eq_ok_iff {α β : Type} {table : SymbolTable α} {symbol : Symbol α}
    {f : SymbolTable α → β} {b : β} :
    (table.insert symbol >>= fun next => pure (f next)) = .ok b ↔
      symbol.name ∉ table.symbols.map Symbol.name ∧
        b = f ⟨table.kind, table.symbols ++ [symbol]⟩ := by
  rw [bind_eq_ok_iff]
  constructor
  · rintro ⟨next, hnext, hb⟩
    obtain ⟨hnew, rfl⟩ := insert_eq_ok_iff.1 hnext
    cases hb
    exact ⟨hnew, rfl⟩
  · rintro ⟨hnew, rfl⟩
    exact ⟨_, insert_eq_ok_iff.2 ⟨hnew, rfl⟩, rfl⟩

theorem openBody?_concat (placed : List Placed) (p : Placed) :
    openBody? (placed ++ [p]) =
      if p.statement.isMark then p.statement.openingName?.map (·, p.line)
      else openBody? placed := by
  unfold openBody?
  rw [List.filter_append]
  cases h : p.statement.isMark <;> simp [h]

theorem filterMap_singleton {α β : Type} (f : α → Option β) (a : α) :
    [a].filterMap f = (f a).toList := by
  cases h : f a <;> simp [h]

/-- The state after one more statement, whether or not it may come there. -/
def Survey.enter (survey : Survey) (p : Placed) : Survey :=
  let { symbols, body? } := survey
  match p.statement with
  | .constant name value =>
    ⟨{ symbols with
        constants := ⟨symbols.constants.kind,
          symbols.constants.symbols ++ [⟨name, p.line.number, value⟩]⟩ }, body?⟩
  | .label name =>
    ⟨{ symbols with
        labels := ⟨symbols.labels.kind,
          symbols.labels.symbols ++ [⟨name, p.line.number, p.start⟩]⟩ }, body?⟩
  | .operation _ _ => survey
  | .opening name =>
    ⟨{ symbols with
        subroutines := ⟨symbols.subroutines.kind,
          symbols.subroutines.symbols ++ [⟨name, p.line.number, p.start⟩]⟩ },
      some (name, p.line)⟩
  | .closing => ⟨symbols, none⟩

theorem Survey.ofPlaced_concat (placed : List Placed) (p : Placed) :
    Survey.ofPlaced (placed ++ [p]) = (Survey.ofPlaced placed).enter p := by
  obtain ⟨⟨line, s⟩, start⟩ := p
  simp only [Survey.ofPlaced, Symbols.ofPlaced, List.filterMap_append, filterMap_singleton,
    openBody?_concat]
  cases s <;> simp [Survey.enter, Placed.constant?, Placed.label?, Placed.opening?,
    Placed.slotSymbol?, Statement.labelName?, Statement.openingName?, Statement.isMark]

/-- A step succeeds exactly when the statements so far admit the next one. -/
theorem Survey.step_eq_ok_iff {placed : List Placed} {p : Placed} {next : Survey} :
    (Survey.ofPlaced placed).step p = .ok next ↔
      Admits (statementsOf placed) p.statement ∧ next = Survey.ofPlaced (placed ++ [p]) := by
  have hopen := isSome_openBody? placed
  rw [Survey.ofPlaced_concat]
  obtain ⟨⟨line, s⟩, start⟩ := p
  cases s with
  | constant name value =>
    rw [admits_constant_iff, constantNames, ← names_filterMap Placed.constant?_name placed]
    exact SymbolTable.insert_bind_eq_ok_iff
  | label name =>
    rw [admits_label_iff, labelNames,
      ← names_filterMap (Placed.slotSymbol?_name Statement.labelName?) placed]
    exact SymbolTable.insert_bind_eq_ok_iff
  | operation op arg? =>
    refine ⟨fun h => ⟨admits_operation, ?_⟩, fun h => ?_⟩
    · cases h; rfl
    · rw [h.2]; rfl
  | opening name =>
    rw [admits_opening_iff, openingNames,
      ← names_filterMap (Placed.slotSymbol?_name Statement.openingName?) placed, ← hopen]
    -- an open body is checked before the name
    cases hbody : openBody? placed with
    | none =>
      simp only [Survey.step, Survey.ofPlaced, hbody, Option.isSome_none, true_and]
      exact SymbolTable.insert_bind_eq_ok_iff
    | some body =>
      simp [Survey.step, Survey.ofPlaced, hbody]
  | closing =>
    rw [admits_closing_iff, ← hopen]
    cases hbody : openBody? placed with
    | none => simp [Survey.step, Survey.ofPlaced, hbody]
    | some body =>
      simp only [Survey.step, Survey.ofPlaced, Survey.enter, hbody, Option.isSome_some, true_and,
        pure, Except.pure, Except.ok.injEq]
      exact eq_comm

/-! ## The pass -/

/-- The pass over placed statements from a state on. -/
def Survey.run (survey : Survey) (placed : List Placed) : Except Diagnostic Survey :=
  placed.foldlM (fun survey p => (survey.step p).mapError (Diagnostic.atLine p.line)) survey

theorem symbolsOf_eq (placed : List Placed) :
    symbolsOf placed = Survey.run (Survey.ofPlaced []) placed >>= Survey.finish := rfl

theorem Survey.run_concat (survey : Survey) (placed : List Placed) (p : Placed) :
    survey.run (placed ++ [p]) =
      survey.run placed >>= fun before => (before.step p).mapError (Diagnostic.atLine p.line) := by
  simp [Survey.run, List.foldlM_append]

/-- The pass reaches the end of placed statements exactly when they are admissible. -/
theorem Survey.run_eq_ok_iff {placed : List Placed} {survey : Survey} :
    Survey.run (Survey.ofPlaced []) placed = .ok survey ↔
      Admissible (statementsOf placed) ∧ survey = Survey.ofPlaced placed := by
  -- on the end of the list: the state after a prefix is known, and the step adds one statement to it
  induction placed using List.reverseRecOn generalizing survey with
  | nil =>
    refine ⟨fun h => ⟨admissible_nil, ?_⟩, fun h => ?_⟩
    · cases h; rfl
    · rw [h.2]; rfl
  | append_singleton placed p ih =>
    have hone : statementsOf [p] = [p.statement] := rfl
    rw [Survey.run_concat, bind_eq_ok_iff, statementsOf_append, hone, admissible_concat_iff]
    constructor
    · rintro ⟨before, hbefore, hlast⟩
      obtain ⟨hadm, rfl⟩ := ih.1 hbefore
      obtain ⟨hadmits, rfl⟩ := Survey.step_eq_ok_iff.1 (mapError_eq_ok_iff.1 hlast)
      exact ⟨⟨hadm, hadmits⟩, rfl⟩
    · rintro ⟨⟨hadm, hadmits⟩, rfl⟩
      refine ⟨_, ih.2 ⟨hadm, rfl⟩, ?_⟩
      exact mapError_eq_ok_iff.2 (Survey.step_eq_ok_iff.2 ⟨hadmits, rfl⟩)

theorem Survey.finish_eq_ok_iff {survey : Survey} {symbols : Symbols} :
    survey.finish = .ok symbols ↔ survey.body? = none ∧ symbols = survey.symbols := by
  unfold Survey.finish
  cases survey.body? with
  | none => simp [eq_comm]
  | some body => simp

theorem Survey.finish_eq_error_iff {survey : Survey} {d : Diagnostic} :
    survey.finish = .error d ↔
      ∃ name line, survey.body? = some (name, line) ∧
        .atLine line (.unclosedSubroutine name) = d := by
  unfold Survey.finish
  cases survey.body? with
  | none => simp
  | some body => simp [Prod.ext_iff]

/-- The tables are filled exactly for consistent statements, with their definitions in order. -/
theorem symbolsOf_eq_ok_iff {placed : List Placed} {symbols : Symbols} :
    symbolsOf placed = .ok symbols ↔
      Consistent (statementsOf placed) ∧ symbols = Symbols.ofPlaced placed := by
  have hopen : openBody? placed = none ↔ isOpen (statementsOf placed) = false := by
    rw [← isSome_openBody?, Option.isSome_eq_false_iff, Option.isNone_iff_eq_none]
  rw [symbolsOf_eq, bind_eq_ok_iff, consistent_iff]
  constructor
  · rintro ⟨survey, hrun, hfinish⟩
    obtain ⟨hadm, rfl⟩ := Survey.run_eq_ok_iff.1 hrun
    obtain ⟨hbody, rfl⟩ := Survey.finish_eq_ok_iff.1 hfinish
    exact ⟨⟨hadm, hopen.1 hbody⟩, rfl⟩
  · rintro ⟨⟨hadm, hclosed⟩, rfl⟩
    exact ⟨_, Survey.run_eq_ok_iff.2 ⟨hadm, rfl⟩, Survey.finish_eq_ok_iff.2 ⟨hopen.2 hclosed, rfl⟩⟩

end Breadboard
