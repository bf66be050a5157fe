import Breadboard.Program.Assemble
import Breadboard.Proofs.Placement
import Breadboard.Proofs.Survey

/-!
# Resolution

What the third pass makes of an operand. The lemmas about `Symbols.jump`, `Symbols.call` and
`Symbols.value` say when an operand resolves, and to what, in terms of the tables; those about the
tables say what a look-up finds, in terms of the statements. In both, the order of definition and
use plays no part.
-/

namespace Breadboard

/-! ## Looking a name up -/

namespace SymbolTable

variable {α : Type}

/-- In a table without repeated names, a look-up finds the one symbol of the name. -/
theorem get?_eq_some_iff {table : SymbolTable α} (h : (table.symbols.map Symbol.name).Nodup)
    {name : String} {value : α} :
    table.get? name = some value ↔
      ∃ symbol ∈ table.symbols, symbol.name = name ∧ symbol.value = value := by
  rw [get?, Option.map_eq_some_iff]
  simp only [find?_eq_some_iff h, and_assoc]

theorem get?_eq_none_iff {table : SymbolTable α} {name : String} :
    table.get? name = none ↔ name ∉ table.symbols.map Symbol.name := by
  rw [get?, Option.map_eq_none_iff, find?_eq_none_iff]

/-- The names of a table and their values, without the lines. -/
def bindings (table : SymbolTable α) : List (String × α) :=
  table.symbols.map fun symbol => (symbol.name, symbol.value)

theorem get?_eq_of_bindings_eq {table other : SymbolTable α}
    (h : table.bindings = other.bindings) (name : String) : table.get? name = other.get? name := by
  have hfind : ∀ t : SymbolTable α,
      t.get? name = (t.bindings.find? fun binding => binding.1 == name).map Prod.snd := by
    intro t
    simp [get?, find?, bindings, List.find?_map, Function.comp_def]
  rw [hfind, hfind, h]

end SymbolTable

section
variable {placed : List Placed} {name : String}

/-- A name without definition among placed statements is not found. -/
theorem get?_filterMap_eq_none_iff {α : Type} {symbol? : Placed → Option (Symbol α)}
    {name? : Statement → Option String} (h : ∀ p, (symbol? p).map Symbol.name = name? p.statement)
    {kind : String} :
    (⟨kind, placed.filterMap symbol?⟩ : SymbolTable α).get? name = none ↔
      ∀ p ∈ placed, name? p.statement ≠ some name := by
  rw [SymbolTable.get?_eq_none_iff, names_filterMap h]
  simp [statementsOf, List.mem_filterMap]

theorem constants_get?_eq_some_iff (h : DistinctNames (statementsOf placed)) {value : UInt8} :
    (Symbols.ofPlaced placed).constants.get? name = some value ↔
      ∃ p ∈ placed, p.statement = .constant name value := by
  have hnodup := h.constants
  rw [constantNames, ← names_filterMap Placed.constant?_name placed] at hnodup
  rw [SymbolTable.get?_eq_some_iff hnodup]
  simp only [Symbols.ofPlaced, List.mem_filterMap]
  constructor
  · rintro ⟨symbol, ⟨p, hp, hsymbol⟩, rfl, rfl⟩
    refine ⟨p, hp, ?_⟩
    unfold Placed.constant? at hsymbol
    split at hsymbol
    · rename_i hs; cases hsymbol; exact hs
    · cases hsymbol
  · rintro ⟨p, hp, hs⟩
    exact ⟨⟨name, p.line.number, value⟩, ⟨p, hp, by simp [Placed.constant?, hs]⟩, rfl, rfl⟩

/-- A name that stands for a slot has the slot at which its statement starts. -/
theorem slots_get?_eq_some_iff {name? : Statement → Option String} {kind : String}
    (h : ((statementsOf placed).filterMap name?).Nodup) {slot : Nat} :
    (⟨kind, placed.filterMap (Placed.slotSymbol? name?)⟩ : SymbolTable Nat).get? name = some slot ↔
      ∃ p ∈ placed, name? p.statement = some name ∧ p.start = slot := by
  rw [← names_filterMap (Placed.slotSymbol?_name name?) placed] at h
  rw [SymbolTable.get?_eq_some_iff h]
  simp only [List.mem_filterMap, Placed.slotSymbol?, Option.map_eq_some_iff]
  constructor
  · rintro ⟨symbol, ⟨p, hp, n, hn, rfl⟩, rfl, rfl⟩
    exact ⟨p, hp, hn, rfl⟩
  · rintro ⟨p, hp, hn, rfl⟩
    exact ⟨⟨name, p.line.number, p.start⟩, ⟨p, hp, name, hn, rfl⟩, rfl, rfl⟩

theorem labels_get?_eq_some_iff (h : DistinctNames (statementsOf placed)) {slot : Nat} :
    (Symbols.ofPlaced placed).labels.get? name = some slot ↔
      ∃ p ∈ placed, p.statement = .label name ∧ p.start = slot := by
  simp only [← Statement.labelName?_eq_some_iff]
  exact slots_get?_eq_some_iff h.labels

theorem subroutines_get?_eq_some_iff (h : DistinctNames (statementsOf placed)) {slot : Nat} :
    (Symbols.ofPlaced placed).subroutines.get? name = some slot ↔
      ∃ p ∈ placed, p.statement = .opening name ∧ p.start = slot := by
  simp only [← Statement.openingName?_eq_some_iff]
  exact slots_get?_eq_some_iff h.openings

end

/-! ## Operands -/

theorem addressByte_eq_ok_iff {address : Nat} {value : UInt8} :
    addressByte address = .ok value ↔ address ≤ 255 ∧ value = UInt8.ofNat address := by
  unfold addressByte
  split
  · rename_i h
    simp only [Except.ok.injEq]
    exact ⟨fun hv => ⟨by omega, hv.symm⟩, fun hv => hv.2.symm⟩
  · rename_i h
    exact ⟨fun hv => (by cases hv), fun hv => absurd hv.1 (by omega)⟩

theorem addressByte_eq_error_iff {address : Nat} {fault : Fault} :
    addressByte address = .error fault ↔ 255 < address ∧ fault = .addressOverflow address := by
  unfold addressByte
  split
  · rename_i h
    exact ⟨nofun, fun hv => absurd hv.1 (by omega)⟩
  · rename_i h
    simp only [Except.error.injEq]
    exact ⟨fun hv => ⟨by omega, hv.symm⟩, fun hv => hv.2.symm⟩

namespace Symbols

variable {symbols : Symbols} {arg : String} {operand : Operand} {fault : Fault}

theorem jump_eq_ok_iff :
    symbols.jump arg = .ok operand ↔
      ∃ target, symbols.labels.get? arg = some target ∧ target ≤ 255 ∧
        operand = .byte (UInt8.ofNat target) := by
  unfold jump
  cases symbols.labels.get? arg with
  | none => simp
  | some target =>
    simp only [bind_eq_ok_iff, addressByte_eq_ok_iff, pure, Except.pure, Except.ok.injEq,
      Option.some.injEq]
    constructor
    · rintro ⟨value, ⟨hle, rfl⟩, rfl⟩
      exact ⟨target, rfl, hle, rfl⟩
    · rintro ⟨_, rfl, hle, rfl⟩
      exact ⟨_, ⟨hle, rfl⟩, rfl⟩

theorem jump_eq_error_iff :
    symbols.jump arg = .error fault ↔
      (symbols.labels.get? arg = none ∧ fault = .unknownLabel arg) ∨
        ∃ target, symbols.labels.get? arg = some target ∧ 255 < target ∧
          fault = .addressOverflow target := by
  unfold jump
  cases symbols.labels.get? arg with
  | none => simp [eq_comm]
  | some target =>
    simp only [bind_pure_eq_error_iff, addressByte_eq_error_iff, reduceCtorEq, false_and, false_or,
      Option.some.injEq, exists_eq_left']

theorem call_eq_ok_iff {start : Nat} :
    symbols.call start arg = .ok operand ↔
      ∃ target, symbols.subroutines.get? arg = some target ∧ target ≤ 255 ∧ start + 2 ≤ 255 ∧
        operand = .call (UInt8.ofNat (start + 2)) (UInt8.ofNat target) := by
  unfold call
  cases symbols.subroutines.get? arg with
  | none => simp
  | some target =>
    simp only [bind_eq_ok_iff, addressByte_eq_ok_iff, pure, Except.pure, Except.ok.injEq,
      Option.some.injEq]
    constructor
    · rintro ⟨ret, ⟨hret, rfl⟩, entry, ⟨hentry, rfl⟩, rfl⟩
      exact ⟨target, rfl, hentry, hret, rfl⟩
    · rintro ⟨_, rfl, hentry, hret, rfl⟩
      exact ⟨_, ⟨hret, rfl⟩, _, ⟨hentry, rfl⟩, rfl⟩

/-- The return slot of a call is looked at before its entry. -/
theorem call_eq_error_iff {start : Nat} :
    symbols.call start arg = .error fault ↔
      (symbols.subroutines.get? arg = none ∧ fault = .unknownSubroutine arg) ∨
        ∃ target, symbols.subroutines.get? arg = some target ∧
          ((255 < start + 2 ∧ fault = .addressOverflow (start + 2)) ∨
            (start + 2 ≤ 255 ∧ 255 < target ∧ fault = .addressOverflow target)) := by
  unfold call
  cases symbols.subroutines.get? arg with
  | none => simp [eq_comm]
  | some target =>
    simp only [bind_eq_error_iff (x := addressByte (start + 2)), bind_pure_eq_error_iff,
      addressByte_eq_error_iff, addressByte_eq_ok_iff, reduceCtorEq, false_and, false_or,
      Option.some.injEq, exists_eq_left', exists_and_right, and_assoc, exists_and_left,
      exists_eq, true_and]

/-- An operand starts with `$` and names a constant, or it does not. -/
theorem exists_eq_dollar_or (arg : String) :
    (∃ name, arg = "$" ++ name) ∨
      (arg.toList.head? ≠ some '$' ∧ ∀ name, arg ≠ "$" ++ name) := by
  by_cases h : arg.toList.head? = some '$'
  · obtain ⟨rest, hrest⟩ := List.head?_eq_some_iff.1 h
    refine Or.inl ⟨String.ofList rest, ?_⟩
    rw [← String.toList_inj, hrest]
    simp
  · refine Or.inr ⟨h, ?_⟩
    rintro name rfl
    simp at h

theorem value_dollar (symbols : Symbols) (name : String) :
    symbols.value ("$" ++ name) =
      (symbols.constants.get? name).elim (.error (.unknownConstant name)) (.ok <| .byte ·) := by
  have harg : ("$" ++ name).toList = '$' :: name.toList := by simp
  unfold value
  simp only [harg, String.ofList_toList]
  cases symbols.constants.get? name <;> rfl

theorem value_of_head?_ne (h : arg.toList.head? ≠ some '$') :
    symbols.value arg = (Literal.byte? arg).elim (.error (.badLiteral arg)) (.ok <| .byte ·) := by
  unfold value
  split
  · rename_i harg
    rw [harg] at h
    exact absurd rfl h
  · cases Literal.byte? arg <;> rfl

theorem value_eq_ok_iff :
    symbols.value arg = .ok operand ↔
      ∃ value, operand = .byte value ∧
        ((∃ name, arg = "$" ++ name ∧ symbols.constants.get? name = some value) ∨
          (arg.toList.head? ≠ some '$' ∧ Literal.byte? arg = some value)) := by
  rcases exists_eq_dollar_or arg with ⟨name, rfl⟩ | ⟨hhead, hname⟩
  · rw [value_dollar]
    cases hget : symbols.constants.get? name with
    | none => simp [hget]
    | some value => simp [hget, eq_comm]
  · rw [value_of_head?_ne hhead]
    cases Literal.byte? arg with
    | none => simp [hname]
    | some value => simp [hname, hhead, eq_comm]

theorem value_eq_error_iff :
    symbols.value arg = .error fault ↔
      (∃ name, arg = "$" ++ name ∧ symbols.constants.get? name = none ∧
        fault = .unknownConstant name) ∨
      (arg.toList.head? ≠ some '$' ∧ Literal.byte? arg = none ∧ fault = .badLiteral arg) := by
  rcases exists_eq_dollar_or arg with ⟨name, rfl⟩ | ⟨hhead, hname⟩
  · rw [value_dollar]
    cases hget : symbols.constants.get? name with
    | none => simp [hget, eq_comm]
    | some value => simp [hget]
  · rw [value_of_head?_ne hhead]
    cases Literal.byte? arg with
    | none => simp [hname, hhead, eq_comm]
    | some value => simp [hname]

end Symbols

namespace Placed

variable {symbols : Symbols} {p : Placed}

/-- A placed statement becomes an instruction when its operand resolves; nothing else changes. -/
theorem instruction_eq_ok_iff {instruction : Instruction} :
    p.instruction symbols = .ok instruction ↔
      p.operand? symbols = .ok instruction.operand? ∧
        instruction.toSourceStatement = p.toSourceStatement ∧ instruction.slot? = p.slot? := by
  unfold Placed.instruction
  obtain ⟨source, slot?, operand?⟩ := instruction
  cases p.operand? symbols with
  | error fault => simp
  | ok resolved? =>
    simp only [Except.ok.injEq, Instruction.mk.injEq]
    constructor
    · rintro ⟨rfl, rfl, rfl⟩
      exact ⟨rfl, rfl, rfl⟩
    · rintro ⟨rfl, rfl, rfl⟩
      exact ⟨rfl, rfl, rfl⟩

theorem operand?_of_operation {op : Opcode} {arg : String}
    (h : p.statement = .operation op (some arg)) :
    p.operand? symbols = (symbols.operand op p.start arg).map some := by
  simp [Placed.operand?, h]

theorem operand?_of_ne (h : ∀ op arg, p.statement ≠ .operation op (some arg)) :
    p.operand? symbols = .ok none := by
  unfold Placed.operand?
  split
  · rename_i op arg hs
    exact absurd hs (h op arg)
  · rfl

/-- A placed statement becomes an instruction unless it is an operation whose operand does not
resolve. -/
theorem exists_instruction_iff :
    (∃ instruction, p.instruction symbols = .ok instruction) ↔
      ∀ op arg, p.statement = .operation op (some arg) →
        ∃ operand, symbols.operand op p.start arg = .ok operand := by
  constructor
  · rintro ⟨instruction, h⟩ op arg hs
    have hop := (instruction_eq_ok_iff.1 h).1
    rw [operand?_of_operation hs] at hop
    obtain ⟨operand, hok, _⟩ := map_eq_ok_iff.1 hop
    exact ⟨operand, hok⟩
  · intro h
    have hop : ∃ operand?, p.operand? symbols = .ok operand? := by
      by_cases hs : ∃ op arg, p.statement = .operation op (some arg)
      · obtain ⟨op, arg, hs⟩ := hs
        obtain ⟨operand, hok⟩ := h op arg hs
        rw [operand?_of_operation hs]
        exact ⟨_, map_eq_ok_iff.2 ⟨operand, hok, rfl⟩⟩
      · exact ⟨_, operand?_of_ne fun op arg hs' => hs ⟨op, arg, hs'⟩⟩
    obtain ⟨operand?, hop⟩ := hop
    exact ⟨⟨p.toSourceStatement, p.slot?, operand?⟩, instruction_eq_ok_iff.2 ⟨hop, rfl, rfl⟩⟩

end Placed

end Breadboard
