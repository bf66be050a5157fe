import Breadboard.Proofs.Resolution
import Mathlib.Data.Finset.Card

/-!
# The history of a table

What a table shows is a function of the definitions that were tried on it, accepted or not. The
first definition of each name stands, and the table lists these in the order in which they came
(`after_eq`). A look-up in the table is a look-up in the whole history, since later definitions of a
name are behind its first (`find?_firstDefinitions`). All that a table answers follows from these two
(`remembers_ofHistory`), at any point of a sequence of definitions and reads (`remembers_after`).
-/

namespace Breadboard

namespace SymbolTable

variable {α : Type}

/-! ## Calls -/

/-- A call on a table: a definition, or one of the reads. -/
inductive Call (α : Type) where
  | insert (symbol : Symbol α)
  | get (name : String)
  | size
  | isEmpty
  | list

/-- The definition that a call tries. -/
def Call.definition? : Call α → Option (Symbol α)
  | insert symbol => some symbol
  | get _ | size | isEmpty | list => none

/-- The definitions that were tried in a sequence of calls. -/
def tried (calls : List (Call α)) : List (Symbol α) :=
  calls.filterMap Call.definition?

/-- What a call gives back. -/
inductive Answer (α : Type) where
  | inserted
  | refused (fault : Fault)
  | value (value? : Option α)
  | count (size : Nat)
  | truth (holds : Bool)
  | listed (symbols : List (Symbol α))

/-- The answer to a call, and the table that it leaves. -/
def call (table : SymbolTable α) : Call α → Answer α × SymbolTable α
  | .insert symbol =>
    match table.insert symbol with
    | .ok larger => (.inserted, larger)
    | .error fault => (.refused fault, table)
  | .get name => (.value (table.get? name), table)
  | .size => (.count table.size, table)
  | .isEmpty => (.truth table.isEmpty, table)
  | .list => (.listed table.symbols, table)

/-- The answers to a sequence of calls. -/
def answers (table : SymbolTable α) : List (Call α) → List (Answer α)
  | [] => []
  | c :: calls => (table.call c).1 :: (table.call c).2.answers calls

/-- The table that a sequence of calls leaves. -/
def after (table : SymbolTable α) (calls : List (Call α)) : SymbolTable α :=
  calls.foldl (fun table c => (table.call c).2) table

/-- Each call is answered from the table that the calls before it leave. -/
theorem getElem?_answers (table : SymbolTable α) (calls : List (Call α)) (i : Nat) :
    (table.answers calls)[i]? = calls[i]?.map fun c => ((table.after (calls.take i)).call c).1 := by
  induction calls generalizing table i with
  | nil => rfl
  | cons c calls ih =>
    cases i with
    | zero => rfl
    | succ i =>
      simp only [answers, List.getElem?_cons_succ, List.take_succ_cons, after, List.foldl_cons]
      exact ih (table.call c).2 i

/-! ## First definitions -/

/-- The first definition of a name in a history. -/
def IsFirst (history : List (Symbol α)) (name : String) (first : Symbol α) : Prop :=
  first.name = name ∧ ∃ before later, history = before ++ first :: later ∧
    ∀ symbol ∈ before, symbol.name ≠ name

theorem IsFirst.name_mem {history : List (Symbol α)} {name : String} {first : Symbol α}
    (h : IsFirst history name first) : name ∈ history.map Symbol.name := by
  obtain ⟨rfl, before, later, rfl, -⟩ := h
  simp

/-- The definitions of a history whose names have no definition before them. -/
def firstDefinitions (history : List (Symbol α)) : List (Symbol α) :=
  (history.zipIdx.filter fun entry =>
    entry.1.name ∉ (history.take entry.2).map Symbol.name).map Prod.fst

theorem isFirst_iff {history : List (Symbol α)} {name : String} {first : Symbol α} :
    IsFirst history name first ↔
      (history.find? fun symbol => symbol.name == name) = some first := by
  rw [List.find?_eq_some_iff_append, IsFirst]
  simp

/-- One more definition is a first one when its name is new. -/
theorem firstDefinitions_concat (history : List (Symbol α)) (symbol : Symbol α) :
    firstDefinitions (history ++ [symbol]) =
      if symbol.name ∈ history.map Symbol.name then firstDefinitions history
      else firstDefinitions history ++ [symbol] := by
  have hbefore : (history.zipIdx.filter fun entry =>
      entry.1.name ∉ ((history ++ [symbol]).take entry.2).map Symbol.name) =
        history.zipIdx.filter fun entry =>
          entry.1.name ∉ (history.take entry.2).map Symbol.name := by
    apply List.filter_congr
    intro entry hmem
    have hlt : entry.2 < history.length := by simpa using List.snd_lt_of_mem_zipIdx hmem
    rw [List.take_append_of_le_length hlt.le]
  rw [firstDefinitions, List.zipIdx_append, List.filter_append, hbefore, List.map_append,
    ← firstDefinitions]
  by_cases hmem : symbol.name ∈ history.map Symbol.name
  · simp [hmem]
  · simp [hmem]

/-- A name is found in the history where it is found among the first definitions. -/
theorem find?_firstDefinitions (history : List (Symbol α)) (name : String) :
    ((firstDefinitions history).find? fun symbol => symbol.name == name) =
      history.find? fun symbol => symbol.name == name := by
  induction history using List.reverseRecOn with
  | nil => rfl
  | append_singleton history symbol ih =>
    rw [firstDefinitions_concat, List.find?_append, ← ih]
    split
    · -- a later definition is not reached, since its name is found before
      rename_i hmem
      cases hfind : (firstDefinitions history).find? fun symbol => symbol.name == name with
      | some first => rfl
      | none =>
        rw [ih, List.find?_eq_none] at hfind
        obtain ⟨first, hfirst, hname⟩ := List.mem_map.1 hmem
        have hne := hfind first hfirst
        simp [← hname, hne]
    · rw [List.find?_append]

theorem mem_map_name_firstDefinitions {history : List (Symbol α)} {name : String} :
    name ∈ (firstDefinitions history).map Symbol.name ↔ name ∈ history.map Symbol.name := by
  have hnone : ((firstDefinitions history).find? fun symbol => symbol.name == name) = none ↔
      (history.find? fun symbol => symbol.name == name) = none := by
    rw [find?_firstDefinitions]
  rw [← not_iff_not]
  simpa using hnone

theorem nodup_firstDefinitions (history : List (Symbol α)) :
    ((firstDefinitions history).map Symbol.name).Nodup := by
  induction history using List.reverseRecOn with
  | nil => exact List.nodup_nil
  | append_singleton history symbol ih =>
    rw [firstDefinitions_concat]
    split
    · exact ih
    · rename_i hnew
      rw [← mem_map_name_firstDefinitions] at hnew
      rw [List.map_append, List.map_singleton, List.nodup_append]
      exact ⟨ih, List.nodup_singleton _, by simpa using hnew⟩

/-! ## The table of a history -/

/-- The table of the first definitions of a history. -/
def ofHistory (kind : String) (history : List (Symbol α)) : SymbolTable α :=
  ⟨kind, firstDefinitions history⟩

section
variable {kind : String} {history : List (Symbol α)}

theorem find?_ofHistory_eq_some_iff {name : String} {first : Symbol α} :
    (ofHistory kind history).find? name = some first ↔ IsFirst history name first := by
  rw [isFirst_iff, ← find?_firstDefinitions]
  rfl

theorem find?_ofHistory_eq_none_iff {name : String} :
    (ofHistory kind history).find? name = none ↔ name ∉ history.map Symbol.name := by
  rw [find?_eq_none_iff, ofHistory, mem_map_name_firstDefinitions]

/-- A definition with a new name goes into the table; any other one is refused with the line on
which its name was tried first. -/
theorem insert_ofHistory_cases (kind : String) (history : List (Symbol α)) (symbol : Symbol α) :
    (symbol.name ∉ history.map Symbol.name ∧
      (ofHistory kind history).insert symbol = .ok (ofHistory kind (history ++ [symbol]))) ∨
    ∃ first, IsFirst history symbol.name first ∧
      (ofHistory kind history).insert symbol =
        .error (.redefined kind symbol.name first.line) := by
  cases hfind : (ofHistory kind history).find? symbol.name with
  | none =>
    have hnew := find?_ofHistory_eq_none_iff.1 hfind
    refine .inl ⟨hnew, ?_⟩
    rw [insert_of_find?_eq_none hfind, ofHistory, ofHistory, firstDefinitions_concat, if_neg hnew]
  | some first =>
    exact .inr ⟨first, find?_ofHistory_eq_some_iff.1 hfind, insert_of_find?_eq_some hfind⟩

/-- A call adds the definition that it tries to the history. -/
theorem call_ofHistory (c : Call α) :
    ((ofHistory kind history).call c).2 = ofHistory kind (history ++ c.definition?.toList) := by
  cases c with
  | insert symbol =>
    simp only [call, Call.definition?, Option.toList_some]
    rcases insert_ofHistory_cases kind history symbol with ⟨-, hok⟩ | ⟨first, hfirst, herror⟩
    · rw [hok]
    · rw [herror, ofHistory, ofHistory, firstDefinitions_concat, if_pos hfirst.name_mem]
  | get name => simp [call, Call.definition?]
  | size => simp [call, Call.definition?]
  | isEmpty => simp [call, Call.definition?]
  | list => simp [call, Call.definition?]

theorem size_ofHistory (kind : String) (history : List (Symbol α)) :
    (ofHistory kind history).size = (history.map Symbol.name).toFinset.card := by
  have hnames : ((firstDefinitions history).map Symbol.name).toFinset =
      (history.map Symbol.name).toFinset := by
    ext name
    simp only [List.mem_toFinset, mem_map_name_firstDefinitions]
  rw [← hnames, List.toFinset_card_of_nodup (nodup_firstDefinitions history), List.length_map]
  rfl

end

/-- Calls leave of an empty table the table of the definitions that they tried. -/
theorem after_eq (kind : String) (calls : List (Call α)) :
    (⟨kind, []⟩ : SymbolTable α).after calls = ofHistory kind (tried calls) := by
  induction calls using List.reverseRecOn with
  | nil => rfl
  | append_singleton calls c ih =>
    have hafter : (⟨kind, []⟩ : SymbolTable α).after (calls ++ [c]) =
        (((⟨kind, []⟩ : SymbolTable α).after calls).call c).2 := by
      simp [after]
    rw [hafter, ih, call_ofHistory, tried, tried, List.filterMap_append, filterMap_singleton]

/-! ## What a table remembers -/

/-- A table that answers from the definitions that were tried on it. -/
structure Remembers (kind : String) (history : List (Symbol α)) (table : SymbolTable α) :
    Prop where
  /-- A definition is refused exactly when its name was tried before. -/
  insert_error_iff : ∀ symbol, (∃ fault, table.insert symbol = .error fault) ↔
    ∃ earlier ∈ history, earlier.name = symbol.name
  /-- The fault names the line on which the name was tried first, and the table stays as it is. -/
  of_insert_error : ∀ symbol fault, table.insert symbol = .error fault →
    table.call (.insert symbol) = (.refused fault, table) ∧
      ∃ first, IsFirst history symbol.name first ∧
        fault = .redefined kind symbol.name first.line
  get?_eq_some : ∀ name first, IsFirst history name first → table.get? name = some first.value
  get?_eq_none : ∀ name, (∀ symbol ∈ history, symbol.name ≠ name) → table.get? name = none
  symbols_eq : table.symbols = firstDefinitions history
  size_eq : table.size = (history.map Symbol.name).toFinset.card
  isEmpty_iff : table.isEmpty = true ↔ table.size = 0

theorem remembers_ofHistory (kind : String) (history : List (Symbol α)) :
    Remembers kind history (ofHistory kind history) := by
  constructor
  case insert_error_iff =>
    intro symbol
    rcases insert_ofHistory_cases kind history symbol with ⟨hnew, hok⟩ | ⟨first, hfirst, herror⟩
    · have hnone : ¬∃ earlier ∈ history, earlier.name = symbol.name := by simpa using hnew
      simp [hok, hnone]
    · exact ⟨fun _ => List.mem_map.1 hfirst.name_mem, fun _ => ⟨_, herror⟩⟩
  case of_insert_error =>
    intro symbol fault hfault
    refine ⟨by simp only [call, hfault], ?_⟩
    rcases insert_ofHistory_cases kind history symbol with ⟨-, hok⟩ | ⟨first, hfirst, herror⟩
    · rw [hok] at hfault
      cases hfault
    · rw [herror] at hfault
      cases hfault
      exact ⟨first, hfirst, rfl⟩
  case get?_eq_some =>
    intro name first hfirst
    rw [get?, find?_ofHistory_eq_some_iff.2 hfirst, Option.map_some]
  case get?_eq_none =>
    intro name hnone
    have hnew : name ∉ history.map Symbol.name := by simpa using hnone
    rw [get?, find?_ofHistory_eq_none_iff.2 hnew, Option.map_none]
  case symbols_eq => rfl
  case size_eq => exact size_ofHistory kind history
  case isEmpty_iff => simp [isEmpty, size]

/-- After any number of calls on an empty table, it remembers the definitions that they tried, and
the next call is answered from it. -/
theorem remembers_after (kind : String) (calls : List (Call α)) (i : Nat) :
    Remembers kind (tried (calls.take i)) ((⟨kind, []⟩ : SymbolTable α).after (calls.take i)) ∧
      ((⟨kind, []⟩ : SymbolTable α).answers calls)[i]? =
        calls[i]?.map fun c =>
          (((⟨kind, []⟩ : SymbolTable α).after (calls.take i)).call c).1 := by
  refine ⟨?_, getElem?_answers _ calls i⟩
  rw [after_eq]
  exact remembers_ofHistory kind (tried (calls.take i))

end SymbolTable

end Breadboard
