import Breadboard.Fault

/-!
# Symbol tables

A table holds the names of one kind in the order of their definitions, each with its line and its
value. The first definition of a name stands: a second one is refused and changes nothing. Constants,
labels and subroutines have a table each, so a name may be used once in every one of them.
-/

namespace Breadboard

/-- A defined name, the number of the line that defines it, and its value. -/
structure Symbol (α : Type) where
  name : String
  line : Nat
  value : α
  deriving DecidableEq, Repr

/-- The names of one kind in the order of their definitions. -/
structure SymbolTable (α : Type) where
  kind : String
  symbols : List (Symbol α) := []
  deriving DecidableEq, Repr

namespace SymbolTable

variable {α : Type}

/-- The definition of a name. -/
def find? (table : SymbolTable α) (name : String) : Option (Symbol α) :=
  table.symbols.find? fun symbol => symbol.name == name

/-- The value of a name. -/
def get? (table : SymbolTable α) (name : String) : Option α :=
  (table.find? name).map Symbol.value

/-- The number of names. -/
def size (table : SymbolTable α) : Nat :=
  table.symbols.length

/-- Whether nothing is defined. -/
def isEmpty (table : SymbolTable α) : Bool :=
  table.symbols.isEmpty

/-- Defines a name that has no definition yet. -/
def insert (table : SymbolTable α) (symbol : Symbol α) : Except Fault (SymbolTable α) :=
  match table.find? symbol.name with
  | some first => .error (.redefined table.kind symbol.name first.line)
  | none => .ok { table with symbols := table.symbols ++ [symbol] }

/-! ## Laws -/

@[simp] theorem find?_empty (kind name : String) : (⟨kind, []⟩ : SymbolTable α).find? name = none :=
  rfl

theorem find?_eq_none_iff {table : SymbolTable α} {name : String} :
    table.find? name = none ↔ name ∉ table.symbols.map Symbol.name := by
  simp [find?]

/-- A name without definition is put at the end. -/
theorem insert_of_find?_eq_none {table : SymbolTable α} {symbol : Symbol α}
    (h : table.find? symbol.name = none) :
    table.insert symbol = .ok ⟨table.kind, table.symbols ++ [symbol]⟩ := by
  simp [insert, h]

/-- A second definition is refused with the line of the first. -/
theorem insert_of_find?_eq_some {table : SymbolTable α} {symbol first : Symbol α}
    (h : table.find? symbol.name = some first) :
    table.insert symbol = .error (.redefined table.kind symbol.name first.line) := by
  simp [insert, h]

end SymbolTable

/-- The three tables of a program. -/
structure Symbols where
  /-- Constants and their bytes. -/
  constants : SymbolTable UInt8 := ⟨"constant", []⟩
  /-- Labels and their slots. -/
  labels : SymbolTable Nat := ⟨"label", []⟩
  /-- Subroutines and the slots of their entries. -/
  subroutines : SymbolTable Nat := ⟨"subroutine", []⟩
  deriving DecidableEq, Repr

end Breadboard
