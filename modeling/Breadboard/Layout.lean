import Breadboard.Statement
import Breadboard.Symbols

/-!
# Layout

The statements of a source are placed one after the other: a statement starts at the slot that is the
sum of the widths before it. A pass over the placed statements then fills the symbol tables and checks
that subroutines open and close in turn. A name's value is known only after that pass, so a use may
come before its definition.
-/

namespace Breadboard

/-- A statement and the line that it stands on. -/
structure SourceStatement where
  line : Line
  statement : Statement
  deriving DecidableEq, Repr

/-- A statement and the slot at which it starts. -/
structure Placed extends SourceStatement where
  start : Nat
  deriving DecidableEq, Repr

/-! ## Statements of a source -/

/-- The statement of a line together with the line. -/
def Line.sourceStatement? (line : Line) : Except Diagnostic (Option SourceStatement) :=
  line.statement?.map fun statement? => statement?.map (⟨line, ·⟩)

/-- The statements of a source in order; the first line that has no valid form decides the fault. -/
def sourceStatements (source : String) : Except Diagnostic (List SourceStatement) :=
  (lines source).filterMapM Line.sourceStatement?

/-! ## Placing -/

/-- Places statements one after the other from slot `start`; `placed` holds those done, last first. -/
def placeOnto (placed : List Placed) (start : Nat) : List SourceStatement → List Placed
  | [] => placed.reverse
  | s :: rest => placeOnto (⟨s, start⟩ :: placed) (start + s.statement.width) rest

/-- Places statements one after the other from slot `start`. -/
def placeFrom (start : Nat) (statements : List SourceStatement) : List Placed :=
  placeOnto [] start statements

/-- Places the statements of a source, the first at slot zero. -/
def place (statements : List SourceStatement) : List Placed :=
  placeFrom 0 statements

/-- Placing onto what is done appends to it. -/
theorem placeOnto_eq (placed : List Placed) (start : Nat) (statements : List SourceStatement) :
    placeOnto placed start statements = placed.reverse ++ placeFrom start statements := by
  suffices h : ∀ (done more : List Placed) (start : Nat),
      placeOnto (more ++ done) start statements =
        done.reverse ++ placeOnto more start statements by
    simpa [placeFrom] using h placed [] start
  induction statements with
  | nil => intro done more start; simp [placeOnto]
  | cons s rest ih =>
    intro done more start
    simp only [placeOnto]
    exact ih done (⟨s, start⟩ :: more) _

@[simp] theorem placeFrom_nil (start : Nat) : placeFrom start [] = [] := rfl

@[simp] theorem placeFrom_cons (start : Nat) (s : SourceStatement) (rest : List SourceStatement) :
    placeFrom start (s :: rest) = ⟨s, start⟩ :: placeFrom (start + s.statement.width) rest := by
  rw [placeFrom, placeOnto, placeOnto_eq]
  rfl

/-! ## Collecting symbols -/

/-- The state of the pass that fills the tables: the tables so far, and the statement that opened the
subroutine that is open. -/
structure Survey where
  symbols : Symbols := {}
  body? : Option (String × Line) := none
  deriving DecidableEq, Repr

namespace Survey

/-- Takes the next placed statement into account. A subroutine inside another one is refused before
its name is looked at. -/
def step (survey : Survey) (p : Placed) : Except Fault Survey :=
  let { symbols, body? } := survey
  match p.statement with
  | .constant name value => do
    let constants ← symbols.constants.insert ⟨name, p.line.number, value⟩
    return { survey with symbols := { symbols with constants } }
  | .label name => do
    let labels ← symbols.labels.insert ⟨name, p.line.number, p.start⟩
    return { survey with symbols := { symbols with labels } }
  | .operation .. => return survey
  | .opening name =>
    match body? with
    | some (outer, _) => .error (.nestedSubroutine outer name)
    | none => do
      let subroutines ← symbols.subroutines.insert ⟨name, p.line.number, p.start⟩
      return { symbols := { symbols with subroutines }, body? := some (name, p.line) }
  | .closing =>
    match body? with
    | some _ => return { survey with body? := none }
    | none => .error .unmatchedClosing

/-- The tables at the end of the source, where no subroutine may be open. -/
def finish (survey : Survey) : Except Diagnostic Symbols :=
  match survey.body? with
  | some (name, line) => .error (.atLine line (.unclosedSubroutine name))
  | none => .ok survey.symbols

end Survey

/-- The symbol tables of placed statements; the first statement that breaks a rule decides the
fault. -/
def symbolsOf (placed : List Placed) : Except Diagnostic Symbols := do
  let survey ← placed.foldlM
    (fun survey p => (survey.step p).mapError (Diagnostic.atLine p.line)) ({} : Survey)
  survey.finish

end Breadboard
