import Breadboard.Layout
import Breadboard.Proofs.Reading

/-!
# Placement

Where the second pass puts a statement. The pass carries a running slot number; `getElem?_placeFrom`
says what that number is without the run: the sum of the widths of the statements before. Moving a
block of statements moves every one of them by the same number of slots (`placeFrom_move`).
-/

namespace Breadboard

/-- The number of slots that statements take. -/
def extent (statements : List Statement) : Nat :=
  statements.foldr (fun s total => s.width + total) 0

/-- The slot at which the statement with index `i` starts. -/
def slotAt (statements : List Statement) (i : Nat) : Nat :=
  extent (statements.take i)

@[simp] theorem extent_nil : extent [] = 0 := rfl

@[simp] theorem extent_cons (s : Statement) (rest : List Statement) :
    extent (s :: rest) = s.width + extent rest := rfl

@[simp] theorem extent_append (a b : List Statement) : extent (a ++ b) = extent a + extent b := by
  induction a with
  | nil => simp
  | cons s rest ih => simp [ih, Nat.add_assoc]

@[simp] theorem slotAt_zero (statements : List Statement) : slotAt statements 0 = 0 := rfl

@[simp] theorem slotAt_cons_succ (s : Statement) (rest : List Statement) (i : Nat) :
    slotAt (s :: rest) (i + 1) = s.width + slotAt rest i := by
  simp [slotAt]

theorem slotAt_succ {statements : List Statement} {i : Nat} {s : Statement}
    (h : statements[i]? = some s) :
    slotAt statements (i + 1) = slotAt statements i + s.width := by
  simp [slotAt, List.take_add_one, h]

theorem slotAt_add_extent_drop (statements : List Statement) (i : Nat) :
    slotAt statements i + extent (statements.drop i) = extent statements := by
  rw [slotAt, ← extent_append, List.take_append_drop]

/-! ## The pass -/

theorem placeFrom_append (start : Nat) (a b : List SourceStatement) :
    placeFrom start (a ++ b) =
      placeFrom start a ++ placeFrom (start + extent (a.map SourceStatement.statement)) b := by
  induction a generalizing start with
  | nil => simp
  | cons s rest ih => simp [ih, Nat.add_assoc]

/-- Placing adds the sum of the widths before, and changes nothing else. -/
theorem getElem?_placeFrom (start : Nat) (statements : List SourceStatement) (i : Nat) :
    (placeFrom start statements)[i]? = statements[i]?.map fun s =>
      ⟨s, start + slotAt (statements.map SourceStatement.statement) i⟩ := by
  induction statements generalizing start i with
  | nil => simp
  | cons s rest ih =>
    cases i with
    | zero => simp
    | succ i => simp [ih, Nat.add_assoc]

theorem getElem?_place {statements : List SourceStatement} {i : Nat} {p : Placed} :
    (place statements)[i]? = some p ↔
      statements[i]? = some p.toSourceStatement ∧
        p.start = slotAt (statements.map SourceStatement.statement) i := by
  rw [place, getElem?_placeFrom, Option.map_eq_some_iff]
  constructor
  · rintro ⟨s, hs, rfl⟩
    exact ⟨hs, by simp⟩
  · rintro ⟨hs, hstart⟩
    exact ⟨_, hs, by rw [Nat.zero_add, ← hstart]⟩

theorem drop_placeFrom (start n : Nat) (statements : List SourceStatement) :
    (placeFrom start statements).drop n =
      placeFrom (start + slotAt (statements.map SourceStatement.statement) n)
        (statements.drop n) := by
  induction statements generalizing start n with
  | nil => simp
  | cons s rest ih =>
    cases n with
    | zero => simp
    | succ n => simp [ih, Nat.add_assoc]

theorem map_toSourceStatement_placeFrom (start : Nat) (statements : List SourceStatement) :
    (placeFrom start statements).map Placed.toSourceStatement = statements := by
  induction statements generalizing start with
  | nil => rfl
  | cons s rest ih => simp [ih]

theorem map_statement_place (statements : List SourceStatement) :
    (place statements).map (fun p => p.statement) = statements.map SourceStatement.statement := by
  have h := congrArg (List.map SourceStatement.statement)
    (map_toSourceStatement_placeFrom 0 statements)
  rw [List.map_map] at h
  exact h

/-- A statement takes its slots between the start of its block and the end. -/
theorem bounds_of_mem_placeFrom {start : Nat} {statements : List SourceStatement} {p : Placed}
    (h : p ∈ placeFrom start statements) :
    start ≤ p.start ∧
      p.start + p.statement.width ≤ start + extent (statements.map SourceStatement.statement) := by
  induction statements generalizing start with
  | nil => simp at h
  | cons s rest ih =>
    rw [placeFrom_cons] at h
    rw [List.map_cons, extent_cons]
    rcases List.mem_cons.1 h with rfl | h
    · dsimp only
      omega
    · have hrest := ih h
      omega

/-- A statement starts behind the slots of all statements before it. -/
theorem pairwise_placeFrom (start : Nat) (statements : List SourceStatement) :
    (placeFrom start statements).Pairwise fun p q => p.start + p.statement.width ≤ q.start := by
  induction statements generalizing start with
  | nil => exact List.Pairwise.nil
  | cons s rest ih =>
    rw [placeFrom_cons, List.pairwise_cons]
    exact ⟨fun q hq => (bounds_of_mem_placeFrom hq).1, ih _⟩

/-! ## Moving a block -/

/-- A placed statement `n` lines further down and `offset` slots higher up. -/
def Placed.move (n offset : Nat) (p : Placed) : Placed :=
  ⟨p.toSourceStatement.lower n, p.start + offset⟩

@[simp] theorem Placed.statement_move (n offset : Nat) (p : Placed) :
    (p.move n offset).statement = p.statement := rfl

@[simp] theorem Placed.start_move (n offset : Nat) (p : Placed) :
    (p.move n offset).start = p.start + offset := rfl

/-- A block that starts later is the same block with every slot moved. -/
theorem placeFrom_move (n offset start : Nat) (statements : List SourceStatement) :
    placeFrom (start + offset) (statements.map (SourceStatement.lower n)) =
      (placeFrom start statements).map (Placed.move n offset) := by
  induction statements generalizing start with
  | nil => rfl
  | cons s rest ih =>
    have hstart : start + offset + s.statement.width = start + s.statement.width + offset := by
      omega
    simp only [List.map_cons, placeFrom_cons, SourceStatement.statement_lower, hstart, ih]
    rfl

/-- A source behind another one is placed behind its slots. -/
theorem place_append_lower (n : Nat) (first second : List SourceStatement) :
    place (first ++ second.map (SourceStatement.lower n)) =
      place first ++ (place second).map
        (Placed.move n (extent (first.map SourceStatement.statement))) := by
  rw [place, placeFrom_append, placeFrom_move]
  rfl

end Breadboard
