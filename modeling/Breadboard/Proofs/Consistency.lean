import Breadboard.Statement
import Mathlib.Data.List.Basic

/-!
# Consistent statements

What the statements of a source define, and when the definitions go together: no name is defined
twice in one kind, and the openings and closings are bodies one after the other. `Admissible` is the
same for the beginning of a source, where the last body may still be open; it is built up one
statement at a time (`admissible_concat_iff`), which is how the second pass checks it.
-/

namespace Breadboard

namespace Statement

/-- The name that a statement gives to a constant, and below to a label and to a subroutine. -/
def constantName? : Statement → Option String
  | constant name _ => some name
  | _ => none

def labelName? : Statement → Option String
  | label name => some name
  | _ => none

def openingName? : Statement → Option String
  | opening name => some name
  | _ => none

/-- Whether a statement opens or closes a subroutine. -/
def isMark : Statement → Bool
  | opening _ | closing => true
  | _ => false

theorem labelName?_eq_some_iff {s : Statement} {name : String} :
    s.labelName? = some name ↔ s = label name := by
  cases s <;> simp [labelName?]

theorem openingName?_eq_some_iff {s : Statement} {name : String} :
    s.openingName? = some name ↔ s = opening name := by
  cases s <;> simp [openingName?]

end Statement

def constantNames (statements : List Statement) : List String :=
  statements.filterMap Statement.constantName?

def labelNames (statements : List Statement) : List String :=
  statements.filterMap Statement.labelName?

def openingNames (statements : List Statement) : List String :=
  statements.filterMap Statement.openingName?

/-- The openings and closings among statements. -/
def marks (statements : List Statement) : List Statement :=
  statements.filter Statement.isMark

/-- An opening and a closing for each name, one after the other. -/
def bodies (names : List String) : List Statement :=
  names.flatMap fun name => [.opening name, .closing]

/-- No name is defined twice in one kind. -/
structure DistinctNames (statements : List Statement) : Prop where
  constants : (constantNames statements).Nodup
  labels : (labelNames statements).Nodup
  openings : (openingNames statements).Nodup

/-- The definitions of whole statements go together. -/
structure Consistent (statements : List Statement) : Prop extends DistinctNames statements where
  marks_eq : marks statements = bodies (openingNames statements)

/-! ## Openings and closings -/

/-- Whether a subroutine is open after statements: the last mark is an opening. -/
def isOpen (statements : List Statement) : Bool :=
  ((marks statements).getLast?.bind Statement.openingName?).isSome

/-- The closing that is missing after statements. -/
def missing (statements : List Statement) : List Statement :=
  if isOpen statements then [.closing] else []

/-- An opening comes while nothing is open, a closing while something is. -/
def InTurn (statements : List Statement) : Statement → Prop
  | .opening _ => isOpen statements = false
  | .closing => isOpen statements = true
  | _ => True

theorem marks_append (a b : List Statement) : marks (a ++ b) = marks a ++ marks b := by
  simp [marks]

theorem openingNames_append (a b : List Statement) :
    openingNames (a ++ b) = openingNames a ++ openingNames b := by
  simp [openingNames]

theorem bodies_append (a b : List String) : bodies (a ++ b) = bodies a ++ bodies b := by
  simp [bodies]

theorem bodies_singleton (name : String) : bodies [name] = [.opening name, .closing] := rfl

theorem closing_of_bodies_eq :
    ∀ {names : List String} {before after : List Statement} {name : String},
    bodies names = before ++ .opening name :: after → ∃ rest, after = .closing :: rest
  | [], before, after, name, h => by simp [bodies] at h
  | _ :: names, [], after, name, h => by
    obtain ⟨-, hafter⟩ := List.cons.inj h
    exact ⟨bodies names, hafter.symm⟩
  | _ :: names, [s], after, name, h => by
    -- the second mark of a body is a closing
    obtain ⟨-, htail⟩ := List.cons.inj h
    cases (List.cons.inj htail).1
  | _ :: names, s :: t :: before, after, name, h => by
    obtain ⟨-, htail⟩ := List.cons.inj h
    exact closing_of_bodies_eq (List.cons.inj htail).2

/-- Behind an opening comes a closing before any other mark. -/
theorem exists_closing_of_opening {statements : List Statement} {names : List String} {j : Nat}
    {name : String} (h : marks statements = bodies names)
    (hj : statements[j]? = some (.opening name)) :
    ∃ k, j < k ∧ statements[k]? = some .closing ∧
      ∀ m s, j < m → m < k → statements[m]? = some s → s.isMark = false := by
  obtain ⟨hlt, hget⟩ := List.getElem?_eq_some_iff.1 hj
  have hsplit : statements = statements.take j ++ .opening name :: statements.drop (j + 1) := by
    rw [← hget, ← List.drop_eq_getElem_cons hlt, List.take_append_drop]
  have hmarks : bodies names =
      marks (statements.take j) ++ .opening name :: marks (statements.drop (j + 1)) := by
    calc bodies names = marks statements := h.symm
      _ = marks (statements.take j ++ .opening name :: statements.drop (j + 1)) :=
        congrArg marks hsplit
      _ = _ := marks_append _ _
  obtain ⟨rest, hrest⟩ := closing_of_bodies_eq hmarks
  -- the first mark behind the opening is this closing: what stands between the two is no mark
  obtain ⟨between, after, hdrop, hnone, -, -⟩ := List.filter_eq_cons_iff.1 hrest
  have hbehind : ∀ m, statements[j + 1 + m]? = (between ++ .closing :: after)[m]? := by
    intro m
    rw [← hdrop, List.getElem?_drop]
  refine ⟨j + 1 + between.length, by omega, by simp [hbehind], ?_⟩
  intro m s hjm hmk hm
  obtain ⟨n, rfl⟩ : ∃ n, m = j + 1 + n := ⟨m - (j + 1), by omega⟩
  rw [hbehind, List.getElem?_append_left (by omega)] at hm
  simpa using hnone s (List.mem_of_getElem? hm)

theorem isOpen_of_marks_eq_bodies {statements : List Statement} {names : List String}
    (h : marks statements = bodies names) : isOpen statements = false := by
  unfold isOpen
  rcases List.eq_nil_or_concat' names with rfl | ⟨names, name, rfl⟩
  · simp [h, bodies]
  · rw [h, bodies_append, bodies_singleton]
    simp [Statement.openingName?]

theorem isOpen_of_marks_closing {statements : List Statement} {names : List String}
    (h : marks statements ++ [.closing] = bodies names) : isOpen statements = true := by
  rcases List.eq_nil_or_concat' names with rfl | ⟨names, name, rfl⟩
  · simp [bodies] at h
  · rw [bodies_append, bodies_singleton] at h
    have hboth : marks statements ++ [.closing] =
        (bodies names ++ [.opening name]) ++ [.closing] := by
      simpa using h
    have hmarks : marks statements = bodies names ++ [.opening name] :=
      List.append_cancel_right hboth
    simp [isOpen, hmarks, Statement.openingName?]

/-- A statement that is no mark leaves the marks and the subroutines as they are. -/
theorem marks_concat_iff_of_not_mark {statements : List Statement} {s : Statement}
    (h : s.isMark = false) :
    marks (statements ++ [s]) ++ missing (statements ++ [s]) =
      bodies (openingNames (statements ++ [s])) ↔
      marks statements ++ missing statements = bodies (openingNames statements) ∧
        InTurn statements s := by
  have hmarks : marks (statements ++ [s]) = marks statements := by simp [marks, h]
  have hmissing : missing (statements ++ [s]) = missing statements := by
    rw [missing, missing, isOpen, isOpen, hmarks]
  have hother : s.openingName? = none ∧ InTurn statements s := by
    cases s with
    | opening name => cases h
    | closing => cases h
    | _ => exact ⟨rfl, trivial⟩
  have hnames : openingNames (statements ++ [s]) = openingNames statements := by
    simp [openingNames, hother.1]
  rw [hmarks, hmissing, hnames]
  exact ⟨fun heq => ⟨heq, hother.2⟩, fun heq => heq.1⟩

/-- Marks stay bodies, the last one perhaps open, as long as every mark comes in turn. -/
theorem marks_concat_iff {statements : List Statement} {s : Statement} :
    marks (statements ++ [s]) ++ missing (statements ++ [s]) =
      bodies (openingNames (statements ++ [s])) ↔
      marks statements ++ missing statements = bodies (openingNames statements) ∧
        InTurn statements s := by
  cases s with
  | opening name =>
    have hopen : isOpen (statements ++ [.opening name]) = true := by
      simp [isOpen, marks, Statement.isMark, Statement.openingName?]
    have hmarks : marks [.opening name] = [.opening name] := rfl
    have hnames : openingNames [.opening name] = [name] := rfl
    simp only [missing, hopen, if_true, marks_append, hmarks, openingNames_append, hnames,
      bodies_append, bodies_singleton, InTurn, List.append_assoc, List.cons_append, List.nil_append]
    -- the new body is complete with its missing closing, so what comes before it must be bodies
    rw [List.append_left_inj]
    constructor
    · intro h
      have hnot := isOpen_of_marks_eq_bodies h
      exact ⟨by simpa [hnot] using h, hnot⟩
    · rintro ⟨h, hnot⟩
      simpa [hnot] using h
  | closing =>
    have hopen : isOpen (statements ++ [.closing]) = false := by
      simp [isOpen, marks, Statement.isMark, Statement.openingName?]
    have hmarks : marks [.closing] = [.closing] := rfl
    have hnames : openingNames [.closing] = [] := rfl
    simp only [missing, hopen, marks_append, hmarks, openingNames_append, hnames, List.append_nil,
      InTurn, Bool.false_eq_true, if_false]
    -- the closing takes the place of the missing one
    constructor
    · intro h
      have hwas := isOpen_of_marks_closing h
      exact ⟨by simpa [hwas] using h, hwas⟩
    · rintro ⟨h, hwas⟩
      simpa [hwas] using h
  | _ => exact marks_concat_iff_of_not_mark rfl

/-! ## One more statement -/

/-- The definitions of the first statements of a source go together. -/
structure Admissible (statements : List Statement) : Prop extends DistinctNames statements where
  marks_eq : marks statements ++ missing statements = bodies (openingNames statements)

/-- A statement may come next: its name is new in its kind, and a mark comes in turn. -/
structure Admits (statements : List Statement) (s : Statement) : Prop where
  constant : ∀ name, s.constantName? = some name → name ∉ constantNames statements
  label : ∀ name, s.labelName? = some name → name ∉ labelNames statements
  opening : ∀ name, s.openingName? = some name → name ∉ openingNames statements
  inTurn : InTurn statements s

theorem admits_constant_iff {statements : List Statement} {name : String} {value : UInt8} :
    Admits statements (.constant name value) ↔ name ∉ constantNames statements :=
  ⟨fun h => h.constant name rfl, fun h => ⟨by rintro _ ⟨⟩; exact h, nofun, nofun, trivial⟩⟩

theorem admits_label_iff {statements : List Statement} {name : String} :
    Admits statements (.label name) ↔ name ∉ labelNames statements :=
  ⟨fun h => h.label name rfl, fun h => ⟨nofun, by rintro _ ⟨⟩; exact h, nofun, trivial⟩⟩

theorem admits_operation {statements : List Statement} {op : Opcode} {arg? : Option String} :
    Admits statements (.operation op arg?) :=
  ⟨nofun, nofun, nofun, trivial⟩

theorem admits_opening_iff {statements : List Statement} {name : String} :
    Admits statements (.opening name) ↔
      isOpen statements = false ∧ name ∉ openingNames statements :=
  ⟨fun h => ⟨h.inTurn, h.opening name rfl⟩, fun h => ⟨nofun, nofun, by rintro _ ⟨⟩; exact h.2, h.1⟩⟩

theorem admits_closing_iff {statements : List Statement} :
    Admits statements .closing ↔ isOpen statements = true :=
  ⟨fun h => h.inTurn, fun h => ⟨nofun, nofun, nofun, h⟩⟩

theorem nodup_names_concat_iff (name? : Statement → Option String) {statements : List Statement}
    {s : Statement} :
    ((statements ++ [s]).filterMap name?).Nodup ↔
      (statements.filterMap name?).Nodup ∧
        ∀ name, name? s = some name → name ∉ statements.filterMap name? := by
  rw [List.filterMap_append]
  cases h : name? s with
  | none => simp [h]
  | some name =>
    simp only [List.filterMap_cons, h, List.filterMap_nil, Option.some.injEq, forall_eq']
    rw [List.nodup_append]
    constructor
    · rintro ⟨hn, _, hdis⟩
      exact ⟨hn, fun hm => hdis name hm name List.mem_cons_self rfl⟩
    · rintro ⟨hn, hnew⟩
      refine ⟨hn, by simp, fun x hx y hy hxy => ?_⟩
      obtain rfl := List.mem_singleton.1 hy
      exact hnew (hxy ▸ hx)

theorem admissible_nil : Admissible [] :=
  ⟨⟨List.nodup_nil, List.nodup_nil, List.nodup_nil⟩, rfl⟩

/-- Statements and one more are admissible when the statements are and admit it. -/
theorem admissible_concat_iff {statements : List Statement} {s : Statement} :
    Admissible (statements ++ [s]) ↔ Admissible statements ∧ Admits statements s := by
  constructor
  · rintro ⟨⟨hc, hl, ho⟩, hm⟩
    obtain ⟨hc, hc'⟩ := (nodup_names_concat_iff _).1 hc
    obtain ⟨hl, hl'⟩ := (nodup_names_concat_iff _).1 hl
    obtain ⟨ho, ho'⟩ := (nodup_names_concat_iff _).1 ho
    obtain ⟨hm, hm'⟩ := marks_concat_iff.1 hm
    exact ⟨⟨⟨hc, hl, ho⟩, hm⟩, ⟨hc', hl', ho', hm'⟩⟩
  · rintro ⟨⟨⟨hc, hl, ho⟩, hm⟩, ⟨hc', hl', ho', hm'⟩⟩
    exact ⟨⟨(nodup_names_concat_iff _).2 ⟨hc, hc'⟩, (nodup_names_concat_iff _).2 ⟨hl, hl'⟩,
      (nodup_names_concat_iff _).2 ⟨ho, ho'⟩⟩, marks_concat_iff.2 ⟨hm, hm'⟩⟩

theorem consistent_iff {statements : List Statement} :
    Consistent statements ↔ Admissible statements ∧ isOpen statements = false := by
  constructor
  · rintro ⟨hd, hm⟩
    have hopen := isOpen_of_marks_eq_bodies hm
    exact ⟨⟨hd, by simpa [missing, hopen] using hm⟩, hopen⟩
  · rintro ⟨⟨hd, hm⟩, hopen⟩
    exact ⟨hd, by simpa [missing, hopen] using hm⟩

end Breadboard
