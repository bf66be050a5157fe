import Breadboard.Proofs.Emission

/-!
# Constants may stand anywhere

A constant takes no slot, is no mark and is looked up by its name. So the other statements of a
source, its *working* statements, are laid out as if the constants were not there
(`placeFrom_filter`), and what an operand resolves to depends on the constants as a set. Two sources
with the same working statements, and with the same constants in whatever order and wherever they
stand, have the same code (`assemble_of_working_eq`).

The order of the constants shows in the table of constants, in the numbers of the lines, and in the
fault that is reported when a source does not assemble.
-/

namespace Breadboard

/-- Whether a statement defines a constant. -/
def Statement.isConstant : Statement → Bool
  | constant .. => true
  | _ => false

/-- The statements of a source that are no constants, in order. -/
def working (statements : List Statement) : List Statement :=
  statements.filter fun s => !s.isConstant

/-- The constants among statements, in order. -/
def constantsOf (statements : List Statement) : List Statement :=
  statements.filter Statement.isConstant

/-- The instructions of a program that are no constants, in order. -/
def Program.working (program : Program) : List Instruction :=
  program.instructions.filter fun instruction => !instruction.statement.isConstant

/-! ## Definitions without the constants -/

theorem Statement.eq_constant_of_isConstant {s : Statement} (h : s.isConstant = true) :
    ∃ name value, s = .constant name value := by
  cases s with
  | constant name value => exact ⟨name, value, rfl⟩
  | _ => cases h

theorem Statement.width_of_isConstant {s : Statement} (h : s.isConstant = true) : s.width = 0 := by
  obtain ⟨name, value, rfl⟩ := eq_constant_of_isConstant h
  rfl

/-- What is read off some elements alone can be read off without the others. -/
theorem filterMap_filter_of_none {α β : Type} {keep : α → Bool} {f : α → Option β}
    (h : ∀ x, keep x = false → f x = none) (xs : List α) :
    (xs.filter keep).filterMap f = xs.filterMap f := by
  rw [List.filterMap_filter]
  refine List.filterMap_congr fun x _ => ?_
  cases hx : keep x with
  | true => simp
  | false => simp [h x hx]

/-- Names that are no constants can be read off the working statements. -/
theorem filterMap_working {β : Type} {f : Statement → Option β}
    (h : ∀ name value, f (.constant name value) = none) (statements : List Statement) :
    (working statements).filterMap f = statements.filterMap f := by
  refine filterMap_filter_of_none (fun s hs => ?_) statements
  obtain ⟨name, value, rfl⟩ := Statement.eq_constant_of_isConstant (by simpa using hs)
  exact h name value

section
variable (statements : List Statement)

theorem constantNames_constantsOf :
    constantNames (constantsOf statements) = constantNames statements := by
  refine filterMap_filter_of_none (fun s hs => ?_) statements
  cases s with
  | constant name value => cases hs
  | _ => rfl

theorem labelNames_working : labelNames (working statements) = labelNames statements :=
  filterMap_working (fun _ _ => rfl) statements

theorem openingNames_working : openingNames (working statements) = openingNames statements :=
  filterMap_working (fun _ _ => rfl) statements

theorem marks_working : marks (working statements) = marks statements := by
  rw [marks, working, List.filter_filter, marks]
  refine List.filter_congr fun s _ => ?_
  cases s <;> simp [Statement.isMark, Statement.isConstant]

theorem extent_working : extent (working statements) = extent statements := by
  induction statements with
  | nil => rfl
  | cons s rest ih =>
    cases h : s.isConstant with
    | false => simpa [working, h] using ih
    | true => simpa [working, h, Statement.width_of_isConstant h] using ih

end

/-- Where definitions go together, they do so with the constants in any other places. -/
theorem Consistent.of_working_eq {a b : List Statement} (h : Consistent a)
    (hworking : working a = working b) (hconstants : (constantsOf a).Perm (constantsOf b)) :
    Consistent b := by
  have hnames : (constantNames a).Perm (constantNames b) := by
    rw [← constantNames_constantsOf a, ← constantNames_constantsOf b]
    exact hconstants.filterMap _
  have hlabels : labelNames b = labelNames a := by
    rw [← labelNames_working b, ← hworking, labelNames_working]
  have hopenings : openingNames b = openingNames a := by
    rw [← openingNames_working b, ← hworking, openingNames_working]
  have hmarks : marks b = marks a := by
    rw [← marks_working b, ← hworking, marks_working]
  refine ⟨⟨hnames.nodup_iff.1 h.constants, ?_, ?_⟩, ?_⟩
  · rw [hlabels]
    exact h.labels
  · rw [hopenings]
    exact h.openings
  · rw [hmarks, hopenings]
    exact h.marks_eq

/-! ## Layout without the constants -/

/-- A statement and its slot, without the line. -/
def Placed.site (p : Placed) : Statement × Nat :=
  (p.statement, p.start)

/-- Constants do not move what follows them. -/
theorem placeFrom_filter (start : Nat) (source : List SourceStatement) :
    (placeFrom start source).filter (fun p => !p.statement.isConstant) =
      placeFrom start (source.filter fun s => !s.statement.isConstant) := by
  induction source generalizing start with
  | nil => rfl
  | cons s rest ih =>
    cases h : s.statement.isConstant with
    | false => simp [h, ih]
    | true => simp [h, ih, Statement.width_of_isConstant h]

/-- The slots of statements do not depend on their lines. -/
theorem map_site_placeFrom (start : Nat) {xs ys : List SourceStatement}
    (h : xs.map SourceStatement.statement = ys.map SourceStatement.statement) :
    (placeFrom start xs).map Placed.site = (placeFrom start ys).map Placed.site := by
  induction xs generalizing start ys with
  | nil =>
    obtain rfl : ys = [] := by simpa using h.symm
    rfl
  | cons x xs ih =>
    cases ys with
    | nil => cases h
    | cons y ys =>
      obtain ⟨hx, hxs⟩ := List.cons.inj h
      simp only [placeFrom_cons, List.map_cons, Placed.site, hx, List.cons.injEq, true_and]
      exact ih _ hxs

/-- The working statements of a source with their slots. -/
def sites (source : List SourceStatement) : List (Statement × Nat) :=
  ((place source).filter fun p => !p.statement.isConstant).map Placed.site

theorem working_map_statement (source : List SourceStatement) :
    working (source.map SourceStatement.statement) =
      (source.filter fun s => !s.statement.isConstant).map SourceStatement.statement :=
  List.filter_map

/-- Working statements have the same slots wherever the constants stand. -/
theorem sites_eq_of_working_eq {xs ys : List SourceStatement}
    (h : working (xs.map SourceStatement.statement) =
      working (ys.map SourceStatement.statement)) : sites xs = sites ys := by
  rw [working_map_statement, working_map_statement] at h
  rw [sites, sites, place, place, placeFrom_filter, placeFrom_filter]
  exact map_site_placeFrom 0 h

/-! ## Look-ups without the order -/

/-- Two groups of tables in which every name means the same. -/
structure Symbols.SameLookUps (symbols other : Symbols) : Prop where
  constants : ∀ name, other.constants.get? name = symbols.constants.get? name
  labels : ∀ name, other.labels.get? name = symbols.labels.get? name
  subroutines : ∀ name, other.subroutines.get? name = symbols.subroutines.get? name

/-- Names that stand for slots, read off the working statements. -/
theorem bindings_slotSymbols {kind : String} {name? : Statement → Option String}
    (h : ∀ name value, name? (.constant name value) = none) (source : List SourceStatement) :
    (⟨kind, (place source).filterMap (Placed.slotSymbol? name?)⟩ : SymbolTable Nat).bindings =
      (sites source).filterMap fun site => (name? site.1).map (·, site.2) := by
  have hconstant : ∀ p : Placed, (!p.statement.isConstant) = false →
      (name? p.statement).map (·, p.start) = none := by
    intro p hp
    obtain ⟨name, value, hs⟩ := Statement.eq_constant_of_isConstant (by simpa using hp)
    rw [hs, h, Option.map_none]
  rw [sites, List.filterMap_map]
  refine Eq.trans ?_ (filterMap_filter_of_none hconstant (place source)).symm
  simp [SymbolTable.bindings, List.map_filterMap, Placed.slotSymbol?, Function.comp_def]

theorem bindings_labels_place (source : List SourceStatement) :
    (Symbols.ofPlaced (place source)).labels.bindings =
      (sites source).filterMap fun site => (site.1.labelName?).map (·, site.2) :=
  bindings_slotSymbols (fun _ _ => rfl) source

theorem bindings_subroutines_place (source : List SourceStatement) :
    (Symbols.ofPlaced (place source)).subroutines.bindings =
      (sites source).filterMap fun site => (site.1.openingName?).map (·, site.2) :=
  bindings_slotSymbols (fun _ _ => rfl) source

section
variable {xs ys : List SourceStatement}
  (hworking : working (xs.map SourceStatement.statement) =
    working (ys.map SourceStatement.statement))
  (hconstants : (constantsOf (xs.map SourceStatement.statement)).Perm
    (constantsOf (ys.map SourceStatement.statement)))

include hconstants in
theorem constant_mem_iff_of_perm {name : String} {value : UInt8} :
    .constant name value ∈ ys.map SourceStatement.statement ↔
      .constant name value ∈ xs.map SourceStatement.statement := by
  have hmem := hconstants.mem_iff (a := .constant name value)
  simp only [constantsOf, List.mem_filter, Statement.isConstant, and_true] at hmem
  exact hmem.symm

include hworking hconstants in
/-- A name means the same wherever the constants stand. -/
theorem sameLookUps_ofPlaced (hx : DistinctNames (xs.map SourceStatement.statement))
    (hy : DistinctNames (ys.map SourceStatement.statement)) :
    (Symbols.ofPlaced (place xs)).SameLookUps (Symbols.ofPlaced (place ys)) := by
  have hsites := sites_eq_of_working_eq hworking
  constructor
  case constants =>
    intro name
    ext value
    rw [constants_place_get?_eq_some_iff hx, constants_place_get?_eq_some_iff hy]
    exact constant_mem_iff_of_perm hconstants
  case labels =>
    refine SymbolTable.get?_eq_of_bindings_eq ?_
    rw [bindings_labels_place, bindings_labels_place, hsites]
  case subroutines =>
    refine SymbolTable.get?_eq_of_bindings_eq ?_
    rw [bindings_subroutines_place, bindings_subroutines_place, hsites]

end

/-! ## Operands and instructions -/

section
variable {symbols other : Symbols} (h : symbols.SameLookUps other)

include h

theorem Symbols.SameLookUps.operand_eq (op : Opcode) (start : Nat) (arg : String) :
    other.operand op start arg = symbols.operand op start arg := by
  have hvalue : other.value arg = symbols.value arg := by
    simp only [Symbols.value, h.constants]
  cases op with
  | jmp => simp only [Symbols.operand, Symbols.jump, h.labels]
  | run => simp only [Symbols.operand, Symbols.call, h.subroutines]
  | _ => exact hvalue

/-- What an operand resolves to depends on the statement, its slot and the look-ups. -/
theorem Symbols.SameLookUps.operand?_eq {p p' : Placed} (hsite : p'.site = p.site) :
    p'.operand? other = p.operand? symbols := by
  obtain ⟨hstatement, hstart⟩ := Prod.mk.inj hsite
  simp only [Placed.operand?, hstatement, hstart, h.operand_eq]

end

/-- What an instruction is apart from its line. -/
def Instruction.content (instruction : Instruction) : Statement × Option Nat × Option Operand :=
  (instruction.statement, instruction.slot?, instruction.operand?)

/-- The content of the instruction that a placed statement becomes. -/
def Placed.content (symbols : Symbols) (p : Placed) : Statement × Option Nat × Option Operand :=
  (p.statement, p.slot?, (p.operand? symbols).toOption.join)

theorem Placed.content_of_instruction {symbols : Symbols} (p : Placed) (instruction : Instruction)
    (h : p.instruction symbols = .ok instruction) : instruction.content = p.content symbols := by
  obtain ⟨hoperand, hsource, hslot⟩ := Placed.instruction_eq_ok_iff.1 h
  simp [Instruction.content, Placed.content, hoperand, hsource, hslot, Except.toOption]

theorem Symbols.SameLookUps.content_eq {symbols other : Symbols} (h : symbols.SameLookUps other)
    (p p' : Placed) (hsite : p'.site = p.site) : p'.content other = p.content symbols := by
  obtain ⟨hstatement, hstart⟩ := Prod.mk.inj hsite
  simp only [Placed.content, Placed.slot?, h.operand?_eq hsite, hstatement, hstart]

theorem Instruction.slots_eq_of_content_eq (instruction other : Instruction)
    (h : other.content = instruction.content) : other.slots = instruction.slots := by
  simp only [Instruction.content, Prod.mk.injEq] at h
  obtain ⟨hstatement, -, hoperand⟩ := h
  simp only [Instruction.slots, hstatement, hoperand]

/-- What is the same for elements with the same key is the same for lists with the same keys. -/
theorem map_eq_map_of_key_eq {α β κ : Type} {key : α → κ} {f g : α → β}
    (h : ∀ x y, key y = key x → g y = f x) :
    ∀ {xs ys : List α}, ys.map key = xs.map key → ys.map g = xs.map f
  | [], [], _ => rfl
  | [], _ :: _, hkeys => by simp at hkeys
  | _ :: _, [], hkeys => by simp at hkeys
  | x :: xs, y :: ys, hkeys => by
    obtain ⟨hx, hxs⟩ := List.cons.inj hkeys
    rw [List.map_cons, List.map_cons, h x y hx, map_eq_map_of_key_eq h hxs]

/-- A program is written by its working instructions. -/
theorem Program.slots_eq_working (program : Program) :
    program.slots = program.working.flatMap Instruction.slots := by
  rw [Program.slots, Program.working]
  induction program.instructions with
  | nil => rfl
  | cons first rest ih =>
    cases h : first.statement.isConstant with
    | false => simp [h, ih]
    | true =>
      obtain ⟨name, value, hs⟩ := Statement.eq_constant_of_isConstant h
      have hslots : first.slots = [] := by simp [Instruction.slots, hs]
      simp [h, hslots, ih]

/-! ## Programs -/

/-- Two programs that differ in nothing but their constants and their lines: the other instructions
have the same slots and operands, and labels and subroutines are where they were. -/
structure Program.SameCode (program other : Program) : Prop where
  bytes : other.bytes = program.bytes
  slotCount : other.slotCount = program.slotCount
  statements : other.working.map (fun instruction => instruction.statement) =
    program.working.map fun instruction => instruction.statement
  slots : other.working.map Instruction.slot? = program.working.map Instruction.slot?
  operands : other.working.map Instruction.operand? = program.working.map Instruction.operand?
  labels : other.symbols.labels.bindings = program.symbols.labels.bindings
  subroutines : other.symbols.subroutines.bindings = program.symbols.subroutines.bindings

namespace Assembled

variable {xs ys : List SourceStatement} {p q : Program}

/-- The working instructions of a program are those of the working statements. -/
theorem map_content_working (h : Assembled xs p) :
    p.working.map Instruction.content =
      ((place xs).filter fun p => !p.statement.isConstant).map (Placed.content p.symbols) := by
  refine map_eq_of_map_eq_ok Placed.content_of_instruction
    (map_filter_eq_ok (fun x y hxy => ?_) h.resolved)
  rw [(Placed.instruction_eq_ok_iff.1 hxy).2.1]

section
variable (hworking : working (xs.map SourceStatement.statement) =
    working (ys.map SourceStatement.statement))
  (hconstants : (constantsOf (xs.map SourceStatement.statement)).Perm
    (constantsOf (ys.map SourceStatement.statement)))

include hworking hconstants

/-- Operands that resolve do so with the constants in any other places. -/
theorem exists_of_working_eq (hp : Assembled xs p)
    (hshaped : Shaped (ys.map SourceStatement.statement)) : ∃ q, Assembled ys q := by
  have hcons := hp.consistent.of_working_eq hworking hconstants
  have hlookups := sameLookUps_ofPlaced hworking hconstants hp.consistent.toDistinctNames
    hcons.toDistinctNames
  have hresolves : ∀ y ∈ place ys,
      ∃ instruction, y.instruction (Symbols.ofPlaced (place ys)) = .ok instruction := by
    intro y hy
    refine Placed.exists_instruction_iff.2 fun op arg hs => ?_
    -- an operation is a working statement, so it stands in the same slot of the first source
    have hsite : y.site ∈ sites xs := by
      rw [sites_eq_of_working_eq hworking]
      exact List.mem_map_of_mem (List.mem_filter.2 ⟨hy, by simp [hs, Statement.isConstant]⟩)
    obtain ⟨x, hx, hxy⟩ := List.mem_map.1 hsite
    obtain ⟨hstatement, hstart⟩ := Prod.mk.inj hxy
    have hfirst := exists_map_eq_ok_iff.1 ⟨_, hp.resolved⟩ x (List.mem_of_mem_filter hx)
    rw [hp.symbols_eq, Placed.exists_instruction_iff] at hfirst
    obtain ⟨operand, hoperand⟩ := hfirst op arg (hstatement.trans hs)
    exact ⟨operand, by rw [hlookups.operand_eq, ← hstart, hoperand]⟩
  obtain ⟨instructions, hinstructions⟩ := exists_map_eq_ok_iff.2 hresolves
  exact ⟨⟨instructions, Symbols.ofPlaced (place ys)⟩, hshaped, hcons, rfl, hinstructions⟩

theorem sameCode (hp : Assembled xs p) (hq : Assembled ys q) : p.SameCode q := by
  have hsites := sites_eq_of_working_eq hworking
  have hlookups := sameLookUps_ofPlaced hworking hconstants hp.consistent.toDistinctNames
    hq.consistent.toDistinctNames
  rw [← hp.symbols_eq, ← hq.symbols_eq] at hlookups
  have hcontent : q.working.map Instruction.content = p.working.map Instruction.content := by
    rw [hp.map_content_working, hq.map_content_working]
    exact map_eq_map_of_key_eq hlookups.content_eq hsites.symm
  have hfield : ∀ {β : Type} (field : Instruction → β),
      (∀ i j : Instruction, j.content = i.content → field j = field i) →
        q.working.map field = p.working.map field :=
    fun field hfield => map_eq_map_of_key_eq hfield hcontent
  constructor
  case bytes =>
    have hslots : q.slots = p.slots := by
      rw [Program.slots_eq_working, Program.slots_eq_working, List.flatMap_def, List.flatMap_def,
        hfield _ Instruction.slots_eq_of_content_eq]
    rw [Program.bytes, hslots, Program.bytes]
  case slotCount =>
    rw [slotCount_eq, slotCount_eq, hp.statements_eq, hq.statements_eq, ← extent_working,
      ← hworking, extent_working]
  case statements => exact hfield _ fun i j h => (Prod.mk.inj h).1
  case slots => exact hfield _ fun i j h => (Prod.mk.inj (Prod.mk.inj h).2).1
  case operands => exact hfield _ fun i j h => (Prod.mk.inj (Prod.mk.inj h).2).2
  case labels =>
    rw [hp.symbols_eq, hq.symbols_eq, bindings_labels_place, bindings_labels_place, hsites]
  case subroutines =>
    rw [hp.symbols_eq, hq.symbols_eq, bindings_subroutines_place, bindings_subroutines_place,
      hsites]

end

end Assembled

/-- **Constants may stand anywhere.** Of two sources with the same working statements in order and
the same constants in any order, both assemble or neither does; the programs have the same code. -/
theorem assemble_of_working_eq {a b : String}
    (ha : ∀ line ∈ lines a, ∃ statement?, line.statement? = .ok statement?)
    (hb : ∀ line ∈ lines b, ∃ statement?, line.statement? = .ok statement?)
    (hworking : working (readings a) = working (readings b))
    (hconstants : (constantsOf (readings a)).Perm (constantsOf (readings b))) :
    ((∃ p, assemble a = .ok p) ↔ ∃ q, assemble b = .ok q) ∧
      ∀ p q, assemble a = .ok p → assemble b = .ok q → p.SameCode q := by
  have hreada := sourceStatements_eq_ok_iff.2 ⟨ha, rfl⟩
  have hreadb := sourceStatements_eq_ok_iff.2 ⟨hb, rfl⟩
  rw [← map_statement_sourceStatements hreada, ← map_statement_sourceStatements hreadb]
    at hworking hconstants
  simp only [assemble_eq_ok_iff, hreada, hreadb, Except.ok.injEq, exists_eq_left']
  refine ⟨⟨?_, ?_⟩, fun p q hp hq => hp.sameCode hworking hconstants hq⟩
  · rintro ⟨p, hp⟩
    exact hp.exists_of_working_eq hworking hconstants (shaped_sourceStatements hreadb)
  · rintro ⟨q, hq⟩
    exact hq.exists_of_working_eq hworking.symm hconstants.symm (shaped_sourceStatements hreada)

/-- Two constants before their uses, and the same in the other order, one in the body of a subroutine
and one behind the last use. -/
theorem assemble_of_working_eq_moved :
    ∃ p q,
      assemble "$A 1\n$B 2\nf\x7b\n  LDAV $A\n\x7d\n  RUN f\nend\n  JMP end\n  ADDV $B\n" = .ok p ∧
      assemble "f\x7b\n$B 2\n  LDAV $A\n\x7d\n  RUN f\nend\n  JMP end\n  ADDV $B\n$A 1\n" = .ok q ∧
      p.symbols.constants.bindings = [("A", 1), ("B", 2)] ∧
      q.symbols.constants.bindings = [("B", 2), ("A", 1)] ∧ q.slotCount = 8 ∧ p.SameCode q := by
  have hfirst : (assemble
      "$A 1\n$B 2\nf\x7b\n  LDAV $A\n\x7d\n  RUN f\nend\n  JMP end\n  ADDV $B\n").map
        (fun p => p.symbols.constants.bindings) = .ok [("A", 1), ("B", 2)] := by decide +kernel
  have hsecond : (assemble
      "f\x7b\n$B 2\n  LDAV $A\n\x7d\n  RUN f\nend\n  JMP end\n  ADDV $B\n$A 1\n").map
        (fun q => (q.symbols.constants.bindings, q.slotCount)) = .ok ([("B", 2), ("A", 1)], 8) := by
    decide +kernel
  obtain ⟨p, hp, hfirst⟩ := map_eq_ok_iff.1 hfirst
  obtain ⟨q, hq, hsecond⟩ := map_eq_ok_iff.1 hsecond
  obtain ⟨hsecond, hcount⟩ := Prod.mk.inj hsecond
  obtain ⟨_, hreadp, -⟩ := assemble_eq_ok_iff.1 hp
  obtain ⟨_, hreadq, -⟩ := assemble_eq_ok_iff.1 hq
  have hsame := assemble_of_working_eq (sourceStatements_eq_ok_iff.1 hreadp).1
    (sourceStatements_eq_ok_iff.1 hreadq).1 (by decide +kernel) (by decide +kernel)
  exact ⟨p, q, hp, hq, hfirst, hsecond, hcount, hsame.2 p q hp hq⟩

end Breadboard
