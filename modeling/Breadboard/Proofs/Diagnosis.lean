import Breadboard.Proofs.Assembly

/-!
# Which fault is reported

A source can be wrong in many places, and in all three passes at once; one fault of it is reported.
`Reported` says which, without a pass: that of the first line without a valid form; in a source that
can be read, that of the first statement that may not come where it stands (`Misplaced`); where all
may, that of a subroutine which is never closed; and at last that of the first operand that leads
nowhere (`Unresolved`).

Each pass stops at the first element with which something is wrong (`FirstWrong`). What can be wrong
with an element is said by the statements before it, or by all of them, so the state that a pass
carries does not appear.
-/

namespace Breadboard

/-! ## Statements that may not come where they stand -/

/-- The placed statement `p` opens a subroutine that is still open: no mark follows it. -/
def OpenAt (placed : List Placed) (p : Placed) (name : String) : Prop :=
  p.statement = .opening name ∧
    ∃ before after, placed = before ++ p :: after ∧ ∀ q ∈ after, q.statement.isMark = false

/-- What is wrong with a definition or a mark behind placed statements. A subroutine inside another
one is wrong as such, whatever its name. -/
inductive Misplaced (before : List Placed) : Statement → Fault → Prop
  | constant {first : Placed} {name : String} {value : UInt8} (hmem : first ∈ before)
      (hname : first.statement.constantName? = some name) :
      Misplaced before (.constant name value) (.redefined "constant" name first.line.number)
  | label {first : Placed} {name : String} (hmem : first ∈ before)
      (hname : first.statement.labelName? = some name) :
      Misplaced before (.label name) (.redefined "label" name first.line.number)
  | nested {outer : Placed} {outerName name : String} (hopen : OpenAt before outer outerName) :
      Misplaced before (.opening name) (.nestedSubroutine outerName name)
  | opening {first : Placed} {name : String} (hclosed : ∀ outer name, ¬ OpenAt before outer name)
      (hmem : first ∈ before) (hname : first.statement.openingName? = some name) :
      Misplaced before (.opening name) (.redefined "subroutine" name first.line.number)
  | closing (hclosed : ∀ outer name, ¬ OpenAt before outer name) :
      Misplaced before .closing .unmatchedClosing

/-! ## Operands that lead nowhere -/

/-- Why the operand of a statement at slot `start` leads nowhere among placed statements. The return
slot of a call is looked at before its entry. -/
inductive Unresolved (placed : List Placed) (start : Nat) : Statement → Fault → Prop
  | unknownLabel {name : String} (h : ∀ q ∈ placed, q.statement.labelName? ≠ some name) :
      Unresolved placed start (.operation .jmp (some name)) (.unknownLabel name)
  | farLabel {name : String} {label : Placed} (hmem : label ∈ placed)
      (hlabel : label.statement = .label name) (hfar : 255 < label.start) :
      Unresolved placed start (.operation .jmp (some name)) (.addressOverflow label.start)
  | unknownSubroutine {name : String} (h : ∀ q ∈ placed, q.statement.openingName? ≠ some name) :
      Unresolved placed start (.operation .run (some name)) (.unknownSubroutine name)
  | farReturn {name : String} {opening : Placed} (hmem : opening ∈ placed)
      (hopening : opening.statement = .opening name) (hfar : 255 < start + 2) :
      Unresolved placed start (.operation .run (some name)) (.addressOverflow (start + 2))
  | farEntry {name : String} {opening : Placed} (hmem : opening ∈ placed)
      (hopening : opening.statement = .opening name) (hnear : start + 2 ≤ 255)
      (hfar : 255 < opening.start) :
      Unresolved placed start (.operation .run (some name)) (.addressOverflow opening.start)
  | unknownConstant {op : Opcode} {name : String} (hop : op ≠ .jmp ∧ op ≠ .run)
      (h : ∀ q ∈ placed, q.statement.constantName? ≠ some name) :
      Unresolved placed start (.operation op (some ("$" ++ name))) (.unknownConstant name)
  | badLiteral {op : Opcode} {arg : String} (hop : op ≠ .jmp ∧ op ≠ .run)
      (hhead : arg.toList.head? ≠ some '$') (hbad : Literal.byte? arg = none) :
      Unresolved placed start (.operation op (some arg)) (.badLiteral arg)

/-! ## The choice among faults -/

/-- The statements of the lines of a source that have a valid form, at their slots. -/
def placedStatements (source : String) : List Placed :=
  place ((lines source).filterMap fun line => line.reading?.map (⟨line, ·⟩))

/-- All lines of a source have a valid form. -/
def Readable (source : String) : Prop :=
  Clear (Fails Line.statement?) (lines source)

/-- All statements of a source may come where they stand. -/
def WellPlaced (source : String) : Prop :=
  Clear (fun before p => Misplaced before p.statement) (placedStatements source)

/-- The diagnostic that is reported for a source. -/
inductive Reported (source : String) : Diagnostic → Prop
  | line {line : Line} {d : Diagnostic}
      (hline : FirstWrong (Fails Line.statement?) (lines source) line d) : Reported source d
  | misplaced {p : Placed} {fault : Fault} (hread : Readable source)
      (hp : FirstWrong (fun before p => Misplaced before p.statement) (placedStatements source) p
        fault) :
      Reported source (.atLine p.line fault)
  | unclosed {p : Placed} {name : String} (hread : Readable source) (hplaced : WellPlaced source)
      (hopen : OpenAt (placedStatements source) p name) :
      Reported source (.atLine p.line (.unclosedSubroutine name))
  | unresolved {p : Placed} {fault : Fault} (hread : Readable source) (hplaced : WellPlaced source)
      (hclosed : ∀ p name, ¬ OpenAt (placedStatements source) p name)
      (hp : FirstWrong (fun _ p => Unresolved (placedStatements source) p.start p.statement)
        (placedStatements source) p fault) :
      Reported source (.atLine p.line fault)

/-! ## The second pass -/

theorem openBody?_eq_some_iff {placed : List Placed} {name : String} {line : Line} :
    openBody? placed = some (name, line) ↔ ∃ p, OpenAt placed p name ∧ p.line = line := by
  unfold openBody?
  rw [List.getLast?_filter, Option.bind_eq_some_iff]
  constructor
  · rintro ⟨p, hfind, hname⟩
    obtain ⟨-, behind, before, hsplit, hnone⟩ := List.find?_eq_some_iff_append.1 hfind
    obtain ⟨_, hopening, hpair⟩ := Option.map_eq_some_iff.1 hname
    cases hpair
    have hstatement := Statement.openingName?_eq_some_iff.1 hopening
    refine ⟨p, ⟨hstatement, before.reverse, behind.reverse, ?_, ?_⟩, rfl⟩
    · simpa using congrArg List.reverse hsplit
    · intro q hq
      simpa using hnone q (List.mem_reverse.1 hq)
  · rintro ⟨p, ⟨hopening, before, after, rfl, hnone⟩, rfl⟩
    have hmark : p.statement.isMark = true := by rw [hopening]; rfl
    refine ⟨p, List.find?_eq_some_iff_append.2
      ⟨hmark, after.reverse, before.reverse, by simp, ?_⟩, by rw [hopening]; rfl⟩
    intro q hq
    simp [hnone q (List.mem_reverse.1 hq)]

theorem openBody?_eq_none_iff {placed : List Placed} :
    openBody? placed = none ↔ ∀ p name, ¬ OpenAt placed p name := by
  rw [Option.eq_none_iff_forall_ne_some, Prod.forall]
  simp only [ne_eq, openBody?_eq_some_iff]
  constructor
  · intro h p name hopen
    exact h name p.line ⟨p, hopen, rfl⟩
  · rintro h name line ⟨p, hopen, -⟩
    exact h p name hopen

section
variable {placed : List Placed}

/-- A definition is refused by the table of the definitions of its kind among placed statements when
one of them has its name. -/
theorem insert_filterMap_eq_error_iff {α : Type} {symbol? : Placed → Option (Symbol α)}
    {name? : Statement → Option String}
    (hname : ∀ p, (symbol? p).map Symbol.name = name? p.statement)
    (hline : ∀ p symbol, symbol? p = some symbol → symbol.line = p.line.number)
    (hnodup : ((statementsOf placed).filterMap name?).Nodup) {kind : String} {symbol : Symbol α}
    {fault : Fault} :
    (⟨kind, placed.filterMap symbol?⟩ : SymbolTable α).insert symbol = .error fault ↔
      ∃ first ∈ placed, name? first.statement = some symbol.name ∧
        fault = .redefined kind symbol.name first.line.number := by
  rw [← names_filterMap hname placed] at hnodup
  rw [SymbolTable.insert_eq_error_iff hnodup]
  simp only [List.mem_filterMap, ← hname, Option.map_eq_some_iff]
  constructor
  · rintro ⟨first, ⟨p, hp, hsymbol⟩, hfirst, rfl⟩
    exact ⟨p, hp, ⟨first, hsymbol, hfirst⟩, by rw [hline p first hsymbol]⟩
  · rintro ⟨p, hp, ⟨first, hsymbol, hfirst⟩, rfl⟩
    exact ⟨first, ⟨p, hp, hsymbol⟩, hfirst, by rw [hline p first hsymbol]⟩

theorem Placed.constant?_line (p : Placed) (symbol : Symbol UInt8) (h : p.constant? = some symbol) :
    symbol.line = p.line.number := by
  unfold Placed.constant? at h
  split at h
  · cases h; rfl
  · cases h

theorem Placed.slotSymbol?_line (name? : Statement → Option String) (p : Placed)
    (symbol : Symbol Nat) (h : p.slotSymbol? name? = some symbol) :
    symbol.line = p.line.number := by
  obtain ⟨name, -, rfl⟩ := Option.map_eq_some_iff.1 h
  rfl

end

section
variable {placed : List Placed} {p : Placed} {fault : Fault}

/-- A step fails with what is wrong with the statement that it takes. -/
theorem Survey.step_eq_error_iff (h : DistinctNames (statementsOf placed)) :
    (Survey.ofPlaced placed).step p = .error fault ↔ Misplaced placed p.statement fault := by
  obtain ⟨⟨line, s⟩, start⟩ := p
  cases s with
  | constant name value =>
    refine bind_pure_eq_error_iff.trans ((insert_filterMap_eq_error_iff Placed.constant?_name
      Placed.constant?_line h.constants).trans ?_)
    constructor
    · rintro ⟨first, hmem, hname, rfl⟩
      exact .constant hmem hname
    · intro hwrong
      cases hwrong with
      | constant hmem hname => exact ⟨_, hmem, hname, rfl⟩
  | label name =>
    refine bind_pure_eq_error_iff.trans ((insert_filterMap_eq_error_iff
      (Placed.slotSymbol?_name Statement.labelName?) (Placed.slotSymbol?_line Statement.labelName?)
      h.labels).trans ?_)
    constructor
    · rintro ⟨first, hmem, hname, rfl⟩
      exact .label hmem hname
    · intro hwrong
      cases hwrong with
      | label hmem hname => exact ⟨_, hmem, hname, rfl⟩
  | operation op arg? =>
    constructor
    · intro hstep
      cases hstep
    · intro hwrong
      cases hwrong
  | opening name =>
    simp only [Survey.step, Survey.ofPlaced]
    cases hbody : openBody? placed with
    | none =>
      have hclosed := openBody?_eq_none_iff.1 hbody
      refine bind_pure_eq_error_iff.trans ((insert_filterMap_eq_error_iff
        (Placed.slotSymbol?_name Statement.openingName?)
        (Placed.slotSymbol?_line Statement.openingName?) h.openings).trans ?_)
      constructor
      · rintro ⟨first, hmem, hname, rfl⟩
        exact .opening hclosed hmem hname
      · intro hwrong
        cases hwrong with
        | nested hopen => exact absurd hopen (hclosed _ _)
        | opening _ hmem hname => exact ⟨_, hmem, hname, rfl⟩
    | some body =>
      obtain ⟨outer, hopen, -⟩ := openBody?_eq_some_iff.1 hbody
      constructor
      · rintro ⟨⟩
        exact .nested hopen
      · intro hwrong
        cases hwrong with
        | nested hother =>
          -- only one subroutine is open
          have hsame := openBody?_eq_some_iff.2 ⟨_, hother, rfl⟩
          rw [hbody] at hsame
          cases hsame
          rfl
        | opening hclosed _ _ => exact absurd hopen (hclosed _ _)
  | closing =>
    simp only [Survey.step, Survey.ofPlaced]
    cases hbody : openBody? placed with
    | none =>
      constructor
      · rintro ⟨⟩
        exact .closing (openBody?_eq_none_iff.1 hbody)
      · rintro ⟨⟩
        rfl
    | some body =>
      obtain ⟨outer, hopen, -⟩ := openBody?_eq_some_iff.1 hbody
      constructor
      · intro hstep
        cases hstep
      · intro hwrong
        cases hwrong with
        | closing hclosed => exact absurd hopen (hclosed _ _)

/-- A statement may come next exactly when nothing is wrong with it. -/
theorem admits_iff_forall_not_misplaced (h : DistinctNames (statementsOf placed)) :
    Admits (statementsOf placed) p.statement ↔ ∀ fault, ¬ Misplaced placed p.statement fault := by
  simp only [← Survey.step_eq_error_iff h]
  cases hstep : (Survey.ofPlaced placed).step p with
  | ok next =>
    obtain ⟨hadmits, -⟩ := Survey.step_eq_ok_iff.1 hstep
    exact ⟨fun _ => nofun, fun _ => hadmits⟩
  | error fault =>
    constructor
    · intro hadmits
      rw [Survey.step_eq_ok_iff.2 ⟨hadmits, rfl⟩] at hstep
      cases hstep
    · intro hnone
      exact absurd rfl (hnone fault)

theorem clear_misplaced_iff :
    Clear (fun before p => Misplaced before p.statement) placed ↔
      Admissible (statementsOf placed) := by
  induction placed using List.reverseRecOn with
  | nil => exact ⟨fun _ => admissible_nil, fun _ => clear_nil⟩
  | append_singleton placed p ih =>
    rw [clear_concat_iff, ih, statementsOf_append, show statementsOf [p] = [p.statement] from rfl,
      admissible_concat_iff]
    refine and_congr_right fun hadm => ?_
    rw [admits_iff_forall_not_misplaced hadm.toDistinctNames]

theorem consistent_iff_clear :
    Consistent (statementsOf placed) ↔
      Clear (fun before p => Misplaced before p.statement) placed ∧
        ∀ p name, ¬ OpenAt placed p name := by
  rw [consistent_iff, clear_misplaced_iff, ← openBody?_eq_none_iff, ← isSome_openBody?]
  simp

/-- The pass over placed statements stops at the first one that may not come where it stands. -/
theorem Survey.run_eq_error_iff {d : Diagnostic} :
    Survey.run (Survey.ofPlaced []) placed = .error d ↔
      ∃ p fault, FirstWrong (fun before p => Misplaced before p.statement) placed p fault ∧
        .atLine p.line fault = d := by
  induction placed using List.reverseRecOn with
  | nil =>
    refine ⟨nofun, ?_⟩
    rintro ⟨p, fault, hp, -⟩
    exact absurd hp not_firstWrong_nil
  | append_singleton placed p ih =>
    rw [Survey.run_concat, bind_eq_error_iff, ih]
    constructor
    · rintro (⟨q, fault, hq, rfl⟩ | ⟨survey, hrun, hlast⟩)
      · exact ⟨q, fault, hq.append [p], rfl⟩
      · obtain ⟨hadm, rfl⟩ := Survey.run_eq_ok_iff.1 hrun
        obtain ⟨fault, hstep, rfl⟩ := mapError_eq_error_iff.1 hlast
        have hwrong := (Survey.step_eq_error_iff hadm.toDistinctNames).1 hstep
        exact ⟨p, fault,
          firstWrong_concat_iff.2 (Or.inr ⟨clear_misplaced_iff.2 hadm, rfl, hwrong⟩), rfl⟩
    · rintro ⟨q, fault, hq, rfl⟩
      rcases firstWrong_concat_iff.1 hq with hq | ⟨hclear, rfl, hwrong⟩
      · exact Or.inl ⟨q, fault, hq, rfl⟩
      · have hadm := clear_misplaced_iff.1 hclear
        have hstep := (Survey.step_eq_error_iff hadm.toDistinctNames).2 hwrong
        exact Or.inr ⟨_, Survey.run_eq_ok_iff.2 ⟨hadm, rfl⟩,
          mapError_eq_error_iff.2 ⟨fault, hstep, rfl⟩⟩

/-- The tables are not filled because of a statement that may not come where it stands, or else of a
subroutine that is never closed. -/
theorem symbolsOf_eq_error_iff {d : Diagnostic} :
    symbolsOf placed = .error d ↔
      (∃ p fault, FirstWrong (fun before p => Misplaced before p.statement) placed p fault ∧
        .atLine p.line fault = d) ∨
      (Clear (fun before p => Misplaced before p.statement) placed ∧
        ∃ p name, OpenAt placed p name ∧ .atLine p.line (.unclosedSubroutine name) = d) := by
  rw [symbolsOf_eq, bind_eq_error_iff, Survey.run_eq_error_iff]
  refine or_congr_right ?_
  simp only [Survey.run_eq_ok_iff, Survey.finish_eq_error_iff, clear_misplaced_iff]
  constructor
  · rintro ⟨_, ⟨hadm, rfl⟩, name, line, hbody, rfl⟩
    obtain ⟨p, hopen, rfl⟩ := openBody?_eq_some_iff.1 hbody
    exact ⟨hadm, p, name, hopen, rfl⟩
  · rintro ⟨hadm, p, name, hopen, rfl⟩
    exact ⟨_, ⟨hadm, rfl⟩, name, p.line, openBody?_eq_some_iff.2 ⟨p, hopen, rfl⟩, rfl⟩

end

/-! ## The third pass -/

section
variable {placed : List Placed} {start : Nat} {op : Opcode} {arg : String} {fault : Fault}

theorem jump_eq_error_iff_unresolved (h : DistinctNames (statementsOf placed)) :
    (Symbols.ofPlaced placed).jump arg = .error fault ↔
      Unresolved placed start (.operation .jmp (some arg)) fault := by
  have hnone : (Symbols.ofPlaced placed).labels.get? arg = none ↔
      ∀ q ∈ placed, q.statement.labelName? ≠ some arg :=
    get?_filterMap_eq_none_iff (Placed.slotSymbol?_name Statement.labelName?)
  rw [Symbols.jump_eq_error_iff, hnone]
  simp only [labels_get?_eq_some_iff h]
  constructor
  · rintro (⟨hunknown, rfl⟩ | ⟨_, ⟨label, hmem, hlabel, rfl⟩, hfar, rfl⟩)
    · exact .unknownLabel hunknown
    · exact .farLabel hmem hlabel hfar
  · intro hwrong
    cases hwrong with
    | unknownLabel hunknown => exact Or.inl ⟨hunknown, rfl⟩
    | farLabel hmem hlabel hfar => exact Or.inr ⟨_, ⟨_, hmem, hlabel, rfl⟩, hfar, rfl⟩
    | unknownConstant hop => exact absurd rfl hop.1
    | badLiteral hop => exact absurd rfl hop.1

theorem call_eq_error_iff_unresolved (h : DistinctNames (statementsOf placed)) :
    (Symbols.ofPlaced placed).call start arg = .error fault ↔
      Unresolved placed start (.operation .run (some arg)) fault := by
  have hnone : (Symbols.ofPlaced placed).subroutines.get? arg = none ↔
      ∀ q ∈ placed, q.statement.openingName? ≠ some arg :=
    get?_filterMap_eq_none_iff (Placed.slotSymbol?_name Statement.openingName?)
  rw [Symbols.call_eq_error_iff, hnone]
  simp only [subroutines_get?_eq_some_iff h]
  constructor
  · rintro (⟨hunknown, rfl⟩ |
      ⟨_, ⟨opening, hmem, hopening, rfl⟩, ⟨hfar, rfl⟩ | ⟨hnear, hfar, rfl⟩⟩)
    · exact .unknownSubroutine hunknown
    · exact .farReturn hmem hopening hfar
    · exact .farEntry hmem hopening hnear hfar
  · intro hwrong
    cases hwrong with
    | unknownSubroutine hunknown => exact Or.inl ⟨hunknown, rfl⟩
    | farReturn hmem hopening hfar =>
      exact Or.inr ⟨_, ⟨_, hmem, hopening, rfl⟩, Or.inl ⟨hfar, rfl⟩⟩
    | farEntry hmem hopening hnear hfar =>
      exact Or.inr ⟨_, ⟨_, hmem, hopening, rfl⟩, Or.inr ⟨hnear, hfar, rfl⟩⟩
    | unknownConstant hop => exact absurd rfl hop.2
    | badLiteral hop => exact absurd rfl hop.2

theorem value_eq_error_iff_unresolved (hop : op ≠ .jmp ∧ op ≠ .run) :
    (Symbols.ofPlaced placed).value arg = .error fault ↔
      Unresolved placed start (.operation op (some arg)) fault := by
  have hnone : ∀ name, (Symbols.ofPlaced placed).constants.get? name = none ↔
      ∀ q ∈ placed, q.statement.constantName? ≠ some name :=
    fun _ => get?_filterMap_eq_none_iff Placed.constant?_name
  simp only [Symbols.value_eq_error_iff, hnone]
  constructor
  · rintro (⟨name, rfl, hunknown, rfl⟩ | ⟨hhead, hbad, rfl⟩)
    · exact .unknownConstant hop hunknown
    · exact .badLiteral hop hhead hbad
  · intro hwrong
    cases hwrong with
    | unknownConstant _ hunknown => exact Or.inl ⟨_, rfl, hunknown, rfl⟩
    | badLiteral _ hhead hbad => exact Or.inr ⟨hhead, hbad, rfl⟩
    | unknownLabel => exact absurd rfl hop.1
    | farLabel => exact absurd rfl hop.1
    | unknownSubroutine => exact absurd rfl hop.2
    | farReturn => exact absurd rfl hop.2
    | farEntry => exact absurd rfl hop.2

theorem operand_eq_error_iff (h : DistinctNames (statementsOf placed)) :
    (Symbols.ofPlaced placed).operand op start arg = .error fault ↔
      Unresolved placed start (.operation op (some arg)) fault := by
  cases op with
  | jmp => exact jump_eq_error_iff_unresolved h
  | run => exact call_eq_error_iff_unresolved h
  | _ => exact value_eq_error_iff_unresolved ⟨nofun, nofun⟩

/-- A placed statement becomes no instruction because of its operand. -/
theorem Placed.instruction_eq_error_iff (h : DistinctNames (statementsOf placed)) {p : Placed}
    {d : Diagnostic} :
    p.instruction (Symbols.ofPlaced placed) = .error d ↔
      ∃ fault, Unresolved placed p.start p.statement fault ∧ .atLine p.line fault = d := by
  have hoperand : ∀ fault, p.operand? (Symbols.ofPlaced placed) = .error fault ↔
      Unresolved placed p.start p.statement fault := by
    intro fault
    by_cases hs : ∃ op arg, p.statement = .operation op (some arg)
    · obtain ⟨op, arg, hs⟩ := hs
      rw [Placed.operand?_of_operation hs, map_eq_error_iff, operand_eq_error_iff h, hs]
    · rw [Placed.operand?_of_ne fun op arg hs' => hs ⟨op, arg, hs'⟩]
      refine ⟨nofun, fun hwrong => absurd ?_ hs⟩
      generalize p.statement = s at hwrong
      cases hwrong <;> exact ⟨_, _, rfl⟩
  simp only [← hoperand]
  unfold Placed.instruction
  cases p.operand? (Symbols.ofPlaced placed) with
  | ok operand? => simp
  | error fault => simp

end

/-! ## All passes -/

section
variable {source : String} {d : Diagnostic}

theorem sourceStatements_eq_error_iff :
    sourceStatements source = .error d ↔
      ∃ line, FirstWrong (Fails Line.statement?) (lines source) line d := by
  have hfails : Fails Line.sourceStatement? = Fails Line.statement? := by
    funext before line d
    exact propext map_eq_error_iff
  rw [sourceStatements, filterMapM_eq_error_iff, hfails]

theorem sourceStatements_eq_ok_iff_readable {statements : List SourceStatement} :
    sourceStatements source = .ok statements ↔
      Readable source ∧
        statements = (lines source).filterMap fun line => line.reading?.map (⟨line, ·⟩) := by
  rw [sourceStatements_eq_ok_iff, Readable, clear_fails_iff]

/-- The operands are resolved where the tables are filled, and the first one that leads nowhere
stops the pass. -/
theorem Program.ofPlaced_eq_error_iff {placed : List Placed} :
    Program.ofPlaced placed = .error d ↔
      symbolsOf placed = .error d ∨
        (Consistent (statementsOf placed) ∧
          ∃ p fault, FirstWrong (fun _ p => Unresolved placed p.start p.statement) placed p fault ∧
            .atLine p.line fault = d) := by
  rw [Program.ofPlaced, bind_eq_error_iff]
  refine or_congr_right ?_
  simp only [symbolsOf_eq_ok_iff, bind_pure_eq_error_iff, mapM_eq_error_iff]
  have hwrong (hcons : Consistent (statementsOf placed)) (p : Placed) :
      FirstWrong (Fails (Placed.instruction (Symbols.ofPlaced placed))) placed p d ↔
        ∃ fault, FirstWrong (fun _ p => Unresolved placed p.start p.statement) placed p fault ∧
          .atLine p.line fault = d := by
    apply firstWrong_iff_of_iff
    intro before q e
    exact Placed.instruction_eq_error_iff hcons.toDistinctNames
  constructor
  · rintro ⟨_, ⟨hcons, rfl⟩, p, hp⟩
    exact ⟨hcons, p, (hwrong hcons p).1 hp⟩
  · rintro ⟨hcons, p, hp⟩
    exact ⟨_, ⟨hcons, rfl⟩, p, (hwrong hcons p).2 hp⟩

theorem assemble_eq_error_iff : assemble source = .error d ↔ Reported source d := by
  have hsecond : (∃ statements, sourceStatements source = .ok statements ∧
      Program.ofPlaced (place statements) = .error d) ↔
        Readable source ∧ Program.ofPlaced (placedStatements source) = .error d := by
    simp only [sourceStatements_eq_ok_iff_readable, and_assoc, exists_and_left, exists_eq_left]
    rfl
  rw [assemble, bind_eq_error_iff, sourceStatements_eq_error_iff, hsecond,
    Program.ofPlaced_eq_error_iff, symbolsOf_eq_error_iff, consistent_iff_clear]
  constructor
  · rintro (⟨line, hline⟩ | ⟨hread, (⟨p, fault, hp, rfl⟩ | ⟨hplaced, p, name, hopen, rfl⟩) |
      ⟨⟨hplaced, hclosed⟩, p, fault, hp, rfl⟩⟩)
    · exact .line hline
    · exact .misplaced hread hp
    · exact .unclosed hread hplaced hopen
    · exact .unresolved hread hplaced hclosed hp
  · intro hreported
    cases hreported with
    | line hline => exact Or.inl ⟨_, hline⟩
    | misplaced hread hp => exact Or.inr ⟨hread, Or.inl (Or.inl ⟨_, _, hp, rfl⟩)⟩
    | unclosed hread hplaced hopen =>
      exact Or.inr ⟨hread, Or.inl (Or.inr ⟨hplaced, _, _, hopen, rfl⟩)⟩
    | unresolved hread hplaced hclosed hp =>
      exact Or.inr ⟨hread, Or.inr ⟨⟨hplaced, hclosed⟩, _, _, hp, rfl⟩⟩

/-! ## The line of a diagnostic -/

theorem getElem?_lines_of_mem {line : Line} (h : line ∈ lines source) :
    1 ≤ line.number ∧ (lines source)[line.number - 1]? = some line := by
  obtain ⟨i, hi⟩ := List.mem_iff_getElem?.1 h
  have hline := hi
  rw [lines, List.getElem?_mapIdx, Option.map_eq_some_iff] at hline
  obtain ⟨text, -, rfl⟩ := hline
  exact ⟨by simp, by simpa using hi⟩

theorem line_mem_codeLines_of_mem_placedStatements {p : Placed}
    (h : p ∈ placedStatements source) : p.line ∈ codeLines source := by
  obtain ⟨i, hi⟩ := List.mem_iff_getElem?.1 h
  obtain ⟨line, hline, hread⟩ :=
    List.mem_filterMap.1 (List.mem_of_getElem? (getElem?_place.1 hi).1)
  obtain ⟨s, hs, hp⟩ := Option.map_eq_some_iff.1 hread
  rw [← hp]
  refine mem_codeLines_of_ne_none hline fun hblank => ?_
  simp [Line.reading?, hblank, Except.toOption] at hs

/-- A diagnostic is about a line that is not blank. -/
theorem Reported.line_mem_codeLines (h : Reported source d) :
    ∃ line ∈ codeLines source, d.line? = some line := by
  cases h with
  | line hline =>
    obtain ⟨before, after, -, -, hfails⟩ := id hline
    obtain ⟨fault, -, rfl⟩ := mapError_eq_error_iff.1 hfails
    refine ⟨_, mem_codeLines_of_ne_none hline.mem fun hblank => ?_, rfl⟩
    rw [Fails, hblank] at hfails
    cases hfails
  | misplaced _ hp => exact ⟨_, line_mem_codeLines_of_mem_placedStatements hp.mem, rfl⟩
  | unclosed _ _ hopen =>
    obtain ⟨-, before, after, hsplit, -⟩ := hopen
    exact ⟨_, line_mem_codeLines_of_mem_placedStatements (by simp [hsplit]), rfl⟩
  | unresolved _ _ _ hp => exact ⟨_, line_mem_codeLines_of_mem_placedStatements hp.mem, rfl⟩

theorem Reported.exists_line_mem (h : Reported source d) :
    ∃ line ∈ lines source, d.line? = some line := by
  obtain ⟨line, hmem, hline⟩ := h.line_mem_codeLines
  exact ⟨line, List.mem_of_mem_filter hmem, hline⟩

end

/-- **The fault that is reported.** A source fails with the diagnostic that `Reported` gives for it
and with no other, and the diagnostic shows the line that it is about. -/
theorem assemble_reports (source : String) (d : Diagnostic) :
    (assemble source = .error d ↔ Reported source d) ∧
      (assemble source = .error d → ∃ line, d.line? = some line ∧ 1 ≤ line.number ∧
        line.number ≤ (lines source).length ∧
        (lines source)[line.number - 1]? = some line) := by
  refine ⟨assemble_eq_error_iff, fun h => ?_⟩
  obtain ⟨line, hmem, hline⟩ := (assemble_eq_error_iff.1 h).exists_line_mem
  obtain ⟨hpos, hget⟩ := getElem?_lines_of_mem hmem
  have hlt : line.number - 1 < (lines source).length := (List.getElem?_eq_some_iff.1 hget).1
  exact ⟨line, hline, hpos, by omega, hget⟩

/-- A source with a fault for the second and the third pass: the subroutine inside another one comes
before the constant that is defined twice, and its name is not looked at. -/
theorem assemble_reports_nested :
    ∃ d, assemble "  JMP nowhere\nouter\x7b\nouter\x7b\n$A 1\n$A 2\n" = .error d ∧
      d = .atLine ⟨3, "outer\x7b"⟩ (.nestedSubroutine "outer" "outer") ∧
      Reported "  JMP nowhere\nouter\x7b\nouter\x7b\n$A 1\n$A 2\n" d ∧
      ∃ line, d.line? = some line ∧
        (lines "  JMP nowhere\nouter\x7b\nouter\x7b\n$A 1\n$A 2\n")[line.number - 1]? = some line := by
  have h : assemble "  JMP nowhere\nouter\x7b\nouter\x7b\n$A 1\n$A 2\n" =
      .error (.atLine ⟨3, "outer\x7b"⟩ (.nestedSubroutine "outer" "outer")) := by decide +kernel
  obtain ⟨hreported, hline⟩ := assemble_reports _ _
  obtain ⟨line, hsome, -, -, hget⟩ := hline h
  exact ⟨_, h, rfl, hreported.1 h, line, hsome, hget⟩

end Breadboard
