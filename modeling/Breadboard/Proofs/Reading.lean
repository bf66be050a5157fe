import Breadboard.Layout
import Breadboard.Proofs.Fallible

/-!
# Reading a source

What the first pass makes of a source. `sourceStatements_eq_ok_iff` says that the pass succeeds
exactly when every line has a valid form, and that its result is then the statements of the lines
in order. Blank lines say nothing, and can be left out before
(`sourceStatements_eq_filterMapM_codeLines`). A line is read on its own: its number shows only in a
diagnostic (`Line.statement?_lower`), so a source that follows whole lines is read as it is read
alone, further down (`sourceStatements_append`).
-/

namespace Breadboard

/-! ## Statements of a source -/

/-- The statement of a line that has a valid form and is not blank. -/
def Line.reading? (line : Line) : Option Statement :=
  line.statement?.toOption.join

/-- The statements that the lines of a source say, in order. -/
def readings (source : String) : List Statement :=
  (lines source).filterMap Line.reading?

theorem Line.sourceStatement?_toOption (line : Line) :
    line.sourceStatement?.toOption.join = line.reading?.map (⟨line, ·⟩) := by
  unfold Line.sourceStatement? Line.reading?
  cases line.statement? <;> rfl

/-- Reading succeeds exactly when every line has a valid form. -/
theorem sourceStatements_eq_ok_iff {source : String} {statements : List SourceStatement} :
    sourceStatements source = .ok statements ↔
      (∀ line ∈ lines source, ∃ statement?, line.statement? = .ok statement?) ∧
        statements = (lines source).filterMap fun line => line.reading?.map (⟨line, ·⟩) := by
  rw [sourceStatements, filterMapM_eq_ok_iff]
  simp only [Line.sourceStatement?_toOption]
  refine and_congr_left fun _ => forall₂_congr fun line _ => ?_
  constructor
  · rintro ⟨_, h⟩
    obtain ⟨statement?, h, _⟩ := map_eq_ok_iff.1 h
    exact ⟨statement?, h⟩
  · rintro ⟨statement?, h⟩
    exact ⟨_, map_eq_ok_iff.2 ⟨statement?, h, rfl⟩⟩

theorem map_statement_sourceStatements {source : String} {statements : List SourceStatement}
    (h : sourceStatements source = .ok statements) :
    statements.map SourceStatement.statement = readings source := by
  rw [(sourceStatements_eq_ok_iff.1 h).2, List.map_filterMap, readings]
  simp [Function.comp_def]

/-! ## Line numbers -/

theorem pairwise_number_lines (source : String) :
    (lines source).Pairwise fun line other => line.number < other.number := by
  rw [List.pairwise_iff_getElem]
  intro i j hi hj hlt
  simp only [lines, List.getElem_mapIdx]
  omega

/-- The statements of a source stand on lines further and further down. -/
theorem pairwise_number_sourceStatements {source : String} {statements : List SourceStatement}
    (h : sourceStatements source = .ok statements) :
    statements.Pairwise fun s t => s.line.number < t.line.number := by
  rw [(sourceStatements_eq_ok_iff.1 h).2]
  refine List.pairwise_filterMap.2 ((pairwise_number_lines source).imp ?_)
  intro line other hlt s hs t ht
  obtain ⟨_, -, rfl⟩ := Option.map_eq_some_iff.1 hs
  obtain ⟨_, -, rfl⟩ := Option.map_eq_some_iff.1 ht
  exact hlt

/-! ## Blank lines -/

/-- The lines of a source that are not blank. -/
def codeLines (source : String) : List Line :=
  (lines source).filter fun line => line.code != ""

theorem Line.statement?_of_code_eq_empty {line : Line} (h : line.code = "") :
    line.statement? = .ok none := by
  have hcode : normalize line.text.toList = [] := String.ofList_eq_empty_iff.1 h
  rw [Line.statement?, hcode]
  rfl

theorem mem_codeLines_of_ne_none {source : String} {line : Line} (hmem : line ∈ lines source)
    (h : line.statement? ≠ .ok none) : line ∈ codeLines source := by
  refine List.mem_filter.2 ⟨hmem, ?_⟩
  simpa using fun hcode => h (Line.statement?_of_code_eq_empty hcode)

/-- Blank lines can be left out before reading. -/
theorem sourceStatements_eq_filterMapM_codeLines (source : String) :
    sourceStatements source = (codeLines source).filterMapM Line.sourceStatement? := by
  refine (filterMapM_filter fun line _ hblank => ?_).symm
  have hcode : line.code = "" := by simpa using hblank
  rw [Line.sourceStatement?, Line.statement?_of_code_eq_empty hcode]
  rfl

/-! ## What a statement looks like -/

theorem Statement.ofMnemonic_eq_ok {mnemonic : String} {arg? : Option String} {s : Statement}
    (h : Statement.ofMnemonic mnemonic arg? = .ok s) :
    ∃ op, s = .operation op arg? ∧ arg?.isSome = op.hasOperand := by
  unfold Statement.ofMnemonic at h
  split at h
  · cases h
  · rename_i op _
    cases hneeds : op.hasOperand <;> cases arg? <;> simp only [hneeds] at h <;> cases h
    · exact ⟨op, rfl, by rw [hneeds]; rfl⟩
    · exact ⟨op, rfl, by rw [hneeds]; rfl⟩

theorem Statement.ofMnemonic_operand {mnemonic : String} {given? : Option String} {op : Opcode}
    {arg? : Option String} (h : Statement.ofMnemonic mnemonic given? = .ok (.operation op arg?)) :
    arg?.isSome = op.hasOperand := by
  obtain ⟨_, hs, hneeds⟩ := Statement.ofMnemonic_eq_ok h
  cases hs
  exact hneeds

theorem Statement.ofCode?_operand {code : List Char} {op : Opcode} {arg? : Option String}
    (h : Statement.ofCode? code = .ok (some (.operation op arg?))) :
    arg?.isSome = op.hasOperand := by
  unfold Statement.ofCode? at h
  -- a blank line, a constant, an operation, a mark: only the third gives an operation
  split at h
  · cases h
  · obtain ⟨s, hs, h⟩ := map_eq_ok_iff.1 h
    cases h
    unfold Statement.readConstant at hs
    repeat' split at hs
    all_goals cases hs
  · obtain ⟨s, hs, h⟩ := map_eq_ok_iff.1 h
    cases h
    unfold Statement.readOperation at hs
    split at hs
    · cases hs
    · exact Statement.ofMnemonic_operand hs
    · exact Statement.ofMnemonic_operand hs
    · exact Statement.ofMnemonic_operand hs
  · obtain ⟨s, hs, h⟩ := map_eq_ok_iff.1 h
    cases h
    unfold Statement.readMark at hs
    dsimp only at hs
    repeat' split at hs
    all_goals cases hs

/-- Every operation has an operand exactly when its opcode needs one. -/
def Shaped (statements : List Statement) : Prop :=
  ∀ op arg?, Statement.operation op arg? ∈ statements → arg?.isSome = op.hasOperand

theorem shaped_readings (source : String) : Shaped (readings source) := by
  intro op arg? h
  obtain ⟨line, _, h⟩ := List.mem_filterMap.1 h
  have hread : line.statement? = .ok (some (.operation op arg?)) := by
    unfold Line.reading? at h
    cases hline : line.statement? with
    | error d => rw [hline] at h; cases h
    | ok s => rw [hline] at h; exact congrArg _ (by simpa [Except.toOption] using h)
  exact Statement.ofCode?_operand (mapError_eq_ok_iff.1 hread)

theorem shaped_sourceStatements {source : String} {statements : List SourceStatement}
    (h : sourceStatements source = .ok statements) :
    Shaped (statements.map SourceStatement.statement) := by
  rw [map_statement_sourceStatements h]
  exact shaped_readings source

/-! ## Whole lines -/

/-- A text that does not stop inside a line: it is empty or ends with a line feed. -/
def WholeLines (text : String) : Prop :=
  text = "" ∨ ∃ t, text = t ++ "\n"

/-- A line `n` lines further down. -/
def Line.lower (n : Nat) (line : Line) : Line :=
  { line with number := line.number + n }

/-- A statement `n` lines further down. -/
def SourceStatement.lower (n : Nat) (s : SourceStatement) : SourceStatement :=
  { s with line := s.line.lower n }

@[simp] theorem SourceStatement.statement_lower (n : Nat) (s : SourceStatement) :
    (s.lower n).statement = s.statement := rfl

theorem lineTexts_append_newline (t b : List Char) :
    lineTexts (t ++ '\n' :: b) = (t.splitOn '\n').map dropReturn ++ lineTexts b := by
  have hne : b.splitOn '\n' ≠ [] := List.splitOn_ne_nil _ _
  simp only [lineTexts, List.splitOn_append_cons_self, List.dropLast_append_of_ne_nil hne,
    List.getLast?_append, List.getLast?_eq_some_getLast hne, Option.some_or, List.map_append,
    List.append_assoc]

theorem lineTexts_append {a b : String} (h : WholeLines a) :
    lineTexts (a ++ b).toList = lineTexts a.toList ++ lineTexts b.toList := by
  rcases h with rfl | ⟨t, rfl⟩
  · simp [lineTexts]
  · -- the last line feed of the first text is a cut also in the joined text
    have hend := lineTexts_append_newline t.toList []
    have hjoin := lineTexts_append_newline t.toList b.toList
    have hnil : lineTexts [] = [] := by simp [lineTexts]
    rw [hnil, List.append_nil] at hend
    simp only [String.toList_append, List.append_assoc]
    show lineTexts (t.toList ++ '\n' :: b.toList) =
      lineTexts (t.toList ++ ['\n']) ++ lineTexts b.toList
    rw [hjoin, hend]

/-- Lines that follow whole lines keep their texts, and are numbered on. -/
theorem lines_append {a b : String} (h : WholeLines a) :
    lines (a ++ b) = lines a ++ (lines b).map (Line.lower (lines a).length) := by
  simp only [lines, lineTexts_append h, List.mapIdx_append, List.length_mapIdx]
  congr 1
  apply List.mapIdx_eq_iff.2
  intro i
  simp only [List.getElem?_map, List.getElem?_mapIdx, Option.map_map]
  congr 1
  funext text
  simp only [Function.comp_apply, Line.lower]
  congr 1
  omega

/-- The number of a line shows in its diagnostic only. -/
theorem Line.statement?_lower {n : Nat} {line : Line} {statement? : Option Statement} :
    (line.lower n).statement? = .ok statement? ↔ line.statement? = .ok statement? := by
  simp only [Line.statement?, mapError_eq_ok_iff, Line.lower]

@[simp] theorem Line.reading?_lower (n : Nat) (line : Line) :
    (line.lower n).reading? = line.reading? := by
  simp only [Line.reading?, Line.statement?, Line.lower]
  cases Statement.ofCode? (normalize line.text.toList) <;> rfl

/-- A source after whole lines is read as it is read alone, with its lines numbered on. -/
theorem sourceStatements_append {a b : String} (h : WholeLines a)
    {statements : List SourceStatement} :
    sourceStatements (a ++ b) = .ok statements ↔
      ∃ first second, sourceStatements a = .ok first ∧ sourceStatements b = .ok second ∧
        statements = first ++ second.map (SourceStatement.lower (lines a).length) := by
  simp only [sourceStatements_eq_ok_iff, lines_append h, List.forall_mem_append,
    List.forall_mem_map, Line.statement?_lower, List.filterMap_append, List.filterMap_map]
  have hlower : ∀ xs : List Line,
      (xs.filterMap ((fun line => line.reading?.map (⟨line, ·⟩)) ∘ Line.lower (lines a).length)) =
        (xs.filterMap fun line => line.reading?.map (⟨line, ·⟩)).map
          (SourceStatement.lower (lines a).length) := by
    intro xs
    rw [List.map_filterMap]
    congr 1
    funext line
    simp only [Function.comp_apply, Line.reading?_lower, Option.map_map]
    rfl
  constructor
  · rintro ⟨⟨ha, hb⟩, rfl⟩
    exact ⟨_, _, ⟨ha, rfl⟩, ⟨hb, rfl⟩, by rw [hlower]⟩
  · rintro ⟨_, _, ⟨ha, rfl⟩, ⟨hb, rfl⟩, rfl⟩
    exact ⟨⟨ha, hb⟩, by rw [hlower]⟩

end Breadboard
