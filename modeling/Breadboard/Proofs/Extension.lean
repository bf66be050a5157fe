import Breadboard.Proofs.Diagnosis
import Breadboard.Proofs.Relocation
import Mathlib.Data.List.Infix

/-!
# Lines at the end of a source

What lines that are put behind whole lines can change. A statement is placed by what comes before
it, and a look-up in the tables of a longer source finds what it finds in those of a shorter one,
for no name is defined twice. So a program is the beginning of the program of the longer source
(`assemble_append_beginsWith`), and a source that fails can be repaired by more lines only where
these bring what is missing (`assemble_append_of_error`).
-/

namespace Breadboard

theorem place_isPrefix (xs ys : List SourceStatement) : place xs <+: place (xs ++ ys) := by
  rw [place, place, placeFrom_append]
  exact List.prefix_append _ _

/-! ## Sources that assemble -/

/-- A program begins with another one: so do its instructions, its definitions of each kind and its
bytes. -/
structure Program.BeginsWith (long short : Program) : Prop where
  instructions : short.instructions <+: long.instructions
  constants : short.symbols.constants.symbols <+: long.symbols.constants.symbols
  labels : short.symbols.labels.symbols <+: long.symbols.labels.symbols
  subroutines : short.symbols.subroutines.symbols <+: long.symbols.subroutines.symbols
  bytes : short.bytes <+: long.bytes

namespace Assembled

variable {xs ys : List SourceStatement} {p q : Program}

theorem instructions_isPrefix (hp : Assembled xs p) (hq : Assembled (xs ++ ys) q) :
    p.instructions <+: q.instructions := by
  obtain ⟨more, hplace⟩ := place_isPrefix xs ys
  have hwhole : DistinctNames (statementsOf (place (xs ++ ys))) := by
    rw [statementsOf_place]
    exact hq.consistent.toDistinctNames
  have hfirst := hp.map_instruction_first_iff hwhole (place_isPrefix xs ys).subset
  -- the instructions of the longer source are those of the placed statements of both parts
  have hresolved : (place xs).map (Placed.instruction (Symbols.ofPlaced (place (xs ++ ys)))) ++
      more.map (Placed.instruction (Symbols.ofPlaced (place (xs ++ ys)))) =
        q.instructions.map Except.ok := by
    rw [← List.map_append, hplace, ← hq.symbols_eq, hq.resolved]
  obtain ⟨first, second, hall, hxs, -⟩ := List.map_eq_append_iff.1 hresolved.symm
  obtain rfl := (hfirst first).1 hxs.symm
  exact ⟨second, hall.symm⟩

theorem beginsWith (hp : Assembled xs p) (hq : Assembled (xs ++ ys) q) : q.BeginsWith p := by
  have hinstructions := hp.instructions_isPrefix hq
  have hplace := place_isPrefix xs ys
  constructor
  case instructions => exact hinstructions
  case constants =>
    rw [hp.symbols_eq, hq.symbols_eq]
    exact hplace.filterMap _
  case labels =>
    rw [hp.symbols_eq, hq.symbols_eq]
    exact hplace.filterMap _
  case subroutines =>
    rw [hp.symbols_eq, hq.symbols_eq]
    exact hplace.filterMap _
  case bytes => exact (hinstructions.flatMap _).flatMap _

end Assembled

/-- **Stability.** Lines behind a source that assembles change nothing of its program. -/
theorem assemble_append_beginsWith {a b : String} {p q : Program} (hlines : WholeLines a)
    (hp : assemble a = .ok p) (hq : assemble (a ++ b) = .ok q) : q.BeginsWith p := by
  obtain ⟨xs, hxs, hp⟩ := assemble_eq_ok_iff.1 hp
  obtain ⟨statements, hread, hq⟩ := assemble_eq_ok_iff.1 hq
  obtain ⟨first, second, hfirst, -, rfl⟩ := (sourceStatements_append hlines).1 hread
  obtain rfl : xs = first := Except.ok.inj (hxs.symm.trans hfirst)
  exact hp.beginsWith hq

/-- A jump, a call and a constant, and behind them lines that use all three and assemble with them
only. -/
theorem assemble_append_beginsWith_uses :
    ∃ p q, assemble "  JMP end\n  RUN greet\n$N 7\nend\ngreet\x7b\n\x7d\n" = .ok p ∧
      assemble ("  JMP end\n  RUN greet\n$N 7\nend\ngreet\x7b\n\x7d\n" ++
        "$M 1\n  LDAV $N\n  JMP end\n  RUN greet") = .ok q ∧
      p.slotCount = 6 ∧ q.slotCount = 10 ∧ q.BeginsWith p := by
  have hfirst : (assemble "  JMP end\n  RUN greet\n$N 7\nend\ngreet\x7b\n\x7d\n").map
      Program.slotCount = .ok 6 := by decide +kernel
  have hboth : (assemble ("  JMP end\n  RUN greet\n$N 7\nend\ngreet\x7b\n\x7d\n" ++
      "$M 1\n  LDAV $N\n  JMP end\n  RUN greet")).map Program.slotCount = .ok 10 := by
    decide +kernel
  obtain ⟨p, hp, hpcount⟩ := map_eq_ok_iff.1 hfirst
  obtain ⟨q, hq, hqcount⟩ := map_eq_ok_iff.1 hboth
  have hlines : WholeLines "  JMP end\n  RUN greet\n$N 7\nend\ngreet\x7b\n\x7d\n" :=
    Or.inr ⟨"  JMP end\n  RUN greet\n$N 7\nend\ngreet\x7b\n\x7d", by decide⟩
  exact ⟨p, q, hp, hq, hpcount, hqcount, assemble_append_beginsWith hlines hp hq⟩

/-! ## Sources that fail -/

namespace Fault

/-- A definition or a closing brace is missing, which may still come. -/
def isMissing : Fault → Bool
  | unknownConstant _ | unknownLabel _ | unknownSubroutine _ | unclosedSubroutine _ => true
  | _ => false

/-- A statement may not come where it stands. -/
def isMisplaced : Fault → Bool
  | nestedSubroutine _ _ | unmatchedClosing | redefined _ _ _ => true
  | _ => false

/-- A literal or an address is no byte. -/
def isUnfit : Fault → Bool
  | badLiteral _ | addressOverflow _ => true
  | _ => false

end Fault

section
variable {placed more : List Placed} {start : Nat} {s : Statement} {fault : Fault}

theorem Misplaced.isMisplaced (h : Misplaced placed s fault) : fault.isMisplaced := by
  cases h <;> rfl

theorem Misplaced.not_isUnfit (h : Misplaced placed s fault) : ¬ fault.isUnfit := by
  cases h <;> exact Bool.false_ne_true

theorem Unresolved.not_isMisplaced (h : Unresolved placed start s fault) : ¬ fault.isMisplaced := by
  cases h <;> exact Bool.false_ne_true

theorem Unresolved.isMissing_or_isUnfit (h : Unresolved placed start s fault) :
    fault.isMissing ∨ fault.isUnfit := by
  cases h <;> simp [Fault.isMissing, Fault.isUnfit]

theorem Unresolved.append (h : Unresolved placed start s fault) (hunfit : fault.isUnfit)
    (more : List Placed) : Unresolved (placed ++ more) start s fault := by
  cases h with
  | farLabel hmem hlabel hfar => exact .farLabel (List.mem_append_left _ hmem) hlabel hfar
  | farReturn hmem hopening hfar => exact .farReturn (List.mem_append_left _ hmem) hopening hfar
  | farEntry hmem hopening hnear hfar =>
    exact .farEntry (List.mem_append_left _ hmem) hopening hnear hfar
  | badLiteral hop hhead hbad => exact .badLiteral hop hhead hbad
  | _ => cases hunfit

/-- An operand that leads somewhere leads there whatever statements follow. -/
theorem not_unresolved_append (hpart : DistinctNames (statementsOf placed))
    (hwhole : DistinctNames (statementsOf (placed ++ more))) {p : Placed}
    (h : ∀ fault, ¬ Unresolved placed p.start p.statement fault) (fault : Fault) :
    ¬ Unresolved (placed ++ more) p.start p.statement fault := by
  intro hwrong
  have hsub : ∀ q ∈ placed, q.move 0 0 ∈ placed ++ more := fun q hq => List.mem_append_left _ hq
  have hmoved : (Symbols.ofPlaced placed).MovedInto 0 (Symbols.ofPlaced (placed ++ more)) :=
    Symbols.movedInto_ofPlaced hpart hwhole hsub
  have hlong := (Placed.instruction_eq_error_iff hwhole).2 ⟨fault, hwrong, rfl⟩
  cases hshort : p.instruction (Symbols.ofPlaced placed) with
  | error d =>
    obtain ⟨fault', hwrong', -⟩ := (Placed.instruction_eq_error_iff hpart).1 hshort
    exact h fault' hwrong'
  | ok instruction =>
    have hok := (hmoved.instruction_iff (n := 0) p instruction hshort _).2
      ⟨instruction.fits_zero, rfl⟩
    rw [show p.move 0 0 = p from rfl, hlong] at hok
    cases hok

end

section
variable {a b : String} {d : Diagnostic}

theorem placedStatements_isPrefix (hlines : WholeLines a) (b : String) :
    placedStatements a <+: placedStatements (a ++ b) := by
  rw [placedStatements, placedStatements, lines_append hlines, List.filterMap_append]
  exact place_isPrefix _ _

theorem readable_append_iff (hlines : WholeLines a) :
    Readable (a ++ b) ↔
      Readable a ∧ ∀ line ∈ lines b, ∃ statement?, line.statement? = .ok statement? := by
  simp only [Readable, clear_fails_iff, lines_append hlines, List.forall_mem_append,
    List.forall_mem_map, Line.statement?_lower]

theorem not_readable_of_statement? {source : String} {line : Line} (hmem : line ∈ lines source)
    (h : line.statement? = .error d) : ¬ Readable source := by
  intro hread
  obtain ⟨statement?, hok⟩ := clear_fails_iff.1 hread line hmem
  rw [h] at hok
  cases hok

/-- The first line without a valid form stays the first one. -/
theorem FirstWrong.reported_append (hlines : WholeLines a) (b : String) {line : Line}
    (h : FirstWrong (Fails Line.statement?) (lines a) line d) : Reported (a ++ b) d := by
  have hlong := h.append ((lines b).map (Line.lower (lines a).length))
  rw [← lines_append hlines] at hlong
  exact .line hlong

theorem Reported.append_of_not_readable (hlines : WholeLines a) (h : Reported a d)
    (hread : ¬ Readable a) (b : String) : Reported (a ++ b) d := by
  cases h with
  | line hline => exact hline.reported_append hlines b
  | misplaced hread' => exact absurd hread' hread
  | unclosed hread' => exact absurd hread' hread
  | unresolved hread' => exact absurd hread' hread

/-- The first statement that may not come where it stands stays the first one, where the lines that
follow can be read. -/
theorem Reported.append_of_isMisplaced (hlines : WholeLines a) (h : Reported a d)
    (hfault : d.fault.isMisplaced)
    (hb : ∀ line ∈ lines b, ∃ statement?, line.statement? = .ok statement?) :
    Reported (a ++ b) d := by
  cases h with
  | line hline => exact hline.reported_append hlines b
  | misplaced hread hp =>
    obtain ⟨more, hmore⟩ := placedStatements_isPrefix hlines b
    have hlong := hp.append more
    rw [hmore] at hlong
    exact .misplaced ((readable_append_iff hlines).2 ⟨hread, hb⟩) hlong
  | unclosed => cases hfault
  | unresolved _ _ _ hp =>
    obtain ⟨_, _, -, -, hwrong⟩ := hp
    exact absurd hfault hwrong.not_isMisplaced

/-- The first operand that is no byte stays the first one that leads nowhere, where the statements
that follow may come. -/
theorem Reported.append_of_isUnfit (hlines : WholeLines a) (h : Reported a d)
    (hfault : d.fault.isUnfit) (hread : Readable (a ++ b))
    (hcons : Consistent (statementsOf (placedStatements (a ++ b)))) : Reported (a ++ b) d := by
  cases h with
  | line hline => exact hline.reported_append hlines b
  | misplaced _ hp =>
    obtain ⟨_, _, -, -, hwrong⟩ := hp
    exact absurd hfault hwrong.not_isUnfit
  | unclosed => cases hfault
  | unresolved _ hplaced _ hp =>
    obtain ⟨hlong, hclosed⟩ := consistent_iff_clear.1 hcons
    refine .unresolved hread hlong hclosed ?_
    obtain ⟨before, after, hsplit, hclear, hwrong⟩ := hp
    obtain ⟨more, hmore⟩ := placedStatements_isPrefix hlines b
    rw [← hmore] at hcons ⊢
    refine ⟨before, after ++ more, by simp [hsplit], ?_, hwrong.append hfault more⟩
    intro earlier q rest fault hbefore
    exact not_unresolved_append (clear_misplaced_iff.1 hplaced).toDistinctNames
      hcons.toDistinctNames (fun fault => hclear earlier q rest fault hbefore) fault

theorem Reported.fault_cases (h : Reported a d) :
    ¬ Readable a ∨ d.fault.isMisplaced ∨ d.fault.isMissing ∨ d.fault.isUnfit := by
  cases h with
  | line hline =>
    obtain ⟨_, _, -, -, hfails⟩ := id hline
    exact Or.inl (not_readable_of_statement? hline.mem hfails)
  | misplaced _ hp =>
    obtain ⟨_, _, -, -, hwrong⟩ := hp
    exact Or.inr (Or.inl hwrong.isMisplaced)
  | unclosed => exact Or.inr (Or.inr (Or.inl rfl))
  | unresolved _ _ _ hp =>
    obtain ⟨_, _, -, -, hwrong⟩ := hp
    exact Or.inr (Or.inr hwrong.isMissing_or_isUnfit)

theorem exists_symbolsOf_iff {source : String} :
    (∃ statements symbols, sourceStatements source = .ok statements ∧
      symbolsOf (place statements) = .ok symbols) ↔
      Readable source ∧ Consistent (statementsOf (placedStatements source)) := by
  simp only [sourceStatements_eq_ok_iff_readable, symbolsOf_eq_ok_iff]
  constructor
  · rintro ⟨_, _, ⟨hread, rfl⟩, hcons, -⟩
    exact ⟨hread, hcons⟩
  · rintro ⟨hread, hcons⟩
    exact ⟨_, _, ⟨hread, rfl⟩, hcons, rfl⟩

theorem exists_symbolsOf_of_assemble {source : String} {program : Program}
    (h : assemble source = .ok program) :
    ∃ statements symbols, sourceStatements source = .ok statements ∧
      symbolsOf (place statements) = .ok symbols := by
  obtain ⟨statements, hread, hprogram⟩ := bind_eq_ok_iff.1 h
  obtain ⟨symbols, hsymbols, -⟩ := bind_eq_ok_iff.1 hprogram
  exact ⟨statements, symbols, hread, hsymbols⟩

end

/-- **Repair.** Lines behind a source that fails make it assemble only where a definition or a
closing brace was missing. The diagnostic stays the same where a line has no valid form; where a
statement may not come where it stands and the new lines can be read; and where an operand is no
byte and the new lines pass up to the operands. -/
theorem assemble_append_of_error {a : String} {d : Diagnostic} (hlines : WholeLines a)
    (h : assemble a = .error d) (b : String) :
    (¬ d.fault.isMissing → ∃ e, assemble (a ++ b) = .error e) ∧
      ((∃ line ∈ lines a, line.statement? = .error d) → assemble (a ++ b) = .error d) ∧
      (d.fault.isMisplaced → (∀ line ∈ lines b, ∃ statement?, line.statement? = .ok statement?) →
        assemble (a ++ b) = .error d) ∧
      (d.fault.isUnfit →
        (∃ statements symbols, sourceStatements (a ++ b) = .ok statements ∧
          symbolsOf (place statements) = .ok symbols) →
        assemble (a ++ b) = .error d) := by
  have hreported := assemble_eq_error_iff.1 h
  refine ⟨?_, ?_, ?_, ?_⟩
  · intro hfault
    cases hboth : assemble (a ++ b) with
    | error e => exact ⟨e, rfl⟩
    | ok q =>
      obtain ⟨hread, hcons⟩ := exists_symbolsOf_iff.1 (exists_symbolsOf_of_assemble hboth)
      have hb := ((readable_append_iff hlines).1 hread).2
      -- lines that assemble with the source pass as far as each kind of fault asks for
      have hsame : Reported (a ++ b) d := by
        rcases hreported.fault_cases with hline | hmisplaced | hmissing | hunfit
        · exact hreported.append_of_not_readable hlines hline b
        · exact hreported.append_of_isMisplaced hlines hmisplaced hb
        · exact absurd hmissing hfault
        · exact hreported.append_of_isUnfit hlines hunfit hread hcons
      rw [assemble_eq_error_iff.2 hsame] at hboth
      cases hboth
  · rintro ⟨line, hmem, hline⟩
    have hread := not_readable_of_statement? hmem hline
    exact assemble_eq_error_iff.2 (hreported.append_of_not_readable hlines hread b)
  · intro hfault hb
    exact assemble_eq_error_iff.2 (hreported.append_of_isMisplaced hlines hfault hb)
  · intro hfault hpasses
    obtain ⟨hread, hcons⟩ := exists_symbolsOf_iff.1 hpasses
    exact assemble_eq_error_iff.2 (hreported.append_of_isUnfit hlines hfault hread hcons)

/-- A line without a valid form, a closing brace too many and a literal that is no byte, each with
lines behind it that have faults of a later pass. -/
theorem assemble_append_of_error_kinds :
    assemble ("  FOO 1\n" ++ "\x7d\n") = .error (.atLine ⟨1, "  FOO 1"⟩ (.unknownMnemonic "FOO")) ∧
      assemble ("\x7d\n" ++ "  LDAV 300\n") = .error (.atLine ⟨1, "\x7d"⟩ .unmatchedClosing) ∧
      assemble ("  LDAV 300\n" ++ "  JMP end\n") =
        .error (.atLine ⟨1, "  LDAV 300"⟩ (.badLiteral "300")) := by
  have hwhole : ∀ t : String, WholeLines (t ++ "\n") := fun t => Or.inr ⟨t, rfl⟩
  have hline : assemble ("  FOO 1" ++ "\n") =
      .error (.atLine ⟨1, "  FOO 1"⟩ (.unknownMnemonic "FOO")) := by decide +kernel
  have hclosing : assemble ("\x7d" ++ "\n") = .error (.atLine ⟨1, "\x7d"⟩ .unmatchedClosing) := by
    decide +kernel
  have hliteral : assemble ("  LDAV 300" ++ "\n") =
      .error (.atLine ⟨1, "  LDAV 300"⟩ (.badLiteral "300")) := by decide +kernel
  refine ⟨?_, ?_, ?_⟩
  · have hfails : ∃ line ∈ lines ("  FOO 1" ++ "\n"),
        line.statement? = .error (.atLine ⟨1, "  FOO 1"⟩ (.unknownMnemonic "FOO")) :=
      ⟨⟨1, "  FOO 1"⟩, by decide +kernel, by decide +kernel⟩
    exact (assemble_append_of_error (hwhole _) hline "\x7d\n").2.1 hfails
  · have hread : ∀ line ∈ lines "  LDAV 300\n", ∃ statement?, line.statement? = .ok statement? := by
      have hlines : lines "  LDAV 300\n" = [⟨1, "  LDAV 300"⟩] := by decide +kernel
      rw [hlines, List.forall_mem_singleton]
      exact ⟨some (.operation .ldav (some "300")), by decide +kernel⟩
    exact (assemble_append_of_error (hwhole _) hclosing "  LDAV 300\n").2.2.1 rfl hread
  · have hpasses : ∃ statements symbols,
        sourceStatements ("  LDAV 300\n" ++ "  JMP end\n") = .ok statements ∧
          symbolsOf (place statements) = .ok symbols :=
      ⟨[⟨⟨1, "  LDAV 300"⟩, .operation .ldav (some "300")⟩,
        ⟨⟨2, "  JMP end"⟩, .operation .jmp (some "end")⟩], {}, by decide +kernel, by decide +kernel⟩
    exact (assemble_append_of_error (hwhole _) hliteral "  JMP end\n").2.2.2 rfl hpasses

end Breadboard
