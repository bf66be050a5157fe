import Breadboard.Proofs.Diagnosis
import Breadboard.Proofs.Transcription

/-!
# Formatting

The grammar reads the code of a line and nothing else, and a line without code says nothing. So
comments, blank lines, the width of an indent and the ends of lines do not matter: two sources with
the same codes on their lines, blank lines left out, have the same outcome
(`assemble_of_codes_eq`).

The lines that are not blank correspond to each other, the first to the first and so on. Sending
each line of the one source to that of the other is a transcription that keeps all names, and all
passes commute with it. What is left is to see that a diagnostic shows no other lines: it is about a
line that is not blank, and so is the first definition of a name (`Reported.first_mem_codeLines`).
-/

namespace Breadboard

/-! ## Faults of the form -/

namespace Fault

/-- A line has no valid form. -/
def isFormal : Fault → Bool
  | malformed _ | badLiteral _ | unknownMnemonic _ => true
  | _ => false

end Fault

theorem Statement.isFormal_of_ofMnemonic {mnemonic : String} {arg? : Option String} {fault : Fault}
    (h : Statement.ofMnemonic mnemonic arg? = .error fault) : fault.isFormal := by
  unfold Statement.ofMnemonic at h
  repeat' split at h
  all_goals cases h <;> rfl

/-- Reading fails with faults of the form alone. -/
theorem Statement.isFormal_of_ofCode? {code : List Char} {fault : Fault}
    (h : Statement.ofCode? code = .error fault) : fault.isFormal := by
  unfold Statement.ofCode? at h
  split at h
  · cases h
  · have hread := map_eq_error_iff.1 h
    unfold Statement.readConstant at hread
    repeat' split at hread
    all_goals cases hread <;> rfl
  · have hread := map_eq_error_iff.1 h
    unfold Statement.readOperation at hread
    split at hread
    · cases hread
      rfl
    · exact Statement.isFormal_of_ofMnemonic hread
    · exact Statement.isFormal_of_ofMnemonic hread
    · exact Statement.isFormal_of_ofMnemonic hread
  · have hread := map_eq_error_iff.1 h
    unfold Statement.readMark at hread
    dsimp only at hread
    repeat' split at hread
    all_goals cases hread <;> rfl

theorem Transcription.fault_of_isFormal (t : Transcription) {fault : Fault}
    (h : fault.isFormal) : t.fault fault = fault := by
  cases fault with
  | malformed issue => rfl
  | badLiteral text => rfl
  | unknownMnemonic text => rfl
  | _ => cases h

/-! ## Corresponding lines -/

/-- Statements with their names, on other lines. -/
def Transcription.ofLines (line : Nat → Line) : Transcription :=
  ⟨.refl, line⟩

theorem Line.normalize_eq_of_code_eq {line other : Line} (h : line.code = other.code) :
    normalize line.text.toList = normalize other.text.toList :=
  String.ofList_injective h

section
variable {line : Nat → Line} {l : Line}

/-- A line with the same code says the same, and what is wrong with it is the same. -/
theorem Line.sourceStatement?_of_code_eq (h : (line l.number).code = l.code) :
    (line l.number).sourceStatement? =
      translate (Transcription.ofLines line).diagnostic
        (Option.map (Transcription.ofLines line).sourceStatement) l.sourceStatement? := by
  simp only [Line.sourceStatement?, Line.statement?, Line.normalize_eq_of_code_eq h]
  cases hcode : Statement.ofCode? (normalize l.text.toList) with
  | error fault =>
    have hfault := (Transcription.ofLines line).fault_of_isFormal
      (Statement.isFormal_of_ofCode? hcode)
    simp only [Except.mapError, Except.map, translate, Transcription.diagnostic, Diagnostic.atLine,
      hfault, Option.map_some]
    rfl
  | ok statement? =>
    cases statement? with
    | none => rfl
    | some s =>
      simp only [Except.mapError, Except.map, translate, Option.map_some,
        Transcription.sourceStatement, Transcription.ofLines, Renaming.statement_refl]

end

/-- Two sources whose lines have the same codes have the same outcome on corresponding lines. -/
theorem exists_assemble_eq {a b : String}
    (h : (codeLines a).map Line.code = (codeLines b).map Line.code) :
    ∃ line : Nat → Line, codeLines b = (codeLines a).map (fun l => line l.number) ∧
      assemble b = translate (Transcription.ofLines line).diagnostic
        (Transcription.ofLines line).program (assemble a) := by
  have : Nonempty Line := ⟨⟨0, ""⟩⟩
  have hlen : (codeLines a).length = (codeLines b).length := by
    simpa using congrArg List.length h
  have hnodup : ((codeLines a).map Line.number).Nodup :=
    (nodup_number_lines a).sublist (List.filter_sublist.map Line.number)
  obtain ⟨line, hlines⟩ := exists_map_key_eq hlen hnodup
  refine ⟨line, hlines, (Transcription.ofLines line).assemble_eq ?_⟩
  rw [hlines, List.map_map, List.map_inj_left] at h
  rw [sourceStatements_eq_filterMapM_codeLines, sourceStatements_eq_filterMapM_codeLines, hlines]
  apply filterMapM_map_translate
  intro l hl
  exact Line.sourceStatement?_of_code_eq (h l hl).symm

/-! ## The lines that a diagnostic shows -/

section
variable {source : String} {d : Diagnostic}

theorem Misplaced.first_mem {before : List Placed} {s : Statement} {kind name : String} {n : Nat}
    (h : Misplaced before s (.redefined kind name n)) : ∃ p ∈ before, p.line.number = n := by
  cases h with
  | constant hmem => exact ⟨_, hmem, rfl⟩
  | label hmem => exact ⟨_, hmem, rfl⟩
  | opening _ hmem => exact ⟨_, hmem, rfl⟩

theorem Unresolved.ne_redefined {placed : List Placed} {start : Nat} {s : Statement} {fault : Fault}
    (h : Unresolved placed start s fault) (kind name : String) (n : Nat) :
    fault ≠ .redefined kind name n := by
  cases h <;> simp

theorem Reported.first_mem_codeLines (h : Reported source d) {kind name : String} {n : Nat}
    (hfault : d.fault = .redefined kind name n) : ∃ line ∈ codeLines source, line.number = n := by
  cases h with
  | line hline =>
    obtain ⟨before, after, -, -, hfails⟩ := hline
    obtain ⟨fault, hcode, rfl⟩ := mapError_eq_error_iff.1 hfails
    have hformal := Statement.isFormal_of_ofCode? hcode
    rw [show fault = .redefined kind name n from hfault] at hformal
    cases hformal
  | misplaced _ hp =>
    obtain ⟨before, after, hsplit, -, hwrong⟩ := hp
    obtain rfl : _ = Fault.redefined kind name n := hfault
    obtain ⟨first, hmem, rfl⟩ := hwrong.first_mem
    exact ⟨_, line_mem_codeLines_of_mem_placedStatements (by simp [hsplit, hmem]), rfl⟩
  | unclosed => cases hfault
  | unresolved _ _ _ hp =>
    obtain ⟨before, after, -, -, hwrong⟩ := hp
    exact absurd hfault (hwrong.ne_redefined kind name n)

end

/-! ## Corresponding outcomes -/

/-- Two lines with the same place among the lines of their sources that are not blank. -/
def SamePlace (a b : String) (line other : Line) : Prop :=
  ∃ i : Nat, (codeLines a)[i]? = some line ∧ (codeLines b)[i]? = some other

/-- The same fault in two sources. The line of a first definition is that of each source. -/
inductive SameFault (a b : String) : Fault → Fault → Prop
  | same {fault : Fault} (h : ∀ kind name n, fault ≠ .redefined kind name n) :
      SameFault a b fault fault
  | redefined {kind name : String} {line other : Line} (h : SamePlace a b line other) :
      SameFault a b (.redefined kind name line.number) (.redefined kind name other.number)

/-- The same diagnostic in two sources: the same fault, on lines with the same place. -/
structure SameDiagnostic (a b : String) (d e : Diagnostic) : Prop where
  fault : SameFault a b d.fault e.fault
  line : ∃ line other, d.line? = some line ∧ e.line? = some other ∧ SamePlace a b line other

section
variable {a b : String} {line : Nat → Line}
  (hlines : codeLines b = (codeLines a).map fun l => line l.number)

include hlines

theorem samePlace_of_mem {l : Line} (h : l ∈ codeLines a) : SamePlace a b l (line l.number) := by
  obtain ⟨i, hi⟩ := List.mem_iff_getElem?.1 h
  exact ⟨i, hi, by simp [hlines, hi]⟩

theorem Reported.sameFault {d : Diagnostic} (h : Reported a d) :
    SameFault a b d.fault ((Transcription.ofLines line).fault d.fault) := by
  cases hfault : d.fault with
  | redefined kind name n =>
    obtain ⟨first, hmem, rfl⟩ := h.first_mem_codeLines hfault
    have hname : (Transcription.ofLines line).ofKind kind name = name := by
      unfold Transcription.ofKind
      split
      · rfl
      · split <;> rfl
    simp only [Transcription.fault, hname]
    exact .redefined (samePlace_of_mem hlines hmem)
  | _ => exact .same (by simp)

theorem Reported.sameDiagnostic {d : Diagnostic} (h : Reported a d) :
    SameDiagnostic a b d ((Transcription.ofLines line).diagnostic d) := by
  refine ⟨h.sameFault hlines, ?_⟩
  obtain ⟨l, hmem, hline⟩ := h.line_mem_codeLines
  exact ⟨l, line l.number, hline, by simp [Transcription.diagnostic, hline, Transcription.ofLines],
    samePlace_of_mem hlines hmem⟩

end

/-- **Formatting does not matter.** Two sources whose lines have the same codes, blank lines left
out, both assemble, to programs that differ in nothing but their lines; or both fail with the same
fault, on lines that have the same place among those that are not blank. -/
theorem assemble_of_codes_eq {a b : String}
    (h : (codeLines a).map Line.code = (codeLines b).map Line.code) :
    (∃ p q, assemble a = .ok p ∧ assemble b = .ok q ∧ p.Agrees q) ∨
      ∃ d e, assemble a = .error d ∧ assemble b = .error e ∧ SameDiagnostic a b d e := by
  obtain ⟨line, hlines, hb⟩ := exists_assemble_eq h
  cases ha : assemble a with
  | ok p =>
    rw [ha] at hb
    have hrenamed := (Transcription.ofLines line).renamed_program p
    exact Or.inl ⟨p, _, rfl, hb, hrenamed.agrees⟩
  | error d =>
    rw [ha] at hb
    have hreported := assemble_eq_error_iff.1 ha
    exact Or.inr ⟨d, _, rfl, hb, hreported.sameDiagnostic hlines⟩

/-- Two texts of one program, and two of one that defines a constant twice, with comments, blank
lines, tabs, ends of lines with a carriage return and a space before a brace in one of each. -/
theorem assemble_of_codes_eq_twice :
    (∃ p q, assemble "f\x7b\n  LDAV 1\n\x7d\n" = .ok p ∧
      assemble "# f\r\n\r\nf \x7b\r\n\tLDAV\t 1 # one\r\n\x7d" = .ok q ∧ p.slotCount = 3 ∧
      p.Agrees q) ∧
    ∃ d e, assemble "$A 1\n$A 2\n" = .error d ∧ assemble "\n$A  1 # one\n\n$A\t2 \n" = .error e ∧
      d = .atLine ⟨2, "$A 2"⟩ (.redefined "constant" "A" 1) ∧
      e = .atLine ⟨4, "$A\t2 "⟩ (.redefined "constant" "A" 2) ∧
      SameDiagnostic "$A 1\n$A 2\n" "\n$A  1 # one\n\n$A\t2 \n" d e := by
  have hfirst : (assemble "f\x7b\n  LDAV 1\n\x7d\n").map Program.slotCount = .ok 3 := by
    decide +kernel
  have hd : assemble "$A 1\n$A 2\n" =
      .error (.atLine ⟨2, "$A 2"⟩ (.redefined "constant" "A" 1)) := by decide +kernel
  have he : assemble "\n$A  1 # one\n\n$A\t2 \n" =
      .error (.atLine ⟨4, "$A\t2 "⟩ (.redefined "constant" "A" 2)) := by decide +kernel
  obtain ⟨p, hp, hcount⟩ := map_eq_ok_iff.1 hfirst
  constructor
  · rcases assemble_of_codes_eq (a := "f\x7b\n  LDAV 1\n\x7d\n")
      (b := "# f\r\n\r\nf \x7b\r\n\tLDAV\t 1 # one\r\n\x7d") (by decide +kernel) with
      ⟨p', q, hp', hq, hagrees⟩ | ⟨d, e, herror, -⟩
    · obtain rfl : p = p' := Except.ok.inj (hp.symm.trans hp')
      exact ⟨p, q, hp, hq, hcount, hagrees⟩
    · cases hp.symm.trans herror
  · rcases assemble_of_codes_eq (a := "$A 1\n$A 2\n") (b := "\n$A  1 # one\n\n$A\t2 \n")
      (by decide +kernel) with ⟨p, q, hok, -⟩ | ⟨d, e, hd', he', hsame⟩
    · cases hd.symm.trans hok
    · obtain rfl := Except.error.inj (hd.symm.trans hd')
      obtain rfl := Except.error.inj (he.symm.trans he')
      exact ⟨_, _, hd, he, rfl, rfl, hsame⟩

end Breadboard
