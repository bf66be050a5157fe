import Breadboard.Proofs.Codes

/-!
# What a line says

A line says nothing when everything before its comment is blank. It says a statement exactly when
its code has the form of this statement, an operation if it is indented and something else if it is
not, and in every other case it is refused (`classified_line`).
-/

namespace Breadboard

/-! ## Blank lines and indents -/

theorem squeeze_eq_nil_iff {c : Char} {code : List Char} :
    squeeze c code = [] ↔ Text.isBlank c = true ∧ code = [] := by
  unfold squeeze
  split
  · rename_i hblank
    split <;> simp_all
  · rename_i hblank
    simp [hblank]

/-- A line has no code when everything before its comment is blank. -/
theorem normalize_eq_nil_iff {text : List Char} :
    normalize text = [] ↔ ∀ c ∈ text.takeWhile (· != '#'), Text.isBlank c = true := by
  rw [normalize, dropComment]
  induction text.takeWhile (· != '#') with
  | nil => simp
  | cons c rest ih => rw [List.foldr_cons, squeeze_eq_nil_iff, ih, List.forall_mem_cons]

theorem Statement.ofCode?_eq_none_iff {code : List Char} :
    Statement.ofCode? code = .ok none ↔ code = [] := by
  unfold Statement.ofCode?
  split
  · simp
  · simp [map_eq_ok_iff]
  · simp [map_eq_ok_iff]
  · rename_i hne _ _
    simpa [map_eq_ok_iff] using hne

/-- An indent is left at the beginning of the code, unless a brace follows it. -/
theorem head?_squeeze_of_isBlank {c : Char} {code : List Char} (hblank : Text.isBlank c = true)
    (hne : squeeze c code ≠ []) :
    (squeeze c code).head? = some ' ' ∨ (squeeze c code).head? = some '{' := by
  unfold squeeze at hne ⊢
  rw [if_pos hblank] at hne ⊢
  split at hne
  · exact absurd rfl hne
  · exact Or.inl rfl
  · exact Or.inr rfl
  · exact Or.inl rfl

theorem head?_normalize {c : Char} {rest : List Char} (hne : normalize (c :: rest) ≠ []) :
    (Text.isBlank c = true ∧
      ((normalize (c :: rest)).head? = some ' ' ∨ (normalize (c :: rest)).head? = some '{')) ∨
    (Text.isBlank c = false ∧ (normalize (c :: rest)).head? = some c) := by
  have hhash : c ≠ '#' := by
    rintro rfl
    exact hne (by simp [normalize, dropComment])
  have hcons : normalize (c :: rest) = squeeze c (normalize rest) := by
    simp [normalize, dropComment, hhash]
  rw [hcons] at hne ⊢
  cases hblank : Text.isBlank c with
  | true => exact Or.inl ⟨rfl, head?_squeeze_of_isBlank hblank hne⟩
  | false => exact Or.inr ⟨rfl, by rw [squeeze_of_not_isBlank hblank, List.head?_cons]⟩

theorem head?_append_of_isName {name : List Char} (h : isName name) (rest : List Char) :
    ∃ c, (name ++ rest).head? = some c ∧ Text.isBlank c = false ∧ c ∉ reserved := by
  obtain ⟨c, tail, rfl⟩ := List.exists_cons_of_ne_nil (isWord_of_isName h).ne_nil
  exact ⟨c, rfl, ne_of_isName h List.mem_cons_self⟩

/-- An operation starts with a space, and nothing else does; no form starts with a brace that
opens. -/
theorem Statement.Form.head? {code : List Char} {s : Statement} (h : Statement.Form code s) :
    code.head? ≠ some '{' ∧ ((∃ op arg?, s = .operation op arg?) ↔ code.head? = some ' ') := by
  have hname : ∀ {name : List Char} (rest : List Char), isName name →
      (name ++ rest).head? ≠ some '{' ∧ (name ++ rest).head? ≠ some ' ' := by
    intro name rest hname
    obtain ⟨c, hc, hblank, hreserved⟩ := head?_append_of_isName hname rest
    rw [hc]
    constructor
    · rintro ⟨⟩
      exact hreserved (by decide)
    · rintro ⟨⟩
      cases hblank
  cases h with
  | constant => simp
  | bare => simp
  | operand => simp
  | opening h =>
    obtain ⟨hopen, hspace⟩ := hname ['{'] h
    exact ⟨hopen, nofun, fun hhead => absurd hhead hspace⟩
  | closing => simp
  | label h => simpa using hname [] h

/-- A line that says something says an operation exactly when it is indented. -/
theorem Statement.Form.operation_iff {text : List Char} {s : Statement}
    (h : Statement.Form (normalize text) s) :
    (∃ op arg?, s = .operation op arg?) ↔
      ∃ c rest, text = c :: rest ∧ Text.isBlank c = true := by
  obtain ⟨hbrace, hoperation⟩ := h.head?
  cases text with
  | nil =>
    have hnone := h.ofCode?_eq
    cases hnone
  | cons c rest =>
    have hne : normalize (c :: rest) ≠ [] := by
      intro hnil
      rw [hnil] at h
      cases h.ofCode?_eq
    rw [hoperation]
    rcases head?_normalize hne with ⟨hblank, hhead | hhead⟩ | ⟨hblank, hhead⟩
    · simp [hhead, hblank]
    · exact absurd hhead hbrace
    · rw [hhead]
      constructor
      · rintro ⟨⟩
        cases hblank
      · rintro ⟨_, _, ⟨⟩, hc⟩
        rw [hblank] at hc
        cases hc

/-! ## Lines -/

/-- What the reader makes of a line. -/
structure Line.Classified (line : Line) : Prop where
  /-- A line says nothing exactly when all that stands before its comment is blank. -/
  blank_iff : line.statement? = .ok none ↔
    ∀ c ∈ line.text.toList.takeWhile (· != '#'), Text.isBlank c = true
  /-- A line says a statement exactly when its code has the form of this statement. -/
  form_iff : ∀ s, line.statement? = .ok (some s) ↔ Statement.Form line.code.toList s
  /-- A blank line has none of the forms, and no text has two of them. -/
  not_form_of_blank : (∀ c ∈ line.text.toList.takeWhile (· != '#'), Text.isBlank c = true) →
    ∀ s, ¬ Statement.Form line.code.toList s
  unique : ∀ code s t, Statement.Form code s → Statement.Form code t → s = t
  /-- Every other line is refused with a fault on this line. -/
  error_of_not : (¬ ∀ c ∈ line.text.toList.takeWhile (· != '#'), Text.isBlank c = true) →
    (∀ s, ¬ Statement.Form line.code.toList s) →
      ∃ fault, line.statement? = .error (.atLine line fault)
  /-- What is said is an operation exactly when the line is indented. -/
  operation_iff : ∀ s, line.statement? = .ok (some s) →
    ((∃ op arg?, s = .operation op arg?) ↔
      ∃ c rest, line.text.toList = c :: rest ∧ Text.isBlank c = true)

/-- **The forms of a line.** Every line is blank, has the form of one statement and says it, or is
refused. -/
theorem classified_line (line : Line) : line.Classified := by
  have hcode : line.code.toList = normalize line.text.toList := by simp [Line.code]
  have hblank : line.statement? = .ok none ↔
      ∀ c ∈ line.text.toList.takeWhile (· != '#'), Text.isBlank c = true := by
    rw [Line.statement?, mapError_eq_ok_iff, Statement.ofCode?_eq_none_iff, normalize_eq_nil_iff]
  have hform : ∀ s, line.statement? = .ok (some s) ↔ Statement.Form line.code.toList s := by
    intro s
    rw [Line.statement?, mapError_eq_ok_iff, hcode]
    exact ⟨Statement.form_of_ofCode? (isCode_normalize _), Statement.Form.ofCode?_eq⟩
  constructor
  case blank_iff => exact hblank
  case form_iff => exact hform
  case not_form_of_blank =>
    intro hall s hs
    cases (hblank.2 hall).symm.trans ((hform s).2 hs)
  case unique => exact fun code s t hs ht => hs.unique ht
  case error_of_not =>
    intro hall hnone
    cases hread : Statement.ofCode? (normalize line.text.toList) with
    | error fault => exact ⟨fault, by simp [Line.statement?, hread, Except.mapError]⟩
    | ok statement? =>
      have hline : line.statement? = .ok statement? := mapError_eq_ok_iff.2 hread
      cases statement? with
      | none => exact absurd (hblank.1 hline) hall
      | some s => exact absurd ((hform s).1 hline) (hnone s)
  case operation_iff =>
    intro s hs
    have hs' := (hform s).1 hs
    rw [hcode] at hs'
    exact hs'.operation_iff

end Breadboard
