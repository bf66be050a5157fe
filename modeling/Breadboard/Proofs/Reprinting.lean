import Breadboard.Proofs.Codes
import Breadboard.Proofs.Transcription
import Breadboard.Statement

/-!
# A listing is a source

The listing of a program shows each statement as source text in colours: its kind has a template,
which puts escapes around the ink (`Statement.painted_eq`). The ink alone, a line each, is a source
of the same program again (`assemble_text`). A name may hold the characters of an escape; those are
ink, and stay.

Reader and writer are different functions, and what the reader accepts is any text. They meet in the
forms of a code: the names and operands of a statement that was read are words
(`Statement.Form.isSpelled`), and a text that is written with words has the form of what was written
(`says_text`).
-/

namespace Breadboard

/-! ## Templates -/

/-- A part of a template. -/
inductive Piece where
  /-- Switches a colour on or off. -/
  | escape (code : Nat)
  /-- What is seen. -/
  | ink (text : String)

namespace Piece

/-- Pieces as they are sent to a terminal. -/
def shown (pieces : List Piece) : String :=
  String.join (pieces.map fun
    | escape code => "\x1b[" ++ Nat.repr code ++ "m"
    | ink text => text)

/-- Pieces without their escapes. -/
def inked (pieces : List Piece) : String :=
  String.join (pieces.map fun
    | escape _ => ""
    | ink text => text)

end Piece

namespace Statement

/-- The template of a statement. A mnemonic fills five columns, and its colour is not switched off,
since that of the operand follows. -/
def template : Statement → List Piece
  | constant name value =>
    [.escape 33, .ink ("$" ++ name ++ " 0x" ++ String.ofList
      [(Nat.digitChar (value.toNat / 16)).toUpper, (Nat.digitChar (value.toNat % 16)).toUpper]),
      .escape 39]
  | label name => [.escape 32, .ink name, .escape 39]
  | operation op arg? =>
    [.ink "  ", .escape 31,
      .ink (op.mnemonic ++ String.ofList (List.replicate (5 - op.mnemonic.length) ' ')),
      .escape 34, .ink (arg?.getD ""), .escape 39]
  | opening name => [.escape 36, .ink (name ++ "\x7b"), .escape 39]
  | closing => [.escape 36, .ink "\x7d", .escape 39]

/-- A statement as a listing shows it without its colours. -/
def text (s : Statement) : String :=
  Piece.inked s.template

/-- A listing shows a statement by its template. -/
theorem painted_eq (s : Statement) : s.painted = Piece.shown s.template := by
  apply String.toList_injective
  cases s <;>
    simp [painted, spans, template, Piece.shown, Text.Span.render, Text.Span.closing,
      Text.Span.bare, Text.Style.start, Text.Style.stop, Text.escape, Text.padRight,
      Literal.toList_hexByte]

end Statement

/-! ## What is read is spelled in words -/

/-- A statement whose names are names and whose operand is a word, which is there exactly when the
opcode needs one. -/
def Statement.IsSpelled : Statement → Prop
  | .constant name _ => isName name.toList
  | .label name => isName name.toList
  | .operation op arg? => arg?.isSome = op.hasOperand ∧ ∀ arg, arg? = some arg → IsWord arg.toList
  | .opening name => isName name.toList
  | .closing => True

/-- What has a form is spelled in words, if the text is the code of a line. -/
theorem Statement.Form.isSpelled {code : List Char} {s : Statement} (h : Statement.Form code s)
    (hcode : IsCode code) : s.IsSpelled := by
  cases h with
  | constant hname => simpa [Statement.IsSpelled] using hname
  | bare _ _ _ hneeds => simp [Statement.IsSpelled, hneeds]
  | @operand word arg op _ hspace _ hneeds _ hargSpace =>
    -- the operand is one of the words of the code
    obtain ⟨words, hne, hwords, hsplit⟩ := hcode.exists_words
    obtain rfl : [word, arg] = words := by
      rw [← splitOn_pair hspace hargSpace, hsplit, splitOn_spaced hwords hne]
    simpa [Statement.IsSpelled, hneeds] using hwords arg (by simp)
  | opening hname => simpa [Statement.IsSpelled] using hname
  | closing => trivial
  | label hname => simpa [Statement.IsSpelled] using hname

/-! ## Texts are read as what was written -/

theorem normalize_spaced {words : List (List Char)} (h : ∀ word ∈ words, IsWord word) :
    normalize (spaced words) = spaced words := by
  rw [normalize, dropComment_of_notMem (hash_notMem_spaced h), foldr_squeeze_spaced h]

theorem IsWord.normalize_eq {word : List Char} (h : IsWord word) : normalize word = word := by
  have hwords : normalize (spaced [word]) = spaced [word] := normalize_spaced (by simpa using h)
  simpa using hwords

theorem IsWord.newline_notMem {word : List Char} (h : IsWord word) : '\n' ∉ word :=
  h.notMem_of_isBlank (by decide)

section
variable {name : String}

theorem toList_text_constant (name : String) (value : UInt8) :
    (Statement.constant name value).text.toList =
      spaced ['$' :: name.toList, (hexLiteral value).toList] := by
  simp [Statement.text, Statement.template, Piece.inked, hexLiteral, Literal.toList_hexByte]

theorem says_text_constant (h : isName name.toList) (value : UInt8) :
    Says (Statement.constant name value).text (.constant name value) := by
  have hname := isWord_of_isName h
  have hliteral := isWord_hexLiteral value
  have hdollar : IsWord ('$' :: name.toList) :=
    (hname.isChunk.cons (by decide) (by decide)).isWord (by simp)
  have hwords : ∀ word ∈ ['$' :: name.toList, (hexLiteral value).toList], IsWord word := by
    simp [hdollar, hliteral]
  have hform : Statement.Form ('$' :: (name.toList ++ ' ' :: (hexLiteral value).toList))
      (.constant name value) := by
    have hspace := hliteral.notMem_of_isBlank Text.isBlank_space
    simpa using Statement.Form.constant h hspace (by simpa using byte?_hexLiteral value)
  constructor
  · simp [toList_text_constant, hname.newline_notMem, hliteral.newline_notMem]
  · rw [toList_text_constant, normalize_spaced hwords]
    simpa using hform.ofCode?_eq

theorem says_text_label (h : isName name.toList) :
    Says (Statement.label name).text (.label name) := by
  have htext : (Statement.label name).text.toList = name.toList := by
    simp [Statement.text, Statement.template, Piece.inked]
  have hname := isWord_of_isName h
  constructor
  · rw [htext]
    exact hname.newline_notMem
  · rw [htext, hname.normalize_eq]
    simpa using (Statement.Form.label h).ofCode?_eq

theorem says_text_opening (h : isName name.toList) :
    Says (Statement.opening name).text (.opening name) := by
  have htext : (Statement.opening name).text.toList = name.toList ++ ['{'] := by
    simp [Statement.text, Statement.template, Piece.inked]
  have hname := isWord_of_isName h
  have hword : IsWord (name.toList ++ ['{']) := by
    constructor
    case ne_nil => simp
    case isBlank =>
      intro c hc
      rcases List.mem_append.1 hc with hc | hc
      · exact hname.isBlank c hc
      · obtain rfl := List.mem_singleton.1 hc
        decide
    case notMem => simp [hname.notMem]
    case head?_ne =>
      obtain ⟨c, tail, hcons⟩ := List.exists_cons_of_ne_nil hname.ne_nil
      simpa [hcons] using hname.head?_ne
  constructor
  · rw [htext]
    exact hword.newline_notMem
  · rw [htext, hword.normalize_eq]
    simpa using (Statement.Form.opening h).ofCode?_eq

end

theorem says_text_closing : Says Statement.closing.text .closing := by
  have htext : Statement.closing.text.toList = ['}'] := by
    simp [Statement.text, Statement.template, Piece.inked]
  constructor
  · simp [htext]
  · rw [htext]
    exact Statement.Form.closing.ofCode?_eq

theorem Opcode.length_mnemonic_le (op : Opcode) : op.mnemonic.length ≤ 4 := by
  cases op <;> decide

/-- Blanks that fill a column are one blank to the reader. -/
theorem foldr_squeeze_replicate (n : Nat) (code : List Char) :
    (List.replicate (n + 1) ' ').foldr squeeze code = squeeze ' ' code :=
  foldr_squeeze_of_isBlank (by simp) (by simp) code

section
variable {op : Opcode} {arg? : Option String}

theorem toList_text_operation (op : Opcode) (arg? : Option String) :
    (Statement.operation op arg?).text.toList =
      ' ' :: ' ' :: (op.mnemonic.toList ++ (List.replicate (4 - op.mnemonic.length + 1) ' ' ++
        (arg?.getD "").toList)) := by
  have hlen := op.length_mnemonic_le
  have hfill : 5 - op.mnemonic.length = 4 - op.mnemonic.length + 1 := by omega
  simp [Statement.text, Statement.template, Piece.inked, hfill]

/-- The column of the mnemonic does not show in the code of the line. -/
theorem normalize_text_operation (harg : ∀ arg, arg? = some arg → IsWord arg.toList) :
    normalize (Statement.operation op arg?).text.toList =
      normalize (operationLine op arg?).toList := by
  have hwords := isWord_of_mem_operation op harg
  have hmnemonic := isWord_mnemonic op
  have hhash : '#' ∉ (arg?.getD "").toList := by
    cases arg? with
    | none => simp
    | some arg => exact (harg arg rfl).notMem
  have hbody : (op.mnemonic.toList ++ (List.replicate (4 - op.mnemonic.length + 1) ' ' ++
      (arg?.getD "").toList)).foldr squeeze [] =
        spaced (op.mnemonic.toList :: arg?.toList.map String.toList) := by
    rw [List.foldr_append, List.foldr_append, foldr_squeeze_replicate, hmnemonic.foldr_squeeze]
    cases arg? with
    | none => simp [squeeze]
    | some arg =>
      have hword := harg arg rfl
      have hspace : squeeze ' ' arg.toList = ' ' :: arg.toList := by
        simpa using hword.squeeze_space []
      simp [hword.foldr_squeeze, hspace]
  rw [toList_operationLine, normalize_indented hwords (by simp), toList_text_operation, normalize,
    dropComment_of_notMem (by simp [hmnemonic.notMem, hhash]), List.foldr_cons, List.foldr_cons,
    hbody, squeeze_space_idem, squeeze_space_spaced hwords (by simp)]

theorem says_text_operation (hneeds : arg?.isSome = op.hasOperand)
    (harg : ∀ arg, arg? = some arg → IsWord arg.toList) :
    Says (Statement.operation op arg?).text (.operation op arg?) := by
  constructor
  · have hmnemonic := (isWord_mnemonic op).newline_notMem
    cases arg? with
    | none => simp [toList_text_operation, hmnemonic]
    | some arg => simp [toList_text_operation, hmnemonic, (harg arg rfl).newline_notMem]
  · rw [normalize_text_operation harg, ofCode?_operationLine hneeds harg]

end

/-- The text of a statement says this statement. -/
theorem says_text {s : Statement} (h : s.IsSpelled) : Says s.text s := by
  cases s with
  | constant name value => exact says_text_constant h value
  | label name => exact says_text_label h
  | operation op arg? => exact says_text_operation h.1 h.2
  | opening name => exact says_text_opening h
  | closing => exact says_text_closing

/-! ## Listings -/

/-- A program as source text: its statements as a listing shows them, a line each. -/
def Program.text (program : Program) : String :=
  unlines (program.statements.map Statement.text)

theorem Assembled.isSpelled {source : String} {statements : List SourceStatement}
    {program : Program} (hread : sourceStatements source = .ok statements)
    (h : Assembled statements program) : ∀ s ∈ program.statements, s.IsSpelled := by
  rw [h.statements_eq]
  intro s hs
  obtain ⟨x, hx, rfl⟩ := List.mem_map.1 hs
  have hcode := isCode_normalize x.line.text.toList
  exact (Statement.form_of_ofCode? hcode (says_of_mem_sourceStatements hread hx).ofCode?).isSpelled
    hcode

/-- **A listing is a source.** A listing shows the statements of a program by their templates;
without the escapes of these they assemble again, to a program that differs in nothing but the
lines. -/
theorem assemble_text {source : String} {program : Program} (h : assemble source = .ok program) :
    (∀ s ∈ program.statements, s.painted = Piece.shown s.template) ∧
      ∃ copy, assemble program.text = .ok copy ∧ program.Agrees copy := by
  refine ⟨fun s _ => s.painted_eq, ?_⟩
  obtain ⟨statements, hread, hprogram⟩ := assemble_eq_ok_iff.1 h
  have hsays : List.Forall₂ Says (program.statements.map Statement.text) program.statements := by
    rw [List.forall₂_map_left_iff, List.forall₂_same]
    exact fun s hs => says_text (hprogram.isSpelled hread s hs)
  obtain ⟨located, hlocated, hstatements⟩ := exists_sourceStatements_unlines hsays
  have hsame : located.map SourceStatement.statement =
      (statements.map SourceStatement.statement).map Renaming.refl.statement := by
    simp [hstatements, hprogram.statements_eq]
  obtain ⟨t, hnames, rfl⟩ := exists_transcription .refl (nodup_number_sourceStatements hread) hsame
  have houtcome : assemble program.text = translate t.diagnostic t.program (assemble source) := by
    apply t.assemble_eq
    rw [hread]
    exact hlocated
  rw [h] at houtcome
  have hrenamed := t.renamed_program program
  rw [hnames] at hrenamed
  exact ⟨t.program program, houtcome, hrenamed.agrees⟩

/-- Small letters, tabs, comments, a negative literal and a name that is not ASCII; the copy is in
the form of the listing, whose colours are those of the templates. -/
theorem assemble_text_listing :
    ∃ program copy,
      assemble "$N -1 # all ones\n\trun f\nλ\n ldav\t$N\n  jmp λ\nf \x7b\n  nop\n\x7d" =
        .ok program ∧
      program.statements.map Statement.painted =
        ["\x1b[33m$N 0xFF\x1b[39m", "  \x1b[31mRUN  \x1b[34mf\x1b[39m", "\x1b[32mλ\x1b[39m",
          "  \x1b[31mLDAV \x1b[34m$N\x1b[39m", "  \x1b[31mJMP  \x1b[34mλ\x1b[39m",
          "\x1b[36mf\x7b\x1b[39m", "  \x1b[31mNOP  \x1b[34m\x1b[39m", "\x1b[36m\x7d\x1b[39m"] ∧
      (∀ s ∈ program.statements, s.painted = Piece.shown s.template) ∧
      program.text =
        "$N 0xFF\n  RUN  f\nλ\n  LDAV $N\n  JMP  λ\nf\x7b\n  NOP  \n\x7d\n" ∧
      assemble program.text = .ok copy ∧ program.slotCount = 8 ∧ program.Agrees copy := by
  have hok :
      (assemble "$N -1 # all ones\n\trun f\nλ\n ldav\t$N\n  jmp λ\nf \x7b\n  nop\n\x7d").map
        (fun program =>
          (program.statements.map Statement.painted, program.text, program.slotCount)) =
      .ok (["\x1b[33m$N 0xFF\x1b[39m", "  \x1b[31mRUN  \x1b[34mf\x1b[39m", "\x1b[32mλ\x1b[39m",
          "  \x1b[31mLDAV \x1b[34m$N\x1b[39m", "  \x1b[31mJMP  \x1b[34mλ\x1b[39m",
          "\x1b[36mf\x7b\x1b[39m", "  \x1b[31mNOP  \x1b[34m\x1b[39m", "\x1b[36m\x7d\x1b[39m"],
        "$N 0xFF\n  RUN  f\nλ\n  LDAV $N\n  JMP  λ\nf\x7b\n  NOP  \n\x7d\n", 8) := by
    decide +kernel
  obtain ⟨program, h, heq⟩ := map_eq_ok_iff.1 hok
  obtain ⟨hpainted, hrest⟩ := Prod.mk.inj heq
  obtain ⟨htext, hcount⟩ := Prod.mk.inj hrest
  obtain ⟨hshown, copy, hcopy, hagrees⟩ := assemble_text h
  exact ⟨program, copy, h, hpainted, hshown, htext, hcopy, hcount, hagrees⟩

end Breadboard
