import Breadboard.Proofs.Reading
import Breadboard.Text
import Mathlib.Data.List.Forall2
import Mathlib.Data.List.TakeWhile

/-!
# Lines that are written to be read

The other direction of reading: a text that is put together from words and numbers is read as what
was put in. A number that is written in base sixteen is the value of its digits
(`Literal.numeral?_hex`). Words that are joined by single spaces are not changed by normalisation
and are cut where they were joined (`normalize_indented`, `splitOn_spaced`), so a line that is
written for an operation says this operation (`says_operationLine`). Lines that each say a statement
are, one after the other, a source of these statements (`exists_sourceStatements_unlines`).
-/

namespace Breadboard

/-! ## Hexadecimal numbers -/

namespace Literal

theorem digitValue?_upper : ∀ d < 16, digitValue? 16 (Nat.digitChar d).toUpper = some d := by
  decide

/-- Reads digits behind a number that is read already. -/
def readDigits (base value : Nat) (digits : List Char) : Option Nat :=
  digits.foldlM (fun value c => (digitValue? base c).map (base * value + ·)) value

theorem numeral?_eq_readDigits {base : Nat} {digits : List Char} (h : digits ≠ []) :
    numeral? base digits = readDigits base 0 digits := by
  simp [numeral?, readDigits, h]

theorem readDigits_append (base value : Nat) (a b : List Char) :
    readDigits base value (a ++ b) =
      (readDigits base value a).bind fun value => readDigits base value b := by
  simp [readDigits, List.foldlM_append, bind]

theorem readDigits_toDigits (n : Nat) :
    readDigits 16 0 ((Nat.toDigits 16 n).map Char.toUpper) = some n := by
  induction n using Nat.strongRecOn with
  | ind n ih =>
    rw [Nat.toDigits_eq_if (by decide)]
    split
    · rename_i hlt
      simp [readDigits, digitValue?_upper n hlt]
    · rename_i hge
      have hdigit := digitValue?_upper (n % 16) (Nat.mod_lt n (by decide))
      rw [List.map_append, readDigits_append, ih (n / 16) (by omega)]
      simp [readDigits, hdigit]
      omega

theorem readDigits_zeros (k : Nat) : readDigits 16 0 (List.replicate k '0') = some 0 := by
  induction k with
  | zero => rfl
  | succ k ih =>
    rw [List.replicate_succ', readDigits_append, ih]
    rfl

theorem mem_toDigits {c : Char} (n : Nat) (h : c ∈ Nat.toDigits 16 n) :
    ∃ d < 16, c = Nat.digitChar d := by
  induction n using Nat.strongRecOn with
  | ind n ih =>
    rw [Nat.toDigits_eq_if (by decide)] at h
    split at h
    · rename_i hlt
      exact ⟨n, hlt, by simpa using h⟩
    · rcases List.mem_append.1 h with h | h
      · exact ih (n / 16) (by omega) h
      · exact ⟨n % 16, Nat.mod_lt n (by decide), by simpa using h⟩

theorem toList_hex (width n : Nat) :
    (Text.hex width n).toList =
      List.replicate (width - (Nat.toDigits 16 n).length) '0' ++
        (Nat.toDigits 16 n).map Char.toUpper := by
  simp [Text.hex, Text.padLeft]

theorem hex_ne_nil (width n : Nat) : (Text.hex width n).toList ≠ [] := by
  rw [toList_hex]
  simp

/-- A byte is shown by the digit of its upper half and that of its lower half. -/
theorem toList_hexByte (b : UInt8) :
    (Text.hexByte b).toList =
      [(Nat.digitChar (b.toNat / 16)).toUpper, (Nat.digitChar (b.toNat % 16)).toUpper] := by
  have hlt := b.toNat_lt
  rw [Text.hexByte, toList_hex, Nat.toDigits_eq_if (by decide)]
  split
  · rename_i hsmall
    rw [Nat.div_eq_of_lt hsmall, Nat.mod_eq_of_lt hsmall]
    rfl
  · rw [Nat.toDigits_eq_if (by decide), if_pos (by omega)]
    rfl

/-- A hexadecimal number is made of the capital digits alone. -/
theorem forall_mem_hex {P : Char → Prop} (h : ∀ d < 16, P (Nat.digitChar d).toUpper)
    (width n : Nat) : ∀ c ∈ (Text.hex width n).toList, P c := by
  intro c hc
  rw [toList_hex] at hc
  rcases List.mem_append.1 hc with hc | hc
  · rw [(List.mem_replicate.1 hc).2]
    exact h 0 (by decide)
  · obtain ⟨digit, hmem, rfl⟩ := List.mem_map.1 hc
    obtain ⟨d, hlt, rfl⟩ := mem_toDigits n hmem
    exact h d hlt

/-- Reading a hexadecimal number undoes writing it. -/
theorem numeral?_hex (width n : Nat) : numeral? 16 (Text.hex width n).toList = some n := by
  rw [numeral?_eq_readDigits (hex_ne_nil width n), toList_hex, readDigits_append, readDigits_zeros]
  exact readDigits_toDigits n

end Literal

/-- A byte as a literal in base sixteen. -/
def hexLiteral (value : UInt8) : String :=
  "0x" ++ Text.hexByte value

theorem toList_hexLiteral (value : UInt8) :
    (hexLiteral value).toList = '0' :: 'x' :: (Text.hex 2 value.toNat).toList := by
  simp [hexLiteral, Text.hexByte]

/-- A literal that is written for a byte denotes it. -/
theorem byte?_hexLiteral (value : UInt8) : Literal.byte? (hexLiteral value) = some value := by
  have hlt := value.toNat_lt
  have hrange : (-128 : Int) ≤ Int.ofNat value.toNat ∧ Int.ofNat value.toNat ≤ 255 := by
    simp only [Int.ofNat_eq_natCast]
    omega
  have hmod : (Int.ofNat value.toNat % 2 ^ 8).toNat = value.toNat := by
    simp only [Int.ofNat_eq_natCast]
    omega
  rw [Literal.byte?, toList_hexLiteral, Literal.integer?, Literal.numeral?_hex]
  simp only [Option.map_some, Option.bind_some, hrange, and_self, if_true, UInt8.ofInt, hmod,
    UInt8.ofNat_toNat]

/-! ## Words -/

/-- A text that stays as it is between the spaces of a line: it has no blank and no `#`, and does
not start with an opening brace. -/
structure IsWord (text : List Char) : Prop where
  ne_nil : text ≠ []
  isBlank : ∀ c ∈ text, Text.isBlank c = false
  notMem : '#' ∉ text
  head?_ne : text.head? ≠ some '{'

/-- Words with a space between each two of them. -/
def spaced (words : List (List Char)) : List Char :=
  [' '].intercalate words

@[simp] theorem spaced_singleton (word : List Char) : spaced [word] = word := by
  simp [spaced]

@[simp] theorem spaced_cons_cons (first second : List Char) (rest : List (List Char)) :
    spaced (first :: second :: rest) = first ++ ' ' :: spaced (second :: rest) := by
  simp [spaced, List.intercalate]

theorem mem_spaced {c : Char} : ∀ {words : List (List Char)},
    c ∈ spaced words → c = ' ' ∨ ∃ word ∈ words, c ∈ word
  | [], h => by simp [spaced] at h
  | [word], h => Or.inr ⟨word, by simp, by simpa using h⟩
  | first :: second :: rest, h => by
    simp only [spaced_cons_cons, List.mem_append, List.mem_cons] at h
    rcases h with hfirst | rfl | hrest
    · exact Or.inr ⟨first, by simp, hfirst⟩
    · exact Or.inl rfl
    · rcases mem_spaced hrest with rfl | ⟨word, hmem, hc⟩
      · exact Or.inl rfl
      · exact Or.inr ⟨word, List.mem_cons_of_mem first hmem, hc⟩

/-- A blank before a character becomes one space, unless this is an opening brace. -/
theorem squeeze_space_cons {c : Char} (h : Text.isBlank c = false) (code : List Char) :
    squeeze ' ' (c :: code) = if c = '{' then c :: code else ' ' :: c :: code := by
  have hspace := Text.ne_space_of_isBlank_eq_false h
  by_cases hbrace : c = '{'
  · simp [squeeze, hbrace]
  · simp [squeeze, hspace, hbrace]

namespace IsWord

variable {word : List Char}

theorem notMem_of_isBlank (h : IsWord word) {c : Char} (hc : Text.isBlank c = true) : c ∉ word := by
  intro hmem
  rw [h.isBlank c hmem] at hc
  cases hc

theorem foldr_squeeze (h : IsWord word) (code : List Char) :
    word.foldr squeeze code = word ++ code := by
  have hsqueeze : ∀ c ∈ word, ∀ code, squeeze c code = c :: code := by
    intro c hc code
    simp [squeeze, h.isBlank c hc]
  clear h
  induction word with
  | nil => rfl
  | cons c rest ih =>
    rw [List.foldr_cons, ih fun d hd => hsqueeze d (List.mem_cons_of_mem c hd),
      hsqueeze c List.mem_cons_self]
    rfl

/-- A blank before a word becomes one space. -/
theorem squeeze_space (h : IsWord word) (code : List Char) :
    squeeze ' ' (word ++ code) = ' ' :: (word ++ code) := by
  obtain ⟨c, rest, rfl⟩ := List.exists_cons_of_ne_nil h.ne_nil
  have hbrace : c ≠ '{' := fun hc => h.head?_ne (by simp [hc])
  rw [List.cons_append, squeeze_space_cons (h.isBlank c List.mem_cons_self), if_neg hbrace]

end IsWord

theorem isWord_hexLiteral (value : UInt8) : IsWord (hexLiteral value).toList := by
  have hdigit : ∀ d < 16, Text.isBlank (Nat.digitChar d).toUpper = false ∧
      (Nat.digitChar d).toUpper ≠ '#' := by decide
  have hall : ∀ c ∈ (hexLiteral value).toList, Text.isBlank c = false ∧ c ≠ '#' := by
    rw [toList_hexLiteral]
    simp only [List.forall_mem_cons]
    exact ⟨by decide, by decide, Literal.forall_mem_hex hdigit 2 value.toNat⟩
  constructor
  case ne_nil => simp [toList_hexLiteral]
  case isBlank => exact fun c hc => (hall c hc).1
  case notMem => exact fun hc => (hall '#' hc).2 rfl
  case head?_ne => simp [toList_hexLiteral]

theorem squeeze_space_spaced {words : List (List Char)} (h : ∀ word ∈ words, IsWord word)
    (hne : words ≠ []) : squeeze ' ' (spaced words) = ' ' :: spaced words := by
  match words, hne with
  | [word], _ =>
    have hspace := (h word (by simp)).squeeze_space []
    simpa using hspace
  | first :: second :: rest, _ =>
    rw [spaced_cons_cons]
    exact (h first (by simp)).squeeze_space _

theorem foldr_squeeze_spaced : ∀ {words : List (List Char)}, (∀ word ∈ words, IsWord word) →
    (spaced words).foldr squeeze [] = spaced words
  | [], _ => rfl
  | [word], h => by
    have hword := (h word (by simp)).foldr_squeeze []
    simpa using hword
  | first :: second :: rest, h => by
    have htail : ∀ word ∈ second :: rest, IsWord word :=
      fun word hmem => h word (List.mem_cons_of_mem first hmem)
    rw [spaced_cons_cons, List.foldr_append, List.foldr_cons, foldr_squeeze_spaced htail,
      squeeze_space_spaced htail (by simp), (h first (by simp)).foldr_squeeze]

theorem dropComment_of_notMem {text : List Char} (h : '#' ∉ text) : dropComment text = text := by
  rw [dropComment, List.takeWhile_eq_self_iff]
  intro c hc
  rw [bne_iff_ne]
  rintro rfl
  exact h hc

theorem hash_notMem_spaced {words : List (List Char)} (h : ∀ word ∈ words, IsWord word) :
    '#' ∉ spaced words := by
  intro hmem
  rcases mem_spaced hmem with hspace | ⟨word, hword, hc⟩
  · exact absurd hspace (by decide)
  · exact (h word hword).notMem hc

/-- Of an indent before words, one space is left. -/
theorem normalize_indented {words : List (List Char)} (h : ∀ word ∈ words, IsWord word)
    (hne : words ≠ []) : normalize (' ' :: ' ' :: spaced words) = ' ' :: spaced words := by
  have hcomment : '#' ∉ ' ' :: ' ' :: spaced words := by simp [hash_notMem_spaced h]
  rw [normalize, dropComment_of_notMem hcomment, List.foldr_cons, List.foldr_cons,
    foldr_squeeze_spaced h, squeeze_space_spaced h hne]
  simp [squeeze]

theorem splitOn_spaced {words : List (List Char)} (h : ∀ word ∈ words, IsWord word)
    (hne : words ≠ []) : (spaced words).splitOn ' ' = words := by
  have hspace : ∀ word ∈ words, ' ' ∉ word :=
    fun word hmem => (h word hmem).notMem_of_isBlank Text.isBlank_space
  exact List.splitOn_intercalate ' ' hspace hne

/-! ## Operations -/

/-- An operation as a line of source. -/
def operationLine (op : Opcode) (arg? : Option String) : String :=
  match arg? with
  | none => "  " ++ op.mnemonic
  | some arg => "  " ++ op.mnemonic ++ " " ++ arg

theorem toList_operationLine (op : Opcode) (arg? : Option String) :
    (operationLine op arg?).toList =
      ' ' :: ' ' :: spaced (op.mnemonic.toList :: arg?.toList.map String.toList) := by
  cases arg? <;> simp [operationLine]

theorem isWord_mnemonic (op : Opcode) : IsWord op.mnemonic.toList := by
  have hblank : (op.mnemonic.toList.all fun c => !Text.isBlank c) = true := by
    cases op <;> decide
  constructor
  case ne_nil => cases op <;> decide
  case isBlank =>
    intro c hc
    simpa using List.all_eq_true.1 hblank c hc
  case notMem => cases op <;> decide
  case head?_ne => cases op <;> decide

theorem Opcode.ofText?_mnemonic (op : Opcode) : Opcode.ofText? op.mnemonic = some op := by
  cases op <;> decide

theorem Statement.ofMnemonic_mnemonic {op : Opcode} {arg? : Option String}
    (h : arg?.isSome = op.hasOperand) :
    Statement.ofMnemonic op.mnemonic arg? = .ok (.operation op arg?) := by
  rw [Statement.ofMnemonic, Opcode.ofText?_mnemonic]
  cases arg? with
  | none => simp only [← h, Option.isSome_none]
  | some arg => simp only [← h, Option.isSome_some]

theorem isWord_of_mem_operation (op : Opcode) {arg? : Option String}
    (harg : ∀ arg, arg? = some arg → IsWord arg.toList) :
    ∀ word ∈ op.mnemonic.toList :: arg?.toList.map String.toList, IsWord word := by
  intro word hword
  rcases List.mem_cons.1 hword with rfl | hword
  · exact isWord_mnemonic op
  · obtain ⟨arg, hmem, rfl⟩ := List.mem_map.1 hword
    exact harg arg (Option.mem_toList.1 hmem)

/-- The line of an operation says this operation. -/
theorem ofCode?_operationLine {op : Opcode} {arg? : Option String}
    (h : arg?.isSome = op.hasOperand) (harg : ∀ arg, arg? = some arg → IsWord arg.toList) :
    Statement.ofCode? (normalize (operationLine op arg?).toList) =
      .ok (some (.operation op arg?)) := by
  have hwords := isWord_of_mem_operation op harg
  rw [toList_operationLine, normalize_indented hwords (by simp), Statement.ofCode?,
    Statement.readOperation, splitOn_spaced hwords (by simp)]
  cases arg? with
  | none => simp [Statement.ofMnemonic_mnemonic h, Except.map]
  | some arg => simp [Statement.ofMnemonic_mnemonic h, Except.map]

theorem newline_notMem_operationLine {op : Opcode} {arg? : Option String}
    (harg : ∀ arg, arg? = some arg → IsWord arg.toList) :
    '\n' ∉ (operationLine op arg?).toList := by
  have hspaced : '\n' ∉ spaced (op.mnemonic.toList :: arg?.toList.map String.toList) := by
    intro hmem
    rcases mem_spaced hmem with hspace | ⟨word, hword, hc⟩
    · exact absurd hspace (by decide)
    · exact (isWord_of_mem_operation op harg word hword).notMem_of_isBlank (by decide) hc
  simp [toList_operationLine, hspaced]

/-! ## Lines of a text -/

/-- A carriage return at the end of a line is a blank, and does not show in its code. -/
theorem normalize_dropReturn (text : List Char) : normalize (dropReturn text) = normalize text := by
  unfold dropReturn
  split
  · rename_i hlast
    obtain ⟨start, rfl⟩ := List.getLast?_eq_some_iff.1 hlast
    have hsqueeze : squeeze '\r' [] = [] := by decide
    rw [List.dropLast_concat, normalize, normalize, dropComment, dropComment, List.takeWhile_append]
    split
    · -- no comment starts before the carriage return
      rename_i hall
      rw [(List.takeWhile_prefix _).eq_of_length hall, List.takeWhile_cons_of_pos (by decide),
        List.takeWhile_nil, List.foldr_append, List.foldr_cons, List.foldr_nil, hsqueeze]
    · rfl
  · rfl

/-- A text of whole lines. -/
def unlines (texts : List String) : String :=
  String.join (texts.map (· ++ "\n"))

theorem lineTexts_unlines {texts : List String} (h : ∀ text ∈ texts, '\n' ∉ text.toList) :
    lineTexts (unlines texts).toList = texts.map fun text => dropReturn text.toList := by
  induction texts with
  | nil => rfl
  | cons text rest ih =>
    have hcons : (unlines (text :: rest)).toList =
        text.toList ++ '\n' :: (unlines rest).toList := by
      simp [unlines, String.toList_join]
    rw [hcons, lineTexts_append_newline, List.splitOn_eq_singleton (h text List.mem_cons_self),
      ih fun other hmem => h other (List.mem_cons_of_mem text hmem)]
    rfl

theorem map_text_lines (source : String) :
    (lines source).map (fun line => line.text.toList) = lineTexts source.toList := by
  apply List.ext_getElem?
  intro i
  simp [lines, Function.comp_def]

theorem notMem_of_mem_splitOn {c : Char} {text piece : List Char} (h : piece ∈ text.splitOn c) :
    c ∉ piece := by
  induction text generalizing piece with
  | nil =>
    obtain rfl : piece = [] := by simpa [List.splitOn_nil] using h
    exact List.not_mem_nil
  | cons x rest ih =>
    rw [List.splitOn_cons_eq_if_modifyHead] at h
    split at h
    · rcases List.mem_cons.1 h with rfl | h
      · exact List.not_mem_nil
      · exact ih h
    · -- a character that does not cut goes to the first piece
      rename_i hx
      obtain ⟨first, pieces, hsplit⟩ := List.exists_cons_of_ne_nil (List.splitOn_ne_nil c rest)
      rw [hsplit, List.modifyHead_cons] at h
      rcases List.mem_cons.1 h with rfl | h
      · have hfirst : c ∉ first := ih (hsplit ▸ List.mem_cons_self)
        have hne : c ≠ x := fun hc => hx (by simp [hc])
        simp [hfirst, hne]
      · exact ih (hsplit ▸ List.mem_cons_of_mem first h)

theorem newline_notMem_lineTexts {source text : List Char} (h : text ∈ lineTexts source) :
    '\n' ∉ text := by
  rcases List.mem_append.1 h with hmem | hmem
  · obtain ⟨piece, hpiece, rfl⟩ := List.mem_map.1 hmem
    have hnewline := notMem_of_mem_splitOn (List.dropLast_subset _ hpiece)
    unfold dropReturn
    split
    · exact fun hc => hnewline (List.dropLast_subset _ hc)
    · exact hnewline
  · have hlast := Option.mem_toList.1 (List.mem_of_mem_filter hmem)
    exact notMem_of_mem_splitOn (List.mem_of_getLast? hlast)

/-! ## Lines that say something -/

/-- A text is one line, and says a statement. -/
structure Says (text : String) (s : Statement) : Prop where
  newline : '\n' ∉ text.toList
  ofCode? : Statement.ofCode? (normalize text.toList) = .ok (some s)

/-- The line of an operation says this operation. -/
theorem says_operationLine {op : Opcode} {arg? : Option String}
    (h : arg?.isSome = op.hasOperand) (harg : ∀ arg, arg? = some arg → IsWord arg.toList) :
    Says (operationLine op arg?) (.operation op arg?) :=
  ⟨newline_notMem_operationLine harg, ofCode?_operationLine h harg⟩

theorem Line.reading?_eq (line : Line) :
    line.reading? = (Statement.ofCode? (normalize line.text.toList)).toOption.join := by
  unfold Line.reading? Line.statement?
  cases Statement.ofCode? (normalize line.text.toList) <;> rfl

theorem says_of_mem_sourceStatements {source : String} {located : List SourceStatement}
    (h : sourceStatements source = .ok located) {x : SourceStatement} (hmem : x ∈ located) :
    Says x.line.text x.statement := by
  rw [(sourceStatements_eq_ok_iff.1 h).2] at hmem
  obtain ⟨line, hline, hx⟩ := List.mem_filterMap.1 hmem
  obtain ⟨s, hs, rfl⟩ := Option.map_eq_some_iff.1 hx
  have htext : line.text.toList ∈ lineTexts source.toList := by
    rw [← map_text_lines]
    exact List.mem_map_of_mem hline
  refine ⟨newline_notMem_lineTexts htext, ?_⟩
  rw [Line.reading?_eq] at hs
  cases hcode : Statement.ofCode? (normalize line.text.toList) with
  | error fault => simp [hcode, Except.toOption] at hs
  | ok statement? => simpa [hcode, Except.toOption] using hs

/-- A source whose lines all say a statement is read as these statements. -/
theorem exists_sourceStatements {source : String} {statements : List Statement}
    (h : (lineTexts source.toList).map (fun text => Statement.ofCode? (normalize text)) =
      statements.map fun s => .ok (some s)) :
    ∃ located, sourceStatements source = .ok located ∧
      located.map SourceStatement.statement = statements := by
  rw [← map_text_lines, List.map_map] at h
  have hread : ∀ line ∈ lines source, ∃ statement?, line.statement? = .ok statement? := by
    intro line hmem
    have hcode : Statement.ofCode? (normalize line.text.toList) ∈
        statements.map fun s => .ok (some s) := by
      rw [← h]
      exact List.mem_map.2 ⟨line, hmem, rfl⟩
    obtain ⟨s, -, hs⟩ := List.mem_map.1 hcode
    exact ⟨some s, mapError_eq_ok_iff.2 hs.symm⟩
  have hlocated := sourceStatements_eq_ok_iff.2 ⟨hread, rfl⟩
  refine ⟨_, hlocated, ?_⟩
  calc _ = (lines source).filterMap Line.reading? := map_statement_sourceStatements hlocated
    _ = ((lines source).map fun line =>
          Statement.ofCode? (normalize line.text.toList)).filterMap (·.toOption.join) := by
        rw [List.filterMap_map]
        exact List.filterMap_congr fun line _ => line.reading?_eq
    _ = (statements.map fun s => (.ok (some s) : Except Fault (Option Statement))).filterMap
          (·.toOption.join) := congrArg _ h
    _ = statements := by
        rw [List.filterMap_map]
        exact List.filterMap_some

/-- Lines that say statements are, one after the other, a source of these statements. -/
theorem exists_sourceStatements_unlines {texts : List String} {statements : List Statement}
    (h : List.Forall₂ Says texts statements) :
    ∃ located, sourceStatements (unlines texts) = .ok located ∧
      located.map SourceStatement.statement = statements := by
  have hnewline : ∀ text ∈ texts, '\n' ∉ text.toList := by
    induction h with
    | nil => simp
    | cons hline _ ih => exact List.forall_mem_cons.2 ⟨hline.newline, ih⟩
  have hcode : texts.map (fun text => Statement.ofCode? (normalize text.toList)) =
      statements.map fun s => .ok (some s) := by
    clear hnewline
    induction h with
    | nil => rfl
    | cons hline _ ih => rw [List.map_cons, List.map_cons, hline.ofCode?, ih]
  apply exists_sourceStatements
  rw [lineTexts_unlines hnewline, List.map_map, ← hcode]
  exact List.map_congr_left fun text _ => congrArg _ (normalize_dropReturn text.toList)

end Breadboard
