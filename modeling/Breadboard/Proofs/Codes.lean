import Breadboard.Proofs.Spelling

/-!
# The code of a line

The reader looks at the code of a line in a fixed order: at its first character, then at its last,
then at the whole. What it accepts is said here without that order, as a grammar of six forms
(`Statement.Form`). A text has at most one of them (`Statement.Form.unique`), so the order does not
matter.

One direction holds for every text: a text with a form is read as the statement of this form. The
other needs that the text is the code of a line, words with one space between them
(`isCode_normalize`): a space at its end would be taken for an empty operand.
-/

namespace Breadboard

/-! ## The form of a code -/

/-- A text that has no blank and no `#`. -/
structure IsChunk (text : List Char) : Prop where
  ne_nil : text ≠ []
  isBlank : ∀ c ∈ text, Text.isBlank c = false
  notMem : '#' ∉ text

theorem IsWord.isChunk {word : List Char} (h : IsWord word) : IsChunk word :=
  ⟨h.ne_nil, h.isBlank, h.notMem⟩

theorem IsChunk.isWord {chunk : List Char} (h : IsChunk chunk) (hhead : chunk.head? ≠ some '{') :
    IsWord chunk :=
  ⟨h.ne_nil, h.isBlank, h.notMem, hhead⟩

/-- The form of a code: words with one space between them, and perhaps one before them. A word at
the very beginning may start with an opening brace. -/
inductive IsCode : List Char → Prop
  | blank : IsCode []
  | flush {first : List Char} {rest : List (List Char)} (hfirst : IsChunk first)
      (hrest : ∀ word ∈ rest, IsWord word) : IsCode (spaced (first :: rest))
  | indented {words : List (List Char)} (hne : words ≠ []) (hwords : ∀ word ∈ words, IsWord word) :
      IsCode (' ' :: spaced words)

theorem isChunk_singleton {c : Char} (hblank : Text.isBlank c = false) (hhash : c ≠ '#') :
    IsChunk [c] :=
  ⟨by simp, by simpa using hblank, by simpa using hhash.symm⟩

theorem IsChunk.cons {c : Char} {chunk : List Char} (h : IsChunk chunk)
    (hblank : Text.isBlank c = false) (hhash : c ≠ '#') : IsChunk (c :: chunk) := by
  constructor
  case ne_nil => simp
  case isBlank => simpa [hblank] using h.isBlank
  case notMem => simpa [hhash.symm] using h.notMem

theorem spaced_cons_of_ne_nil (first : List Char) {rest : List (List Char)} (h : rest ≠ []) :
    spaced (first :: rest) = first ++ ' ' :: spaced rest := by
  obtain ⟨second, rest, rfl⟩ := List.exists_cons_of_ne_nil h
  exact spaced_cons_cons first second rest

theorem spaced_cons_append (c : Char) (first : List Char) (rest : List (List Char)) :
    spaced ((c :: first) :: rest) = c :: spaced (first :: rest) := by
  cases rest with
  | nil => simp
  | cons second rest => simp

theorem squeeze_of_isBlank {c : Char} (h : Text.isBlank c = true) (code : List Char) :
    squeeze c code = squeeze ' ' code := by
  simp [squeeze, h]

theorem squeeze_of_not_isBlank {c : Char} (h : Text.isBlank c = false) (code : List Char) :
    squeeze c code = c :: code := by
  simp [squeeze, h]

theorem squeeze_space_idem (code : List Char) :
    squeeze ' ' (squeeze ' ' code) = squeeze ' ' code := by
  have hcases : squeeze ' ' code = code ∨ squeeze ' ' code = ' ' :: code := by
    simp only [squeeze, Text.isBlank_space, if_true]
    split <;> simp
  rcases hcases with h | h
  · rw [h, h]
  · rw [h]
    simp [squeeze]

/-- A run of blanks counts as one space. -/
theorem foldr_squeeze_of_isBlank {blanks : List Char} (hne : blanks ≠ [])
    (h : ∀ c ∈ blanks, Text.isBlank c = true) (code : List Char) :
    blanks.foldr squeeze code = squeeze ' ' code := by
  induction blanks with
  | nil => exact absurd rfl hne
  | cons c rest ih =>
    obtain ⟨hc, hrest⟩ := List.forall_mem_cons.1 h
    rw [List.foldr_cons, squeeze_of_isBlank hc]
    by_cases hend : rest = []
    · rw [hend, List.foldr_nil]
    · rw [ih hend hrest, squeeze_space_idem]

/-- One more character in front keeps the form. -/
theorem isCode_squeeze {c : Char} {code : List Char} (hhash : c ≠ '#') (h : IsCode code) :
    IsCode (squeeze c code) := by
  cases hblank : Text.isBlank c with
  | true =>
    rw [squeeze_of_isBlank hblank]
    cases h with
    | blank => exact .blank
    | @flush first rest hfirst hrest =>
      -- a space goes in front of the first word, unless that starts with a brace
      by_cases hhead : first.head? = some '{'
      · obtain ⟨tail, rfl⟩ := List.head?_eq_some_iff.1 hhead
        have hsame : squeeze ' ' (spaced (('{' :: tail) :: rest)) =
            spaced (('{' :: tail) :: rest) := by
          simp [spaced_cons_append, squeeze]
        rw [hsame]
        exact .flush hfirst hrest
      · have hwords : ∀ word ∈ first :: rest, IsWord word :=
          List.forall_mem_cons.2 ⟨hfirst.isWord hhead, hrest⟩
        rw [squeeze_space_spaced hwords (by simp)]
        exact .indented (by simp) hwords
    | @indented words hne hwords =>
      rw [← squeeze_space_spaced hwords hne, squeeze_space_idem, squeeze_space_spaced hwords hne]
      exact .indented hne hwords
  | false =>
    rw [squeeze_of_not_isBlank hblank]
    cases h with
    | blank =>
      have hone : [c] = spaced [[c]] := by simp
      rw [hone]
      exact .flush (isChunk_singleton hblank hhash) (by simp)
    | @flush first rest hfirst hrest =>
      rw [← spaced_cons_append]
      exact .flush (hfirst.cons hblank hhash) hrest
    | @indented words hne hwords =>
      have hcons : c :: ' ' :: spaced words = spaced ([c] :: words) :=
        (spaced_cons_of_ne_nil [c] hne).symm
      rw [hcons]
      exact .flush (isChunk_singleton hblank hhash) hwords

/-- Normalisation brings every text into the form of a code. -/
theorem isCode_normalize (text : List Char) : IsCode (normalize text) := by
  have hhash : ∀ c ∈ dropComment text, c ≠ '#' := by
    intro c hc
    simpa using List.mem_takeWhile_imp hc
  rw [normalize]
  generalize dropComment text = body at hhash
  induction body with
  | nil => exact .blank
  | cons c rest ih =>
    obtain ⟨hc, hrest⟩ := List.forall_mem_cons.1 hhash
    exact isCode_squeeze hc (ih hrest)

theorem IsCode.exists_words {rest : List Char} (h : IsCode (' ' :: rest)) :
    ∃ words, words ≠ [] ∧ (∀ word ∈ words, IsWord word) ∧ rest = spaced words := by
  generalize hcode : ' ' :: rest = code at h
  cases h with
  | blank => cases hcode
  | @flush first words hfirst _ =>
    -- the first word starts with no space
    obtain ⟨c, tail, rfl⟩ := List.exists_cons_of_ne_nil hfirst.ne_nil
    rw [spaced_cons_append] at hcode
    obtain ⟨rfl, -⟩ := List.cons.inj hcode
    cases hfirst.isBlank ' ' List.mem_cons_self
  | indented hne hwords => exact ⟨_, hne, hwords, (List.cons.inj hcode).2⟩

/-! ## Names -/

section
variable {name : List Char}

theorem ne_of_isName (h : isName name) {c : Char} (hc : c ∈ name) :
    Text.isBlank c = false ∧ c ∉ reserved := by
  simp only [isName, Bool.and_eq_true, List.all_eq_true] at h
  simpa using h.2 c hc

theorem isWord_of_isName (h : isName name) : IsWord name := by
  have hne : name ≠ [] := by
    rintro rfl
    cases h
  constructor
  case ne_nil => exact hne
  case isBlank => exact fun c hc => (ne_of_isName h hc).1
  case notMem => exact fun hc => (ne_of_isName h hc).2 (by decide)
  case head?_ne => exact fun hhead => (ne_of_isName h (List.mem_of_head? hhead)).2 (by decide)

end

/-! ## Forms -/

/-- The forms of a code that is not blank, each with the statement that it says. -/
inductive Statement.Form : List Char → Statement → Prop
  | constant {name literal : List Char} {value : UInt8} (hname : isName name)
      (hspace : ' ' ∉ literal) (hvalue : Literal.byte? (String.ofList literal) = some value) :
      Form ('$' :: (name ++ ' ' :: literal)) (.constant (String.ofList name) value)
  | bare {word : List Char} {op : Opcode} (hne : word ≠ []) (hspace : ' ' ∉ word)
      (hop : word.map Char.toUpper = op.mnemonic.toList) (hneeds : op.hasOperand = false) :
      Form (' ' :: word) (.operation op none)
  | operand {word arg : List Char} {op : Opcode} (hne : word ≠ []) (hspace : ' ' ∉ word)
      (hop : word.map Char.toUpper = op.mnemonic.toList) (hneeds : op.hasOperand = true)
      (harg : arg ≠ []) (hargSpace : ' ' ∉ arg) :
      Form (' ' :: (word ++ ' ' :: arg)) (.operation op (some (String.ofList arg)))
  | opening {name : List Char} (hname : isName name) :
      Form (name ++ ['{']) (.opening (String.ofList name))
  | closing : Form ['}'] .closing
  | label {name : List Char} (hname : isName name) : Form name (.label (String.ofList name))

theorem Opcode.ofText?_eq_some_iff {text : String} {op : Opcode} :
    Opcode.ofText? text = some op ↔ text.toList.map Char.toUpper = op.mnemonic.toList := by
  unfold Opcode.ofText?
  constructor
  · intro h
    rw [Opcode.mnemonic_of_ofMnemonic? h, String.toList_ofList]
  · intro h
    rw [h, String.ofList_toList, Opcode.ofMnemonic?_mnemonic]

theorem Statement.ofMnemonic_eq_ok_iff {mnemonic : String} {arg? : Option String} {s : Statement} :
    Statement.ofMnemonic mnemonic arg? = .ok s ↔
      ∃ op, mnemonic.toList.map Char.toUpper = op.mnemonic.toList ∧
        arg?.isSome = op.hasOperand ∧ s = .operation op arg? := by
  simp only [← Opcode.ofText?_eq_some_iff, Statement.ofMnemonic]
  cases Opcode.ofText? mnemonic with
  | none => simp
  | some op =>
    simp only [Option.some.injEq, exists_eq_left']
    cases hneeds : op.hasOperand <;> cases arg? <;> simp [eq_comm]

theorem splitOn_pair {a b : List Char} (ha : ' ' ∉ a) (hb : ' ' ∉ b) :
    (a ++ ' ' :: b).splitOn ' ' = [a, b] := by
  rw [List.splitOn_append_cons_self, List.splitOn_eq_singleton ha, List.splitOn_eq_singleton hb]
  rfl

section
variable {name : List Char}

theorem readMark_of_isName (h : isName name) :
    Statement.readMark name = .ok (.label (String.ofList name)) := by
  have hlast : name.getLast? ≠ some '{' :=
    fun hlast => (ne_of_isName h (List.mem_of_getLast? hlast)).2 (by decide)
  have hbrace : name ≠ ['}'] := by
    rintro rfl
    exact (ne_of_isName h List.mem_cons_self).2 (by decide)
  simp [Statement.readMark, hlast, hbrace, h]

/-- A line that starts with a name is a mark. -/
theorem ofCode?_append_of_isName (h : isName name) (rest : List Char) :
    Statement.ofCode? (name ++ rest) = (Statement.readMark (name ++ rest)).map some := by
  obtain ⟨c, tail, rfl⟩ := List.exists_cons_of_ne_nil (isWord_of_isName h).ne_nil
  obtain ⟨hblank, hreserved⟩ := ne_of_isName h List.mem_cons_self
  have hdollar : c ≠ '$' := by
    rintro rfl
    exact hreserved (by decide)
  have hspace := Text.ne_space_of_isBlank_eq_false hblank
  simp [Statement.ofCode?, hdollar, hspace]

end

/-- A text that has a form is read as the statement of this form. -/
theorem Statement.Form.ofCode?_eq {code : List Char} {s : Statement} (h : Statement.Form code s) :
    Statement.ofCode? code = .ok (some s) := by
  cases h with
  | @constant name literal value hname hspace hvalue =>
    have hsplit : (name ++ ' ' :: literal).splitOn ' ' = [name, literal] :=
      splitOn_pair ((isWord_of_isName hname).notMem_of_isBlank Text.isBlank_space) hspace
    simp [Statement.ofCode?, Statement.readConstant, hsplit, hname, hvalue, Except.map]
  | @bare word op hne hspace hop hneeds =>
    have hread : Statement.ofMnemonic (String.ofList word) none = .ok (.operation op none) :=
      Statement.ofMnemonic_eq_ok_iff.2 ⟨op, by simpa using hop, hneeds.symm, rfl⟩
    simp [Statement.ofCode?, Statement.readOperation, List.splitOn_eq_singleton hspace, hread,
      Except.map]
  | @operand word arg op hne hspace hop hneeds harg hargSpace =>
    have hread : Statement.ofMnemonic (String.ofList word) (some (String.ofList arg)) =
        .ok (.operation op (some (String.ofList arg))) :=
      Statement.ofMnemonic_eq_ok_iff.2 ⟨op, by simpa using hop, hneeds.symm, rfl⟩
    simp [Statement.ofCode?, Statement.readOperation, splitOn_pair hspace hargSpace, hread,
      Except.map]
  | @opening name hname =>
    rw [ofCode?_append_of_isName hname]
    simp [Statement.readMark, hname, Except.map]
  | closing => decide
  | label hname =>
    have hread := ofCode?_append_of_isName hname []
    rw [List.append_nil, readMark_of_isName hname] at hread
    exact hread

/-- A text has at most one form. -/
theorem Statement.Form.unique {code : List Char} {s t : Statement} (hs : Statement.Form code s)
    (ht : Statement.Form code t) : s = t := by
  have heq := hs.ofCode?_eq.symm.trans ht.ofCode?_eq
  exact Option.some.inj (Except.ok.inj heq)

/-! ## What is read has a form -/

theorem eq_append_of_splitOn_eq_pair {text a b : List Char} (h : text.splitOn ' ' = [a, b]) :
    text = a ++ ' ' :: b ∧ ' ' ∉ b := by
  have hjoin : spaced (text.splitOn ' ') = text := List.intercalate_splitOn ' '
  have hmem : b ∈ text.splitOn ' ' := by simp [h]
  rw [h, spaced_cons_cons, spaced_singleton] at hjoin
  exact ⟨hjoin.symm, notMem_of_mem_splitOn hmem⟩

theorem Statement.form_of_readConstant {rest : List Char} {s : Statement}
    (h : Statement.readConstant rest = .ok s) : Statement.Form ('$' :: rest) s := by
  unfold Statement.readConstant at h
  split at h
  · rename_i name literal hsplit
    obtain ⟨rfl, hspace⟩ := eq_append_of_splitOn_eq_pair hsplit
    split at h
    · rename_i hname
      split at h
      · rename_i value hvalue
        cases h
        exact .constant hname hspace hvalue
      · cases h
    · cases h
  · cases h

theorem Statement.form_of_readOperation {words : List (List Char)} {s : Statement}
    (hne : words ≠ []) (hwords : ∀ word ∈ words, IsWord word)
    (h : Statement.readOperation (spaced words) = .ok s) :
    Statement.Form (' ' :: spaced words) s := by
  have hspace : ∀ word ∈ words, ' ' ∉ word :=
    fun word hmem => (hwords word hmem).notMem_of_isBlank Text.isBlank_space
  rw [Statement.readOperation, splitOn_spaced hwords hne] at h
  -- one word, a mnemonic with its operand, or too many words
  rcases words with _ | ⟨mnemonic, _ | ⟨arg, _ | ⟨extra, rest⟩⟩⟩
  · exact absurd rfl hne
  · obtain ⟨op, hop, hneeds, rfl⟩ := Statement.ofMnemonic_eq_ok_iff.1 h
    rw [spaced_singleton]
    exact .bare (hwords mnemonic (by simp)).ne_nil (hspace mnemonic (by simp))
      (by simpa using hop) hneeds.symm
  · obtain ⟨op, hop, hneeds, rfl⟩ := Statement.ofMnemonic_eq_ok_iff.1 h
    rw [spaced_cons_cons, spaced_singleton]
    exact .operand (hwords mnemonic (by simp)).ne_nil (hspace mnemonic (by simp))
      (by simpa using hop) hneeds.symm (hwords arg (by simp)).ne_nil (hspace arg (by simp))
  · cases h

theorem Statement.form_of_readMark {code : List Char} {s : Statement}
    (h : Statement.readMark code = .ok s) : Statement.Form code s := by
  unfold Statement.readMark at h
  dsimp only at h
  split at h
  · rename_i hlast
    obtain ⟨name, rfl⟩ := List.getLast?_eq_some_iff.1 hlast
    rw [List.dropLast_concat] at h
    split at h
    · rename_i hname
      cases h
      exact .opening hname
    · cases h
  · split at h
    · rename_i hbrace
      cases h
      rw [hbrace]
      exact .closing
    · split at h
      · rename_i hname
        cases h
        exact .label hname
      · cases h

/-- What is read from the code of a line has the form of what was read. -/
theorem Statement.form_of_ofCode? {code : List Char} {s : Statement} (hcode : IsCode code)
    (h : Statement.ofCode? code = .ok (some s)) : Statement.Form code s := by
  unfold Statement.ofCode? at h
  split at h
  · cases h
  · obtain ⟨t, hread, ht⟩ := map_eq_ok_iff.1 h
    cases ht
    exact Statement.form_of_readConstant hread
  · obtain ⟨t, hread, ht⟩ := map_eq_ok_iff.1 h
    cases ht
    obtain ⟨words, hne, hwords, rfl⟩ := hcode.exists_words
    exact Statement.form_of_readOperation hne hwords hread
  · obtain ⟨t, hread, ht⟩ := map_eq_ok_iff.1 h
    cases ht
    exact Statement.form_of_readMark hread

end Breadboard
