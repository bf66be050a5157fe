import Breadboard.Proofs.Codes

/-!
# The normal form of a line

What the code of a line is, said without the pass that computes it. A line is cut into its *glyphs*,
which are the characters that are not blank, each with the gap before it; blanks behind the last
glyph and a comment may follow (`Cut`). The code is made of the same glyphs in the same order. One
space is left of a gap, and none where an opening brace follows (`Glyph.code`). Every line has a cut
(`nonempty_cut`), so this determines the code (`Cut.normalize_eq`).

The glyphs also tell what a loop from the front makes of a line (`normalize_eq_closeUp`). What a
code cannot hold is read off them (`Cut.tidy_code`). A text that holds nothing of this kind is its
own code (`Tidy.normalize_eq`), which is why normalising a second time changes nothing.
-/

namespace Breadboard

/-! ## Cutting a line into glyphs -/

/-- A character that is not blank, with the blanks between it and the glyph before. -/
structure Glyph where
  gap : List Char
  char : Char
  isBlank_gap : ∀ c ∈ gap, Text.isBlank c = true
  isBlank_char : Text.isBlank char = false

namespace Glyph

/-- A glyph as it stands in a line. -/
def text (glyph : Glyph) : List Char :=
  glyph.gap ++ [glyph.char]

/-- A glyph as it stands in a code. -/
def code (glyph : Glyph) : List Char :=
  if glyph.gap ≠ [] ∧ glyph.char ≠ '{' then [' ', glyph.char] else [glyph.char]

end Glyph

/-- A line as glyphs, blanks and a comment. -/
structure Cut (line : List Char) where
  glyphs : List Glyph
  blanks : List Char
  comment : List Char
  line_eq : line = glyphs.flatMap Glyph.text ++ blanks ++ comment
  ne_hash : ∀ glyph ∈ glyphs, glyph.char ≠ '#'
  isBlank_blanks : ∀ c ∈ blanks, Text.isBlank c = true
  comment_eq : comment = [] ∨ comment.head? = some '#'

/-- The code of a line that is cut. -/
def Cut.code {line : List Char} (cut : Cut line) : List Char :=
  cut.glyphs.flatMap Glyph.code

theorem nonempty_cut (line : List Char) : Nonempty (Cut line) := by
  induction line with
  | nil => exact ⟨⟨[], [], [], rfl, by simp, by simp, .inl rfl⟩⟩
  | cons c line ih =>
    obtain ⟨glyphs, blanks, comment, rfl, hglyphs, hblanks, hcomment⟩ := ih
    by_cases hhash : c = '#'
    · subst hhash
      exact ⟨⟨[], [], _, rfl, by simp, by simp, .inr rfl⟩⟩
    · cases hblank : Text.isBlank c with
      | false =>
        have hall : ∀ glyph ∈ ⟨[], c, by simp, hblank⟩ :: glyphs, glyph.char ≠ '#' :=
          List.forall_mem_cons.2 ⟨hhash, hglyphs⟩
        exact ⟨⟨_, blanks, comment, by simp [Glyph.text], hall, hblanks, hcomment⟩⟩
      | true =>
        -- a blank belongs to the gap of the first glyph, or there is none
        cases glyphs with
        | nil =>
          have hall : ∀ d ∈ c :: blanks, Text.isBlank d = true :=
            List.forall_mem_cons.2 ⟨hblank, hblanks⟩
          exact ⟨⟨[], _, comment, by simp, by simp, hall, hcomment⟩⟩
        | cons glyph glyphs =>
          obtain ⟨gap, char, hgap, hchar⟩ := glyph
          have hall : ∀ d ∈ c :: gap, Text.isBlank d = true :=
            List.forall_mem_cons.2 ⟨hblank, hgap⟩
          exact ⟨⟨⟨c :: gap, char, hall, hchar⟩ :: glyphs, blanks, comment, by simp [Glyph.text],
            by simpa using hglyphs, hblanks, hcomment⟩⟩

/-! ## The code of a cut -/

theorem Glyph.foldr_squeeze (glyph : Glyph) (code : List Char) :
    glyph.text.foldr squeeze code = glyph.code ++ code := by
  obtain ⟨gap, char, hgap, hchar⟩ := glyph
  simp only [text, Glyph.code, List.foldr_append, List.foldr_cons, List.foldr_nil,
    squeeze_of_not_isBlank hchar]
  by_cases hne : gap = []
  · simp [hne]
  · rw [foldr_squeeze_of_isBlank hne hgap, squeeze_space_cons hchar]
    by_cases hbrace : char = '{'
    · simp [hbrace]
    · simp [hne, hbrace]

theorem foldr_squeeze_flatMap (glyphs : List Glyph) (code : List Char) :
    (glyphs.flatMap Glyph.text).foldr squeeze code = glyphs.flatMap Glyph.code ++ code := by
  induction glyphs with
  | nil => rfl
  | cons glyph glyphs ih =>
    rw [List.flatMap_cons, List.foldr_append, ih, Glyph.foldr_squeeze, List.flatMap_cons,
      List.append_assoc]

namespace Cut

variable {line : List Char}

/-- A comment starts behind the blanks at the end. -/
theorem dropComment_eq (cut : Cut line) :
    dropComment line = cut.glyphs.flatMap Glyph.text ++ cut.blanks := by
  obtain ⟨glyphs, blanks, comment, rfl, hglyphs, hblanks, hcomment⟩ := cut
  have hblank : ∀ c, Text.isBlank c = true → (c != '#') = true := by
    intro c hc
    rw [bne_iff_ne]
    rintro rfl
    cases hc
  have hbefore : ∀ c ∈ glyphs.flatMap Glyph.text ++ blanks, (c != '#') = true := by
    intro c hc
    rcases List.mem_append.1 hc with hc | hc
    · obtain ⟨glyph, hglyph, hc⟩ := List.mem_flatMap.1 hc
      rcases List.mem_append.1 hc with hc | hc
      · exact hblank c (glyph.isBlank_gap c hc)
      · rw [List.mem_singleton.1 hc, bne_iff_ne]
        exact hglyphs glyph hglyph
    · exact hblank c (hblanks c hc)
  have hnone : comment.takeWhile (· != '#') = [] := by
    rcases hcomment with rfl | hhead
    · rfl
    · obtain ⟨rest, rfl⟩ := List.head?_eq_some_iff.1 hhead
      rfl
  rw [dropComment, List.takeWhile_append_of_pos hbefore, hnone, List.append_nil]

/-- However a line is cut, its code is the code of the cut. -/
theorem normalize_eq (cut : Cut line) : normalize line = cut.code := by
  have hblanks : cut.blanks.foldr squeeze [] = [] := by
    by_cases hne : cut.blanks = []
    · rw [hne]
      rfl
    · rw [foldr_squeeze_of_isBlank hne cut.isBlank_blanks]
      rfl
  rw [normalize, cut.dropComment_eq, List.foldr_append, hblanks, foldr_squeeze_flatMap,
    List.append_nil, code]

end Cut

/-! ## Tidy texts -/

/-- A text without comment, whose only blanks are single spaces, each before a character that is no
opening brace. -/
structure Tidy (code : List Char) : Prop where
  hash_notMem : '#' ∉ code
  eq_space : ∀ c ∈ code, Text.isBlank c = true → c = ' '
  /-- What follows a space is neither a space nor an opening brace. -/
  ne_of_infix : ∀ c, [' ', c] <:+: code → c ≠ ' ' ∧ c ≠ '{'
  getLast?_ne : code.getLast? ≠ some ' '

namespace Tidy

variable {c : Char} {code : List Char}

theorem nil : Tidy [] := by
  constructor <;> simp

theorem cons (h : Tidy code) (hblank : Text.isBlank c = false) (hhash : c ≠ '#') :
    Tidy (c :: code) := by
  have hspace := Text.ne_space_of_isBlank_eq_false hblank
  constructor
  case hash_notMem => simp [hhash.symm, h.hash_notMem]
  case eq_space => simpa [hblank] using h.eq_space
  case ne_of_infix =>
    intro d hd
    rcases List.infix_cons_iff.1 hd with hstart | hlater
    · exact absurd (List.cons_prefix_cons.1 hstart).1.symm hspace
    · exact h.ne_of_infix d hlater
  case getLast?_ne =>
    cases code with
    | nil => simpa using hspace
    | cons d code => simpa using h.getLast?_ne

theorem cons_space (h : Tidy (c :: code)) (hblank : Text.isBlank c = false) (hbrace : c ≠ '{') :
    Tidy (' ' :: c :: code) := by
  constructor
  case hash_notMem => simpa using h.hash_notMem
  case eq_space => simpa using h.eq_space
  case ne_of_infix =>
    intro d hd
    rcases List.infix_cons_iff.1 hd with hstart | hlater
    · have hstart := (List.cons_prefix_cons.1 hstart).2
      obtain rfl : d = c := (List.cons_prefix_cons.1 hstart).1
      exact ⟨Text.ne_space_of_isBlank_eq_false hblank, hbrace⟩
    · exact h.ne_of_infix d hlater
  case getLast?_ne => simpa using h.getLast?_ne

theorem tail (h : Tidy (c :: code)) : Tidy code := by
  constructor
  case hash_notMem => exact fun hc => h.hash_notMem (List.mem_cons_of_mem c hc)
  case eq_space => exact fun d hd => h.eq_space d (List.mem_cons_of_mem c hd)
  case ne_of_infix => exact fun d hd => h.ne_of_infix d (List.infix_cons hd)
  case getLast?_ne =>
    cases code with
    | nil => simp
    | cons d code => simpa using h.getLast?_ne

theorem append_glyph (h : Tidy code) {glyph : Glyph} (hhash : glyph.char ≠ '#') :
    Tidy (glyph.code ++ code) := by
  have hcons := h.cons glyph.isBlank_char hhash
  unfold Glyph.code
  split
  · rename_i hgap
    exact hcons.cons_space glyph.isBlank_char hgap.2
  · exact hcons

/-- The pass leaves a tidy text as it is. -/
theorem squeeze_eq (h : Tidy (c :: code)) : squeeze c code = c :: code := by
  cases hblank : Text.isBlank c with
  | false => exact squeeze_of_not_isBlank hblank code
  | true =>
    obtain rfl := h.eq_space c List.mem_cons_self hblank
    cases code with
    | nil => exact absurd rfl h.getLast?_ne
    | cons d code =>
      obtain ⟨hspace, hbrace⟩ := h.ne_of_infix d ⟨[], code, rfl⟩
      simp [squeeze, hspace, hbrace]

/-- A tidy text is its own code. -/
theorem normalize_eq (h : Tidy code) : normalize code = code := by
  rw [normalize, dropComment_of_notMem h.hash_notMem]
  induction code with
  | nil => rfl
  | cons c code ih => rw [List.foldr_cons, ih h.tail, h.squeeze_eq]

end Tidy

theorem tidy_flatMap {glyphs : List Glyph} (h : ∀ glyph ∈ glyphs, glyph.char ≠ '#') :
    Tidy (glyphs.flatMap Glyph.code) := by
  induction glyphs with
  | nil => exact .nil
  | cons glyph glyphs ih =>
    obtain ⟨hhash, hrest⟩ := List.forall_mem_cons.1 h
    exact (ih hrest).append_glyph hhash

theorem Cut.tidy_code {line : List Char} (cut : Cut line) : Tidy cut.code :=
  tidy_flatMap cut.ne_hash

/-! ## Two stages

`squeeze` meets the characters of a line from its end and decides about a space at once. The same
code comes of two stages that start at the front: a loop that remembers whether it has passed blanks
and writes one space for them before the next character, and then the removal of every space that
stands before an opening brace. -/

/-- The state of the loop: what is written, and whether blanks were passed since. -/
structure Collapse where
  out : List Char := []
  pending : Bool := false

/-- The loop at one more character. -/
def Collapse.step (state : Collapse) (c : Char) : Collapse :=
  if Text.isBlank c then { state with pending := true }
  else ⟨state.out ++ (if state.pending then [' ', c] else [c]), false⟩

/-- The first stage: one space stands for the blanks before a character. -/
def collapse (text : List Char) : List Char :=
  (text.foldl Collapse.step {}).out

/-- The second stage: no space stands before an opening brace. -/
def closeUp : List Char → List Char
  | ' ' :: '{' :: rest => '{' :: closeUp rest
  | c :: rest => c :: closeUp rest
  | [] => []

/-- A glyph between the stages. -/
def Glyph.spaced (glyph : Glyph) : List Char :=
  if glyph.gap = [] then [glyph.char] else [' ', glyph.char]

/-- Blanks are passed without a trace in what is written. -/
theorem foldl_step_of_isBlank {blanks : List Char} (h : ∀ c ∈ blanks, Text.isBlank c = true)
    (state : Collapse) :
    blanks.foldl Collapse.step state = ⟨state.out, state.pending || !blanks.isEmpty⟩ := by
  induction blanks generalizing state with
  | nil => simp
  | cons c rest ih =>
    obtain ⟨hc, hrest⟩ := List.forall_mem_cons.1 h
    rw [List.foldl_cons, ih hrest]
    simp [Collapse.step, hc]

theorem Glyph.foldl_step (glyph : Glyph) (out : List Char) :
    glyph.text.foldl Collapse.step ⟨out, false⟩ = ⟨out ++ glyph.spaced, false⟩ := by
  rw [text, List.foldl_append, foldl_step_of_isBlank glyph.isBlank_gap]
  by_cases hgap : glyph.gap = [] <;> simp [Collapse.step, spaced, glyph.isBlank_char, hgap]

theorem foldl_step_flatMap (glyphs : List Glyph) (out : List Char) :
    (glyphs.flatMap Glyph.text).foldl Collapse.step ⟨out, false⟩ =
      ⟨out ++ glyphs.flatMap Glyph.spaced, false⟩ := by
  induction glyphs generalizing out with
  | nil => simp
  | cons glyph glyphs ih =>
    rw [List.flatMap_cons, List.foldl_append, Glyph.foldl_step, ih, List.flatMap_cons,
      List.append_assoc]

theorem closeUp_cons {c : Char} (h : c ≠ ' ') (rest : List Char) :
    closeUp (c :: rest) = c :: closeUp rest := by
  rw [closeUp]
  rintro _ rfl
  exact absurd rfl h

theorem Glyph.closeUp_append (glyph : Glyph) (rest : List Char) :
    closeUp (glyph.spaced ++ rest) = glyph.code ++ closeUp rest := by
  have hspace := Text.ne_space_of_isBlank_eq_false glyph.isBlank_char
  unfold spaced code
  by_cases hgap : glyph.gap = []
  · simp [hgap, closeUp_cons hspace]
  · by_cases hbrace : glyph.char = '{'
    · simp [hgap, hbrace, closeUp]
    · simp [hgap, hbrace, closeUp, closeUp_cons hspace]

theorem closeUp_flatMap (glyphs : List Glyph) :
    closeUp (glyphs.flatMap Glyph.spaced) = glyphs.flatMap Glyph.code := by
  induction glyphs with
  | nil => rfl
  | cons glyph glyphs ih => rw [List.flatMap_cons, glyph.closeUp_append, ih, List.flatMap_cons]

/-- The first stage leaves the glyphs of a line with one space for each gap. -/
theorem Cut.collapse_eq {line : List Char} (cut : Cut line) :
    collapse (line.takeWhile (· != '#')) = cut.glyphs.flatMap Glyph.spaced := by
  -- the blanks behind the last glyph only raise the flag
  rw [← dropComment, cut.dropComment_eq, collapse, List.foldl_append, foldl_step_flatMap,
    foldl_step_of_isBlank cut.isBlank_blanks, List.nil_append]

/-- The pass from the end and the two stages from the front agree on every line. -/
theorem normalize_eq_closeUp (line : List Char) :
    normalize line = closeUp (collapse (line.takeWhile (· != '#'))) := by
  obtain ⟨cut⟩ := nonempty_cut line
  rw [cut.normalize_eq, cut.collapse_eq, closeUp_flatMap, Cut.code]

/-! ## The code of a line -/

/-- The code of a line is that of its glyphs, and what the two stages make of the line; it is tidy,
and as a line it is its own code. -/
theorem code_eq_of_cut (line : Line) :
    Nonempty (Cut line.text.toList) ∧
      (∀ cut : Cut line.text.toList, line.code.toList = cut.code) ∧
      line.code.toList = closeUp (collapse (line.text.toList.takeWhile (· != '#'))) ∧
      Tidy line.code.toList ∧
      ∀ number, (⟨number, line.code⟩ : Line).code = line.code := by
  have hcode : line.code.toList = normalize line.text.toList := String.toList_ofList
  obtain ⟨cut⟩ := nonempty_cut line.text.toList
  have htidy : Tidy line.code.toList := by
    rw [hcode, cut.normalize_eq]
    exact cut.tidy_code
  refine ⟨⟨cut⟩, fun other => hcode.trans other.normalize_eq,
    hcode.trans (normalize_eq_closeUp line.text.toList), htidy, fun number => ?_⟩
  calc (⟨number, line.code⟩ : Line).code
      = String.ofList (normalize line.code.toList) := rfl
    _ = String.ofList line.code.toList := by rw [htidy.normalize_eq]
    _ = line.code := String.ofList_toList

example : (⟨1, "\t greet \u00a0 \x7bx  \x7b # \x7b"⟩ : Line).code = " greet\x7bx\x7b" := by decide

end Breadboard
