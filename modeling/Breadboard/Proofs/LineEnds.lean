import Breadboard.Proofs.Spelling

/-!
# Ends of lines

Cutting a source into lines undoes joining lines, whichever of the two ends each line was given. A
carriage return and a line feed are the line feed of a line that has one carriage return more, and
the cut takes it off again, so joined lines are whole lines in the sense of `unlines`
(`joined_eq_unlines`). The last line may do without an end, unless it is empty
(`lineTexts_of_unended`).
-/

namespace Breadboard

/-- What ends a line. -/
inductive LineEnd where
  | feed
  | returnFeed
  deriving DecidableEq, Repr

namespace LineEnd

def text : LineEnd → String
  | feed => "\n"
  | returnFeed => "\r\n"

/-- What stands before the line feed. -/
def beforeFeed : LineEnd → String
  | feed => ""
  | returnFeed => "\r"

theorem text_eq (lineEnd : LineEnd) : lineEnd.text = lineEnd.beforeFeed ++ "\n" := by
  cases lineEnd <;> rfl

theorem newline_notMem_beforeFeed (lineEnd : LineEnd) : '\n' ∉ lineEnd.beforeFeed.toList := by
  cases lineEnd <;> decide

end LineEnd

/-- The text of a line that does not show its end: it has no line feed, and no carriage return at
its end. -/
structure LineText where
  text : String
  newline_notMem : '\n' ∉ text.toList
  getLast?_ne : text.toList.getLast? ≠ some '\r'

/-- Lines one after the other, each with its own end. -/
def joined (ended : List (LineText × LineEnd)) : String :=
  String.join (ended.map fun line => line.1.text ++ line.2.text)

/-- Texts as lines, numbered from one. -/
def numbered (texts : List String) : List Line :=
  texts.mapIdx fun i text => ⟨i + 1, text⟩

theorem lines_eq_numbered (source : String) :
    lines source = numbered ((lineTexts source.toList).map String.ofList) := by
  apply List.ext_getElem?
  intro i
  simp [lines, numbered, Function.comp_def]

/-! ## Lines with an end -/

theorem joined_eq_unlines (ended : List (LineText × LineEnd)) :
    joined ended = unlines (ended.map fun line => line.1.text ++ line.2.beforeFeed) := by
  simp only [joined, unlines, List.map_map, Function.comp_def, LineEnd.text_eq,
    String.append_assoc]

/-- The carriage return that an end puts behind a line is taken off. -/
theorem LineText.dropReturn_append (line : LineText) (lineEnd : LineEnd) :
    dropReturn (line.text ++ lineEnd.beforeFeed).toList = line.text.toList := by
  cases lineEnd with
  | feed => simp [LineEnd.beforeFeed, dropReturn, line.getLast?_ne]
  | returnFeed => simp [LineEnd.beforeFeed, dropReturn]

theorem lineTexts_joined (ended : List (LineText × LineEnd)) :
    lineTexts (joined ended).toList = ended.map fun line => line.1.text.toList := by
  have hnewline : ∀ text ∈ ended.map (fun line => line.1.text ++ line.2.beforeFeed),
      '\n' ∉ text.toList := by
    intro text hmem
    obtain ⟨line, -, rfl⟩ := List.mem_map.1 hmem
    simp [line.1.newline_notMem, line.2.newline_notMem_beforeFeed]
  rw [joined_eq_unlines, lineTexts_unlines hnewline, List.map_map]
  exact List.map_congr_left fun line _ => line.1.dropReturn_append line.2

/-! ## A last line without an end -/

theorem lineTexts_of_unended {text : List Char} (hnewline : '\n' ∉ text) (hne : text ≠ []) :
    lineTexts text = [text] := by
  simp [lineTexts, List.splitOn_eq_singleton hnewline, hne]

theorem wholeLines_joined (ended : List (LineText × LineEnd)) : WholeLines (joined ended) := by
  rcases List.eq_nil_or_concat ended with rfl | ⟨before, last, rfl⟩
  · exact .inl rfl
  · refine .inr ⟨joined before ++ (last.1.text ++ last.2.beforeFeed), ?_⟩
    simp [joined, LineEnd.text_eq, String.append_assoc]

/-! ## Splitting undoes joining -/

/-- Lines are got back from the text that they are joined to, also when the last one is not empty
and has no end; and what follows whole lines is cut as it is alone. -/
theorem lines_of_joined :
    (∀ ended : List (LineText × LineEnd),
      lines (joined ended) = numbered (ended.map fun line => line.1.text)) ∧
    (∀ (ended : List (LineText × LineEnd)) (last : LineText), last.text ≠ "" →
      lines (joined ended ++ last.text) =
        numbered (ended.map (fun line => line.1.text) ++ [last.text])) ∧
    ∀ a b : String, WholeLines a →
      lines (a ++ b) = lines a ++ (lines b).map (Line.lower (lines a).length) := by
  have htexts : ∀ ended : List (LineText × LineEnd),
      (lineTexts (joined ended).toList).map String.ofList =
        ended.map fun line => line.1.text := by
    intro ended
    rw [lineTexts_joined, List.map_map]
    exact List.map_congr_left fun line _ => String.ofList_toList
  refine ⟨fun ended => ?_, fun ended last hne => ?_, fun a b h => lines_append h⟩
  · rw [lines_eq_numbered, htexts]
  · have hlast : lineTexts last.text.toList = [last.text.toList] :=
      lineTexts_of_unended last.newline_notMem (by simpa using hne)
    rw [lines_eq_numbered, lineTexts_append (wholeLines_joined ended), List.map_append, htexts,
      hlast]
    simp

/-- Both ends, an empty line, a carriage return inside a line and a last line without an end. -/
theorem lines_of_joined_mixed :
    lines "a\r\n\nb\rc\nd" = [⟨1, "a"⟩, ⟨2, ""⟩, ⟨3, "b\rc"⟩, ⟨4, "d"⟩] ∧
      lines ("a\r\n\n" ++ "b\rc\nd") =
        lines "a\r\n\n" ++ (lines "b\rc\nd").map (Line.lower (lines "a\r\n\n").length) := by
  have hwhole : WholeLines "a\r\n\n" := .inr ⟨"a\r\n", by decide⟩
  have hended := lines_of_joined.2.1
    [(⟨"a", by decide, by decide⟩, .returnFeed), (⟨"", by decide, by decide⟩, .feed),
      (⟨"b\rc", by decide, by decide⟩, .feed)] ⟨"d", by decide, by decide⟩ (by decide)
  exact ⟨hended, lines_of_joined.2.2 _ _ hwhole⟩

end Breadboard
