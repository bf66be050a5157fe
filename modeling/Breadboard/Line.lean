import Breadboard.Text

/-!
# Source lines

A source text is a list of lines, numbered from one. A line feed ends a line, together with one
carriage return right before it; what follows the last line feed is a line of its own unless it is
empty. The *code* of a line is what the grammar reads: the comment is gone, each run of blanks has
become one space, and no space stands at the end or before an opening brace.
-/

namespace Breadboard

/-- A line of source text and its number, counted from one. -/
structure Line where
  number : Nat
  text : String
  deriving DecidableEq, Repr

/-! ## Cutting a source in lines -/

/-- Takes one carriage return off the end of a line. -/
def dropReturn (line : List Char) : List Char :=
  if line.getLast? = some '\r' then line.dropLast else line

/-- The texts of the lines of a source. -/
def lineTexts (source : List Char) : List (List Char) :=
  let pieces := source.splitOn '\n'
  pieces.dropLast.map dropReturn ++ (pieces.getLast?.toList).filter (!·.isEmpty)

/-- The lines of a source in order. -/
def lines (source : String) : List Line :=
  (lineTexts source.toList).mapIdx fun i text => ⟨i + 1, String.ofList text⟩

/-! ## Normalisation -/

/-- A line without its comment, which starts at the first `#`. -/
def dropComment (text : List Char) : List Char :=
  text.takeWhile (· != '#')

/-- Puts a character in front of normalised text. A blank becomes a space, unless the text is empty
or starts with a space or an opening brace. -/
def squeeze (c : Char) (code : List Char) : List Char :=
  if Text.isBlank c then
    match code with
    | [] => []
    | ' ' :: _ => code
    | '{' :: _ => code
    | _ => ' ' :: code
  else c :: code

/-- The code of a line's text. -/
def normalize (text : List Char) : List Char :=
  (dropComment text).foldr squeeze []

/-- The part of a line that the grammar reads. -/
def Line.code (line : Line) : String :=
  String.ofList (normalize line.text.toList)

end Breadboard
