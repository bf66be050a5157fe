/-!
# Text

How characters are read and texts are shown: which characters are blank, columns, hexadecimal
numbers and colours.
-/

namespace Breadboard.Text

/-! ## Blank characters

A character is blank when it has the Unicode property `White_Space`: 25 code points, here as
closed ranges. Every rule about spacing in a source line goes through `isBlank`. -/

/-- The code points with the property `White_Space`, as closed ranges in ascending order. -/
def blankRanges : List (Nat × Nat) :=
  [(0x09, 0x0D), (0x20, 0x20), (0x85, 0x85), (0xA0, 0xA0), (0x1680, 0x1680), (0x2000, 0x200A),
    (0x2028, 0x2029), (0x202F, 0x202F), (0x205F, 0x205F), (0x3000, 0x3000)]

/-- Whether a character is white space. -/
def isBlank (c : Char) : Bool :=
  blankRanges.any fun (first, last) => first ≤ c.toNat && c.toNat ≤ last

@[simp] theorem isBlank_space : isBlank ' ' = true := by decide

theorem ne_space_of_isBlank_eq_false {c : Char} (h : isBlank c = false) : c ≠ ' ' := by
  rintro rfl
  cases h

/-! ## Columns

Texts are set in columns by filling up with one character. The width of a text is its number of
characters, and a text wider than its column is left as it is. -/

/-- A text made of `n` copies of a character. -/
def repeated (n : Nat) (c : Char) : String :=
  String.ofList (List.replicate n c)

/-- Fills a text up with blanks on its right. -/
def padRight (width : Nat) (text : String) : String :=
  text ++ repeated (width - text.length) ' '

/-- Fills a text up on its left with `fill`. -/
def padLeft (width : Nat) (fill : Char) (text : String) : String :=
  repeated (width - text.length) fill ++ text

@[simp] theorem toList_repeated (n : Nat) (c : Char) :
    (repeated n c).toList = List.replicate n c := by
  simp [repeated]

/-! ## Hexadecimal numbers

Addresses and bytes are shown in base sixteen with capital letters, filled up with zeros to a
least number of digits. -/

/-- The capital hexadecimal digits of a number, at least `width` of them. -/
def hex (width n : Nat) : String :=
  padLeft width '0' (String.ofList ((Nat.toDigits 16 n).map Char.toUpper))

/-- The two hexadecimal digits of a byte. -/
def hexByte (b : UInt8) : String :=
  hex 2 b.toNat

/-! ## Painted text

Coloured output is a list of spans, each a text with the styles that hold on it. `render` writes the
terminal's escape sequences around each span; where the next span sets a style that ends with the
same sequence, that sequence is left out, so neighbouring colours share one reset. -/

/-- How a span is shown. -/
inductive Style where
  | red
  | green
  | yellow
  | blue
  | cyan
  | bold
  | dim
  | underline
  deriving DecidableEq, Repr

namespace Style

/-- The code that switches a style on. -/
def start : Style → Nat
  | red => 31
  | green => 32
  | yellow => 33
  | blue => 34
  | cyan => 36
  | bold => 1
  | dim => 2
  | underline => 4

/-- The code that switches a style off; all colours share one, and so do the two weights. -/
def stop : Style → Nat
  | red | green | yellow | blue | cyan => 39
  | bold | dim => 22
  | underline => 24

end Style

/-- The escape sequence that sends a code to the terminal. -/
def escape (code : Nat) : String :=
  "\x1b[" ++ Nat.repr code ++ "m"

/-- A text and the styles that hold on all of it. -/
structure Span where
  styles : List Style
  text : String
  deriving DecidableEq, Repr

namespace Span

/-- A span without any style. -/
def bare (text : String) : Span := ⟨[], text⟩

/-- The codes written after a span: its styles' ends, less those that the next span overrides. -/
def closing (span : Span) (next : List Span) : List Nat :=
  (span.styles.map Style.stop).filter fun code =>
    !(next.take 1).any fun other => other.styles.any fun style => style.stop == code

/-- The spans' text with the escape sequences of their styles. -/
def render : List Span → String
  | [] => ""
  | span :: rest =>
    String.join ((span.styles.map Style.start).map escape) ++ span.text
      ++ String.join ((span.closing rest).map escape) ++ render rest

end Span

end Breadboard.Text
