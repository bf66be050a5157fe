import Breadboard.Fault
import Breadboard.Line
import Breadboard.Text

/-!
# Diagnostics

A diagnostic is a fault together with the source line it was found on, if it was found on one. Its
report shows the message, the place, the line itself and the file error behind it.
-/

namespace Breadboard

open Text

/-- A fault and the line it was found on. -/
structure Diagnostic where
  fault : Fault
  line? : Option Line
  deriving DecidableEq, Repr

namespace Diagnostic

/-- A fault found on a line. -/
def atLine (line : Line) (fault : Fault) : Diagnostic := ⟨fault, some line⟩

/-- A fault of no particular line. -/
def general (fault : Fault) : Diagnostic := ⟨fault, none⟩

/-- The arrow and the place that it points to. -/
def arrow (place : String) : List Span :=
  [.bare "     ", ⟨[.blue], "-->"⟩, .bare " ", ⟨[.underline], place⟩]

/-- The left border without a line number. -/
def border : List Span :=
  [.bare "      ", ⟨[.blue], "|"⟩]

/-- The lines that show where the fault is. -/
def placeLines (file : String) : Option Line → List (List Span)
  | none => [arrow file]
  | some line =>
    [arrow (file ++ ":" ++ line.number.repr),
      border,
      [.bare " ", ⟨[.blue], padLeft 4 ' ' line.number.repr ++ " |"⟩, .bare (" " ++ line.text)],
      border]

/-- The line that shows a file error. -/
def causeLine (cause : FileError) : List Span :=
  [.bare "      ", ⟨[.blue], "="⟩, .bare (" " ++ cause.message)]

/-- The painted lines of a report about `file`. -/
def reportLines (file message : String) (line? : Option Line) (cause? : Option FileError) :
    List (List Span) :=
  [⟨[.red, .bold], "error"⟩, .bare (": " ++ message)]
    :: placeLines file line?
    ++ (cause?.map causeLine).toList

/-- What is printed for a diagnostic about `file`. -/
def report (file : String) (diagnostic : Diagnostic) : String :=
  let lines := reportLines file diagnostic.fault.message diagnostic.line? diagnostic.fault.cause?
  String.join (lines.map fun line => Span.render line ++ "\n")

end Diagnostic

end Breadboard
