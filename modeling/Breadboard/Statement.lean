import Breadboard.Diagnostic

/-!
# Statements

What a line of source can say, how many two-byte slots of the image it takes, how it is read from
the code of a line and how a listing shows it.
-/

namespace Breadboard

/-- A statement of the source. -/
inductive Statement where
  /-- Gives a byte a name. -/
  | constant (name : String) (value : UInt8)
  /-- Names the next slot as a jump target. -/
  | label (name : String)
  /-- An instruction with its operand as written. -/
  | operation (op : Opcode) (arg? : Option String)
  /-- Opens a subroutine. -/
  | opening (name : String)
  /-- Closes the open subroutine. -/
  | closing
  deriving DecidableEq, Repr

/-- The number of slots of a statement: a constant takes none and a call takes two. -/
def Statement.width : Statement → Nat
  | constant .. => 0
  | operation .run _ => 2
  | _ => 1

/-! ## Byte literals

A literal is a number in base two after `0b`, in base sixteen after `0x`, or in base ten with an
optional sign. It denotes a byte when its value lies between -128 and 255; a negative value stands
for its two's complement. -/

namespace Literal

/-- The value of an ASCII digit of a base up to sixteen. -/
def digitValue? (base : Nat) (c : Char) : Option Nat :=
  let value? :=
    if '0' ≤ c ∧ c ≤ '9' then some (c.toNat - '0'.toNat)
    else if 'a' ≤ c ∧ c ≤ 'f' then some (c.toNat - 'a'.toNat + 10)
    else if 'A' ≤ c ∧ c ≤ 'F' then some (c.toNat - 'A'.toNat + 10)
    else none
  value?.filter (· < base)

/-- The value of one or more digits, the first counting most. -/
def numeral? (base : Nat) (digits : List Char) : Option Nat :=
  if digits.isEmpty then none
  else digits.foldlM (fun value c => (digitValue? base c).map (base * value + ·)) 0

/-- The value of a literal; a sign is for base ten only. -/
def integer? : List Char → Option Int
  | '0' :: 'b' :: digits => (numeral? 2 digits).map Int.ofNat
  | '0' :: 'x' :: digits => (numeral? 16 digits).map Int.ofNat
  | '+' :: digits => (numeral? 10 digits).map Int.ofNat
  | '-' :: digits => (numeral? 10 digits).map (-Int.ofNat ·)
  | digits => (numeral? 10 digits).map Int.ofNat

/-- The byte that a literal denotes: its value modulo 256, if that fits in eight bits with or
without sign. -/
def byte? (text : String) : Option UInt8 :=
  (integer? text.toList).bind fun value =>
    if -128 ≤ value ∧ value ≤ 255 then some (UInt8.ofInt value) else none

end Literal

/-! ## The grammar of a line

A line's code is read by its first character: `$` starts a constant definition and a space starts an
operation. All other lines are a name with an opening brace, a lone closing brace, or a label. An
empty code is a blank line. -/

/-- The characters that mean something outside of names. -/
def reserved : List Char := ['{', '}', '$', '#']

/-- Whether a text can name a constant, a label or a subroutine. -/
def isName (text : List Char) : Bool :=
  !text.isEmpty && text.all fun c => !Text.isBlank c && !reserved.contains c

namespace Statement

/-- Reads what follows the `$` of a constant definition: a name, a space and a literal. -/
def readConstant (rest : List Char) : Except Fault Statement :=
  match rest.splitOn ' ' with
  | [name, value] =>
    if isName name then
      match Literal.byte? (String.ofList value) with
      | some byte => .ok (.constant (String.ofList name) byte)
      | none => .error (.badLiteral (String.ofList value))
    else .error (.malformed (.constantForm (String.ofList ('$' :: rest))))
  | _ => .error (.malformed (.constantForm (String.ofList ('$' :: rest))))

/-- The operation of a mnemonic, which has an operand exactly when its opcode needs one. -/
def ofMnemonic (mnemonic : String) (arg? : Option String) : Except Fault Statement :=
  match Opcode.ofText? mnemonic with
  | none => .error (.unknownMnemonic mnemonic)
  | some op =>
    match op.hasOperand, arg? with
    | true, none => .error (.malformed (.operandMissing op))
    | false, some arg => .error (.malformed (.operandUnexpected op arg))
    | _, _ => .ok (.operation op arg?)

/-- Reads what follows the indent of an operation: a mnemonic and at most one operand. -/
def readOperation (rest : List Char) : Except Fault Statement :=
  match (rest.splitOn ' ').map String.ofList with
  | _ :: _ :: extra :: _ => .error (.malformed (.extraWord extra))
  | [mnemonic, arg] => ofMnemonic mnemonic (some arg)
  | [mnemonic] => ofMnemonic mnemonic none
  | [] => ofMnemonic "" none

/-- Reads a line that is neither a constant nor an operation. -/
def readMark (code : List Char) : Except Fault Statement :=
  if code.getLast? = some '{' then
    let name := code.dropLast
    if isName name then .ok (.opening (String.ofList name))
    else .error (.malformed (.subroutineName (String.ofList name)))
  else if code = ['}'] then .ok .closing
  else if isName code then .ok (.label (String.ofList code))
  else .error (.malformed (.unclassified (String.ofList code)))

/-- Reads the code of a line; a blank line says nothing. -/
def ofCode? : List Char → Except Fault (Option Statement)
  | [] => .ok none
  | '$' :: rest => (readConstant rest).map some
  | ' ' :: rest => (readOperation rest).map some
  | code => (readMark code).map some

end Statement

/-- The statement of a line, or none if the line is blank. -/
def Line.statement? (line : Line) : Except Diagnostic (Option Statement) :=
  (Statement.ofCode? (normalize line.text.toList)).mapError (Diagnostic.atLine line)

/-! ## Painted statements

The form in which a listing shows a statement: each kind has its colour, values are written in
hexadecimal, and mnemonics fill a column of five. -/

namespace Statement

open Text

/-- The coloured parts of a statement. -/
def spans : Statement → List Span
  | constant name value => [⟨[.yellow], "$" ++ name ++ " 0x" ++ hexByte value⟩]
  | label name => [⟨[.green], name⟩]
  | operation op arg? =>
    [.bare "  ", ⟨[.red], padRight 5 op.mnemonic⟩, ⟨[.blue], arg?.getD ""⟩]
  | opening name => [⟨[.cyan], name ++ "\x7b"⟩]
  | closing => [⟨[.cyan], "\x7d"⟩]

/-- A statement in colours. -/
def painted (statement : Statement) : String :=
  Span.render statement.spans

end Statement

end Breadboard
