import Breadboard.Program.Listing
import Breadboard.Proofs.Emission
import Breadboard.Proofs.Spelling

/-!
# Reading a listing back

A line of a listing shows an address and bytes between escape sequences and blanks. They are read
from the text of the line alone (`ListingRow.ofLine?`): what stands in front of the first bar is
freed from escape sequences, the brackets hold the address or blanks, and the words behind them are
bytes.

What is read is what the line was made of, for any instruction (`Instruction.ofLine?_listingLine`):
a digit is neither a blank, a bar, a bracket nor the start of an escape sequence, and a byte has two
of them. That the image holds these bytes at this address is then the agreement of layout and
emission (`Assembled.getElem?_bytes`).
-/

namespace Breadboard

open Text

/-! ## The reader -/

/-- Text without its escape sequences, each of which ends with an `m`; `inside` says whether the
text starts in the middle of one. -/
def unpainted (inside : Bool) : List Char → List Char
  | [] => []
  | c :: rest =>
    if inside then unpainted (c != 'm') rest
    else if c = '\x1b' then unpainted true rest
    else c :: unpainted false rest

/-- Text in front of the first bar that follows a space, and in front of that space. -/
def beforeBar : List Char → List Char
  | [] => []
  | c :: rest => if c = ' ' ∧ rest.head? = some '|' then [] else c :: beforeBar rest

/-- The parts of a text between spaces. -/
def words (text : List Char) : List (List Char) :=
  (text.splitOn ' ').filter (!·.isEmpty)

/-- Whether a character is a hexadecimal digit that is no small letter. -/
def isCapitalDigit (c : Char) : Bool :=
  c.isDigit || "ABCDEF".toList.contains c

/-- The number that capital hexadecimal digits stand for. -/
def capitalNumeral? (digits : List Char) : Option Nat :=
  if digits.all isCapitalDigit then Literal.numeral? 16 digits else none

/-- The byte that two capital hexadecimal digits stand for. -/
def byteToken? (token : List Char) : Option UInt8 :=
  if token.length = 2 then (capitalNumeral? token).map UInt8.ofNat else none

/-- What a line of a listing shows of the image. -/
structure ListingRow where
  address? : Option Nat
  bytes : List UInt8
  deriving DecidableEq, Repr

/-- Reads the address in the brackets, or blanks in its place. -/
def readAddress? (field : List Char) : Option (Option Nat) :=
  if field.all (· == ' ') then some none else (capitalNumeral? field).map some

/-- Reads brackets around an address, and the bytes behind them. -/
def ListingRow.ofFront? : List Char → Option ListingRow
  | '[' :: rest => do
    let address? ← readAddress? (rest.takeWhile (· != ']'))
    let bytes ← (words ((rest.dropWhile (· != ']')).drop 1)).mapM byteToken?
    return ⟨address?, bytes⟩
  | _ => none

/-- Reads a line of a listing in front of its first bar. -/
def ListingRow.ofLine? (line : String) : Option ListingRow :=
  ofFront? (unpainted false (beforeBar line.toList))

/-- What the listing should show of an instruction. -/
def Instruction.listingRow (instruction : Instruction) : ListingRow :=
  ⟨instruction.slot?.map (2 * ·), instruction.slots.flatMap Slot.bytes⟩

/-! ## Capital digits -/

theorem isCapitalDigit_of_mem_hex {width n : Nat} {c : Char} (h : c ∈ (hex width n).toList) :
    isCapitalDigit c = true := by
  have hdigit : ∀ d < 16, isCapitalDigit (Nat.digitChar d).toUpper = true := by decide
  exact Literal.forall_mem_hex (P := fun c => isCapitalDigit c = true) hdigit width n c h

theorem notMem_hex {c : Char} (h : isCapitalDigit c = false) (width n : Nat) :
    c ∉ (hex width n).toList := by
  intro hmem
  rw [isCapitalDigit_of_mem_hex hmem] at h
  cases h

theorem capitalNumeral?_hex (width n : Nat) : capitalNumeral? (hex width n).toList = some n := by
  have hall : (hex width n).toList.all isCapitalDigit = true :=
    List.all_eq_true.2 fun c hc => isCapitalDigit_of_mem_hex hc
  rw [capitalNumeral?, if_pos hall, Literal.numeral?_hex]

theorem length_hexByte (b : UInt8) : (hexByte b).toList.length = 2 := by
  simp [Literal.toList_hexByte]

/-- Reading a byte undoes showing it. -/
theorem byteToken?_hexByte (b : UInt8) : byteToken? (hexByte b).toList = some b := by
  rw [byteToken?, if_pos (length_hexByte b), hexByte, capitalNumeral?_hex]
  simp

theorem readAddress?_hex (width n : Nat) :
    readAddress? (hex width n).toList = some (some n) := by
  have hblank : (hex width n).toList.all (· == ' ') = false := by
    obtain ⟨c, rest, hcons⟩ := List.exists_cons_of_ne_nil (Literal.hex_ne_nil width n)
    have hne : c ≠ ' ' := by
      rintro rfl
      exact notMem_hex (by decide) width n (hcons ▸ List.mem_cons_self)
    simp [hcons, hne]
  rw [readAddress?, hblank, capitalNumeral?_hex]
  rfl

/-! ## Words -/

theorem words_append_space (a b : List Char) : words (a ++ ' ' :: b) = words a ++ words b := by
  rw [words, List.splitOn_append_cons_self, List.filter_append]
  rfl

theorem words_cons_space (text : List Char) : words (' ' :: text) = words text :=
  words_append_space [] text

theorem words_append_replicate (text : List Char) (n : Nat) :
    words (text ++ List.replicate n ' ') = words text := by
  induction n generalizing text with
  | zero => simp
  | succ n ih =>
    rw [List.replicate_succ, words_append_space, ← List.nil_append (List.replicate n ' '), ih]
    exact List.append_nil _

theorem words_hexByte (b : UInt8) : words (hexByte b).toList = [(hexByte b).toList] := by
  have hspace : ' ' ∉ (hexByte b).toList := notMem_hex (by decide) 2 b.toNat
  have hne : (hexByte b).toList ≠ [] := Literal.hex_ne_nil 2 b.toNat
  rw [words, List.splitOn_eq_singleton hspace]
  simp [hne]

theorem words_hexText (slot : Slot) :
    words slot.hexText.toList = slot.bytes.map fun b => (hexByte b).toList := by
  have hjoin : slot.hexText.toList =
      (hexByte slot.opcode.byte).toList ++ ' ' :: (hexByte slot.operand).toList := by
    simp [Slot.hexText]
  rw [hjoin, words_append_space, words_hexByte, words_hexByte]
  rfl

theorem words_spaced (texts : List (List Char)) : words (spaced texts) = texts.flatMap words := by
  match texts with
  | [] => rfl
  | [text] => simp
  | first :: second :: rest =>
    rw [spaced_cons_cons, words_append_space, words_spaced (second :: rest)]
    rfl

/-! ## The fields of a line -/

namespace Instruction

/-- The bytes of an instruction as the listing shows them. -/
def hexField (instruction : Instruction) : List Char :=
  (padRight 11 (" ".intercalate (instruction.slots.map Slot.hexText))).toList

theorem hexField_eq (instruction : Instruction) :
    ∃ n, instruction.hexField =
      spaced (instruction.slots.map fun slot => slot.hexText.toList) ++ List.replicate n ' ' := by
  refine ⟨11 - (" ".intercalate (instruction.slots.map Slot.hexText)).length, ?_⟩
  simp [hexField, padRight, spaced, String.toList_intercalate, Function.comp_def]

/-- The bytes are read as they are shown. -/
theorem mapM_words_hexField (instruction : Instruction) :
    (words instruction.hexField).mapM byteToken? = some (instruction.slots.flatMap Slot.bytes) := by
  obtain ⟨n, hfield⟩ := instruction.hexField_eq
  have hwords : words instruction.hexField =
      (instruction.slots.flatMap Slot.bytes).map fun b => (hexByte b).toList := by
    rw [hfield, words_append_replicate, words_spaced, List.flatMap_map, List.map_flatMap]
    exact List.flatMap_congr fun slot _ => words_hexText slot
  have hall := List.mapM_pure (m := Option) (l := instruction.slots.flatMap Slot.bytes) (f := id)
  rw [hwords, List.mapM_map, ← List.map_id (instruction.slots.flatMap Slot.bytes)]
  simpa [Function.comp_def, byteToken?_hexByte] using hall

theorem mem_hexField {instruction : Instruction} {c : Char} (h : c ∈ instruction.hexField) :
    c = ' ' ∨ isCapitalDigit c = true := by
  obtain ⟨n, hfield⟩ := instruction.hexField_eq
  rw [hfield] at h
  rcases List.mem_append.1 h with h | h
  · rcases mem_spaced h with hspace | ⟨word, hword, hc⟩
    · exact .inl hspace
    · obtain ⟨slot, -, rfl⟩ := List.mem_map.1 hword
      simp only [Slot.hexText, String.toList_append, List.mem_append] at hc
      rcases hc with (hc | hc) | hc
      · exact .inr (isCapitalDigit_of_mem_hex hc)
      · exact .inl (by simpa using hc)
      · exact .inr (isCapitalDigit_of_mem_hex hc)
  · exact .inl (List.mem_replicate.1 h).2

/-- What stands in the brackets, without colour. -/
def addressField (instruction : Instruction) : List Char :=
  instruction.addressSpan.text.toList

theorem addressField_eq (instruction : Instruction) :
    instruction.addressField =
      match instruction.slot? with
      | some slot => (hex 4 (2 * slot)).toList
      | none => List.replicate 4 ' ' := by
  unfold addressField addressSpan
  cases instruction.slot? with
  | some slot => rfl
  | none => simp [Span.bare]

theorem mem_addressField {instruction : Instruction} {c : Char}
    (h : c ∈ instruction.addressField) : c = ' ' ∨ isCapitalDigit c = true := by
  rw [addressField_eq] at h
  split at h
  · exact .inr (isCapitalDigit_of_mem_hex h)
  · exact .inl (List.mem_replicate.1 h).2

theorem readAddress?_addressField (instruction : Instruction) :
    readAddress? instruction.addressField = some (instruction.slot?.map (2 * ·)) := by
  rw [addressField_eq]
  cases instruction.slot? with
  | some slot => exact readAddress?_hex 4 (2 * slot)
  | none => rfl

end Instruction

/-! ## The bar and the escape sequences -/

theorem beforeBar_append {front : List Char} (h : '|' ∉ front) (rest : List Char) :
    beforeBar (front ++ ' ' :: '|' :: rest) = front := by
  induction front with
  | nil => rfl
  | cons c more ih =>
    obtain ⟨-, hmore⟩ := not_or.1 (mt List.mem_cons.2 h)
    -- what comes next is in the front, or is the space before the bar
    have hhead : (more ++ ' ' :: '|' :: rest).head? ≠ some '|' := by
      cases more with
      | nil => simp
      | cons d _ =>
        have hd : d ≠ '|' := fun hd => hmore (by simp [hd])
        simpa using hd
    rw [List.cons_append, beforeBar, if_neg fun hbar => hhead hbar.2, ih hmore]

theorem unpainted_append {text : List Char} (h : '\x1b' ∉ text) (rest : List Char) :
    unpainted false (text ++ rest) = text ++ unpainted false rest := by
  induction text with
  | nil => rfl
  | cons c more ih =>
    obtain ⟨hc, hmore⟩ := not_or.1 (mt List.mem_cons.2 h)
    rw [List.cons_append, unpainted, if_neg (by decide), if_neg (Ne.symm hc), ih hmore]
    rfl

/-- The first `m` ends an escape sequence. -/
theorem unpainted_inside {text : List Char} (h : 'm' ∉ text) (rest : List Char) :
    unpainted true (text ++ 'm' :: rest) = unpainted false rest := by
  induction text with
  | nil => rfl
  | cons c more ih =>
    obtain ⟨hc, hmore⟩ := not_or.1 (mt List.mem_cons.2 h)
    have hne : (c != 'm') = true := bne_iff_ne.2 (Ne.symm hc)
    rw [List.cons_append, unpainted, if_pos rfl, hne, ih hmore]

theorem toList_escape (code : Nat) :
    (escape code).toList = '\x1b' :: '[' :: (Nat.toDigits 10 code ++ ['m']) := by
  simp [escape, Nat.toList_repr]

theorem notMem_toDigits {c : Char} (h : c.isDigit = false) (code : Nat) :
    c ∉ Nat.toDigits 10 code := by
  intro hmem
  rw [Nat.isDigit_of_mem_toDigits (by decide) (by decide) hmem] at h
  cases h

theorem unpainted_escape (code : Nat) (rest : List Char) :
    unpainted false ((escape code).toList ++ rest) = unpainted false rest := by
  have hm : 'm' ∉ '[' :: Nat.toDigits 10 code := by
    simp [notMem_toDigits (c := 'm') (by decide)]
  have hinside := unpainted_inside hm rest
  rw [toList_escape]
  simpa [unpainted] using hinside

theorem unpainted_escapes (codes : List Nat) (rest : List Char) :
    unpainted false ((String.join (codes.map escape)).toList ++ rest) = unpainted false rest := by
  induction codes with
  | nil => rfl
  | cons code more ih =>
    rw [List.map_cons, String.toList_join, List.flatMap_cons, ← String.toList_join,
      List.append_assoc, unpainted_escape, ih]

theorem bar_notMem_escapes (codes : List Nat) :
    '|' ∉ (String.join (codes.map escape)).toList := by
  have hdigits := notMem_toDigits (c := '|') (by decide)
  simp [String.toList_join, toList_escape, hdigits]

/-- Without its escape sequences, painted text is the text of its spans. -/
theorem unpainted_render {spans : List Span} (h : ∀ span ∈ spans, '\x1b' ∉ span.text.toList) :
    unpainted false (Span.render spans).toList = spans.flatMap fun span => span.text.toList := by
  induction spans with
  | nil => rfl
  | cons span rest ih =>
    obtain ⟨hspan, hrest⟩ := List.forall_mem_cons.1 h
    simp only [Span.render, String.toList_append, List.append_assoc]
    rw [unpainted_escapes, unpainted_append hspan, unpainted_escapes, ih hrest, List.flatMap_cons]

theorem bar_notMem_render {spans : List Span} (h : ∀ span ∈ spans, '|' ∉ span.text.toList) :
    '|' ∉ (Span.render spans).toList := by
  induction spans with
  | nil => simp [Span.render]
  | cons span rest ih =>
    obtain ⟨hspan, hrest⟩ := List.forall_mem_cons.1 h
    simp only [Span.render, String.toList_append, List.mem_append, not_or]
    exact ⟨⟨⟨bar_notMem_escapes _, hspan⟩, bar_notMem_escapes _⟩, ih hrest⟩

/-! ## The row of an instruction -/

namespace Instruction

/-- The part of a line in front of the bar. -/
def frontSpans (instruction : Instruction) : List Span :=
  [.bare "[", instruction.addressSpan, .bare ("] " ++ String.ofList instruction.hexField)]

theorem render_listingLine (instruction : Instruction) :
    ∃ rest, (Span.render instruction.listingLine).toList =
      (Span.render instruction.frontSpans).toList ++ ' ' :: '|' :: rest := by
  -- the third span has no style, so its text can be cut at the bar
  let behind : String := " " ++ padLeft 4 ' ' instruction.line.number.repr ++ ": "
    ++ padRight 40 instruction.statement.painted ++ " "
  let decoded : Span := ⟨[.dim], "; ".intercalate (instruction.slots.map Slot.disassembly)⟩
  refine ⟨behind.toList ++ (Span.render [decoded]).toList, ?_⟩
  simp [behind, decoded, listingLine, frontSpans, hexField, Span.render, Span.bare, Span.closing,
    String.join]

/-- Nothing but digits, spaces and brackets stands in front of the bar. -/
theorem notMem_frontSpans (instruction : Instruction) {c : Char}
    (hdigit : isCapitalDigit c = false) (hc : c ∉ [' ', '[', ']']) :
    ∀ span ∈ instruction.frontSpans, c ∉ span.text.toList := by
  have hother : ∀ d, d = ' ' ∨ isCapitalDigit d = true → c ≠ d := by
    rintro d (rfl | hd) rfl
    · exact hc (by simp)
    · rw [hd] at hdigit
      cases hdigit
  simp only [List.mem_cons, List.not_mem_nil, or_false, not_or] at hc
  simp only [frontSpans, List.forall_mem_cons, Span.bare, String.toList_append, List.mem_append,
    String.toList_ofList, not_or]
  refine ⟨by simpa using hc.2.1, ?_, ⟨?_, ?_⟩, by simp⟩
  · exact fun hmem => hother c (mem_addressField hmem) rfl
  · simpa using ⟨hc.2.2, hc.1⟩
  · exact fun hmem => hother c (mem_hexField hmem) rfl

theorem unpainted_beforeBar_listingLine (instruction : Instruction) :
    unpainted false (beforeBar (Span.render instruction.listingLine).toList) =
      '[' :: (instruction.addressField ++ ']' :: ' ' :: instruction.hexField) := by
  obtain ⟨rest, hline⟩ := instruction.render_listingLine
  have hbar := bar_notMem_render (instruction.notMem_frontSpans (c := '|') (by decide) (by decide))
  have hescape := instruction.notMem_frontSpans (c := '\x1b') (by decide) (by decide)
  rw [hline, beforeBar_append hbar, unpainted_render hescape]
  simp [frontSpans, Span.bare, addressField]

end Instruction

theorem ListingRow.ofFront?_brackets {field : List Char} (h : ']' ∉ field) (rest : List Char) :
    ListingRow.ofFront? ('[' :: (field ++ ']' :: rest)) = do
      let address? ← readAddress? field
      let bytes ← (words rest).mapM byteToken?
      return ⟨address?, bytes⟩ := by
  have hfield : ∀ c ∈ field, (c != ']') = true := by
    intro c hc
    rw [bne_iff_ne]
    rintro rfl
    exact h hc
  have hstop : (']' != ']') = false := by decide
  rw [ListingRow.ofFront?, List.takeWhile_append_of_pos hfield,
    List.dropWhile_append_of_pos hfield, List.takeWhile_cons, List.dropWhile_cons, hstop]
  simp

/-- Every line of a listing is read as the row of its instruction. -/
theorem Instruction.ofLine?_listingLine (instruction : Instruction) :
    ListingRow.ofLine? (Span.render instruction.listingLine) = some instruction.listingRow := by
  have hbracket : ']' ∉ instruction.addressField := by
    intro hmem
    rcases mem_addressField hmem with hspace | hdigit
    · exact absurd hspace (by decide)
    · exact absurd hdigit (by decide)
  rw [ListingRow.ofLine?, instruction.unpainted_beforeBar_listingLine,
    ListingRow.ofFront?_brackets hbracket, words_cons_space, instruction.readAddress?_addressField,
    instruction.mapM_words_hexField]
  rfl

/-! ## The image behind the listing -/

/-- What a line shows of an instruction agrees with the image. -/
structure ListingRow.Shows (row : ListingRow) (instruction : Instruction) (image : Image) :
    Prop where
  /-- The address is blank for constants, and for them alone. -/
  address?_eq_none_iff : row.address? = none ↔
    ∃ name value, instruction.statement = .constant name value
  bytes_eq_nil_iff : row.bytes = [] ↔ row.address? = none
  /-- The image holds the bytes from the address on. -/
  getElem?_image : ∀ address, row.address? = some address → ∀ (j : Nat) b,
    row.bytes[j]? = some b → image.bytes[address + j]? = some b

theorem Program.bytes_eq_flatMap (program : Program) :
    program.bytes = program.instructions.flatMap fun i => i.slots.flatMap Slot.bytes :=
  List.flatMap_assoc

theorem Program.getElem?_image {program : Program} {image : Image}
    (h : program.image = .ok image) {k : Nat} {b : UInt8} (hk : program.bytes[k]? = some b) :
    image.bytes[k]? = some b := by
  have hle := Image.exists_ofBytes_iff.1 ⟨image, h⟩
  have hlt := (List.getElem?_eq_some_iff.1 hk).1
  rw [(Image.ofBytes_of_le hle).1 h, List.getElem?_append_left hlt, hk]

section
variable {source : List SourceStatement} {program : Program} {i : Nat} {instruction : Instruction}

/-- The bytes of an instruction stand from twice its slot on. -/
theorem Assembled.getElem?_bytes (h : Assembled source program) {start j : Nat} {b : UInt8}
    (hi : program.instructions[i]? = some instruction) (hstart : instruction.slot? = some start)
    (hj : (instruction.slots.flatMap Slot.bytes)[j]? = some b) :
    program.bytes[2 * start + j]? = some b := by
  have hbefore : ((program.instructions.take i).flatMap
      fun i => i.slots.flatMap Slot.bytes).length = 2 * start := by
    rw [← List.flatMap_assoc, length_flatMap_bytes, h.length_flatMap_slots, h.slotAt_eq hi hstart]
  have hget := getElem?_flatMap (fun i : Instruction => i.slots.flatMap Slot.bytes) hi
    (List.getElem?_eq_some_iff.1 hj).1
  rw [hbefore, hj] at hget
  rw [Program.bytes_eq_flatMap, hget]

theorem Assembled.shows_listingRow (h : Assembled source program) {image : Image}
    (himage : program.image = .ok image) (hi : program.instructions[i]? = some instruction) :
    instruction.listingRow.Shows instruction image := by
  have hnone : instruction.listingRow.address? = none ↔ instruction.statement.width = 0 := by
    rw [Instruction.listingRow, Option.map_eq_none_iff, h.slot?_eq hi]
    simp
  constructor
  case address?_eq_none_iff => rw [hnone, Statement.width_eq_zero_iff]
  case bytes_eq_nil_iff =>
    have hlen := length_flatMap_bytes instruction.slots
    rw [h.length_slots (List.mem_of_getElem? hi), Instruction.width] at hlen
    rw [hnone, ← List.length_eq_zero_iff, Instruction.listingRow, hlen]
    omega
  case getElem?_image =>
    intro address haddress j b hj
    obtain ⟨start, hstart, rfl⟩ := Option.map_eq_some_iff.1 haddress
    exact Program.getElem?_image himage (h.getElem?_bytes hi hstart hj)

end

/-- **A listing shows what is in the image.** Every line has an address and bytes that the image
holds there, or neither of them for a constant; the bytes of all lines are those of the program. -/
theorem listing_shows_image {source : String} {program : Program} {image : Image}
    (h : assemble source = .ok program) (himage : program.image = .ok image) :
    (∀ instruction ∈ program.instructions, ∃ row,
      ListingRow.ofLine? (Span.render instruction.listingLine) = some row ∧
        row.Shows instruction image) ∧
    (program.instructions.filterMap fun instruction =>
      ListingRow.ofLine? (Span.render instruction.listingLine)).flatMap ListingRow.bytes =
        program.bytes := by
  obtain ⟨statements, -, hprogram⟩ := assemble_eq_ok_iff.1 h
  constructor
  · intro instruction hmem
    obtain ⟨i, hi⟩ := List.mem_iff_getElem?.1 hmem
    exact ⟨_, instruction.ofLine?_listingLine, hprogram.shows_listingRow himage hi⟩
  · simp only [Instruction.ofLine?_listingLine]
    rw [List.filterMap_eq_map', List.flatMap_map, Program.bytes_eq_flatMap]
    rfl

/-- The line of a call shows both of its slots. -/
theorem listing_shows_call :
    ∃ program image call row,
      assemble "$N 5\nf\x7b\n  LDAV $N\n\x7d\n  RUN f\n" = .ok program ∧
      program.image = .ok image ∧ program.instructions[4]? = some call ∧
      ListingRow.ofLine? (Span.render call.listingLine) = some row ∧
      row = ⟨some 6, [26, 5, 12, 0]⟩ ∧ row.Shows call image ∧ image.bytes[8]? = some 12 := by
  have hok : (assemble "$N 5\nf\x7b\n  LDAV $N\n\x7d\n  RUN f\n").map
      (fun program => (program.bytes.length, program.instructions[4]?.map fun call =>
        ListingRow.ofLine? (Span.render call.listingLine))) =
      .ok (10, some (some ⟨some 6, [26, 5, 12, 0]⟩)) := by decide +kernel
  obtain ⟨program, h, heq⟩ := map_eq_ok_iff.1 hok
  obtain ⟨hlen, hcall⟩ := Prod.mk.inj heq
  obtain ⟨image, himage⟩ : ∃ image, program.image = .ok image :=
    Image.exists_ofBytes_iff.2 (by rw [hlen]; decide)
  obtain ⟨call, hget, hread⟩ := Option.map_eq_some_iff.1 hcall
  obtain ⟨row, hrow, hshows⟩ := (listing_shows_image h himage).1 call (List.mem_of_getElem? hget)
  obtain rfl := Option.some.inj (hrow.symm.trans hread)
  exact ⟨program, image, call, _, h, himage, hget, hrow, rfl, hshows,
    hshows.getElem?_image 6 rfl 2 12 rfl⟩

end Breadboard
