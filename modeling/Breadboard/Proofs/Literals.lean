import Breadboard.Proofs.Codes
import Breadboard.Proofs.Resolution
import Mathlib.Data.Nat.Digits.Defs

/-!
# What a literal denotes

The reader of literals goes through the digits from the left and keeps a running value. What it
computes is said here without it: a numeral is a row of digits and denotes the number that has these
digits in its base (`IsNumeral`), a literal is a numeral behind a sign or a mark of its base
(`Denotes`), and a byte is the value of a literal between -128 and 255 modulo 256. The reader finds
the byte of every such text and refuses every other text (`settled_literal`).

The running value has no bound. A reader that keeps it in a signed word of sixteen bits, and gives up
when a step leaves the word, finds the same bytes, since a value that has left the word does not come
back (`foldlM_wordStep?`).
-/

namespace Breadboard

namespace Literal

/-! ## Digits -/

/-- A character is the digit `d` of a base; a letter may have either case. -/
def IsDigit (base : Nat) (c : Char) (d : Nat) : Prop :=
  d < base ∧ (c = Nat.digitChar d ∨ c = (Nat.digitChar d).toUpper)

instance (base : Nat) (c : Char) (d : Nat) : Decidable (IsDigit base c d) :=
  inferInstanceAs (Decidable (_ ∧ _))

theorem isDigit_of_digitValue?_ofNat :
    ∀ n < 103, (digitValue? 16 (Char.ofNat n)).all (fun d => IsDigit 16 (Char.ofNat n) d) := by
  decide

theorem digitValue?_digitChar : ∀ d < 16, digitValue? 16 (Nat.digitChar d) = some d := by
  decide

theorem toNat_lt_of_digitValue? {base : Nat} {c : Char} {d : Nat}
    (h : digitValue? base c = some d) : c.toNat < 103 := by
  have hle : ∀ last : Char, c ≤ last → last.toNat < 103 → c.toNat < 103 := by
    intro last hlast hlt
    have hnat : c.toNat ≤ last.toNat := hlast
    omega
  unfold digitValue? at h
  dsimp only at h
  split at h
  · rename_i hrange
    exact hle '9' hrange.2 (by decide)
  · split at h
    · rename_i hrange
      exact hle 'f' hrange.2 (by decide)
    · split at h
      · rename_i hrange
        exact hle 'F' hrange.2 (by decide)
      · cases h

theorem digitValue?_sixteen_eq_some_iff {c : Char} {d : Nat} :
    digitValue? 16 c = some d ↔ IsDigit 16 c d := by
  constructor
  · intro h
    have hdigit := isDigit_of_digitValue?_ofNat c.toNat (toNat_lt_of_digitValue? h)
    rw [Char.ofNat_toNat, h] at hdigit
    simpa using hdigit
  · rintro ⟨hlt, rfl | rfl⟩
    · exact digitValue?_digitChar d hlt
    · exact digitValue?_upper d hlt

/-- Digits of a smaller base are among those of base sixteen. -/
theorem digitValue?_eq_filter {base : Nat} (hbase : base ≤ 16) (c : Char) :
    digitValue? base c = (digitValue? 16 c).filter (· < base) := by
  simp only [digitValue?, Option.filter_filter]
  congr 1
  funext d
  by_cases hd : d < base
  · simp [hd, Nat.lt_of_lt_of_le hd hbase]
  · simp [hd]

theorem digitValue?_eq_some_iff {base : Nat} (hbase : base ≤ 16) {c : Char} {d : Nat} :
    digitValue? base c = some d ↔ IsDigit base c d := by
  rw [digitValue?_eq_filter hbase, Option.filter_eq_some_iff, digitValue?_sixteen_eq_some_iff]
  simp only [IsDigit, decide_eq_true_eq]
  constructor
  · rintro ⟨⟨-, hc⟩, hd⟩
    exact ⟨hd, hc⟩
  · rintro ⟨hd, hc⟩
    exact ⟨⟨by omega, hc⟩, hd⟩

/-! ## Numerals -/

/-- A row of digits denotes the number that has these digits, the first counting most. -/
structure IsNumeral (base : Nat) (text : List Char) (n : Nat) : Prop where
  ne_nil : text ≠ []
  exists_digits : ∃ digits, List.Forall₂ (IsDigit base) text digits ∧
    Nat.ofDigits base digits.reverse = n

theorem readDigits_cons (base start : Nat) (c : Char) (rest : List Char) :
    readDigits base start (c :: rest) =
      (digitValue? base c).bind fun d => readDigits base (base * start + d) rest := by
  simp [readDigits, List.foldlM_cons, Option.bind_map, bind]

/-- The running value of a reader is that of the digits it has seen. -/
theorem readDigits_eq_some_iff {base : Nat} (hbase : base ≤ 16) {text : List Char} {start n : Nat} :
    readDigits base start text = some n ↔
      ∃ digits, List.Forall₂ (IsDigit base) text digits ∧
        digits.foldl (fun value d => base * value + d) start = n := by
  induction text generalizing start with
  | nil => simp [readDigits, eq_comm]
  | cons c rest ih =>
    simp only [readDigits_cons, Option.bind_eq_some_iff, digitValue?_eq_some_iff hbase, ih,
      List.forall₂_cons_left_iff]
    constructor
    · rintro ⟨d, hd, digits, hdigits, rfl⟩
      exact ⟨d :: digits, ⟨d, digits, hd, hdigits, rfl⟩, rfl⟩
    · rintro ⟨_, ⟨d, digits, hd, hdigits, rfl⟩, rfl⟩
      exact ⟨d, hd, digits, hdigits, rfl⟩

theorem ofDigits_reverse (base : Nat) (digits : List Nat) :
    Nat.ofDigits base digits.reverse = digits.foldl (fun value d => base * value + d) 0 := by
  rw [Nat.ofDigits_eq_foldr, List.foldr_reverse]
  simp [Nat.add_comm]

theorem numeral?_eq_some_iff {base : Nat} (hbase : base ≤ 16) {text : List Char} {n : Nat} :
    numeral? base text = some n ↔ IsNumeral base text n := by
  by_cases hne : text = []
  · subst hne
    exact ⟨nofun, fun h => absurd rfl h.ne_nil⟩
  · rw [numeral?_eq_readDigits hne, readDigits_eq_some_iff hbase]
    simp only [← ofDigits_reverse]
    exact ⟨fun h => ⟨hne, h⟩, fun h => h.exists_digits⟩

/-! ## Literals -/

/-- What a literal denotes: a decimal number with at most one sign, or a binary or hexadecimal number
without one. -/
inductive Denotes : List Char → Int → Prop
  | decimal {digits : List Char} {n : Nat} (h : IsNumeral 10 digits n) : Denotes digits n
  | plus {digits : List Char} {n : Nat} (h : IsNumeral 10 digits n) : Denotes ('+' :: digits) n
  | minus {digits : List Char} {n : Nat} (h : IsNumeral 10 digits n) : Denotes ('-' :: digits) (-n)
  | binary {digits : List Char} {n : Nat} (h : IsNumeral 2 digits n) :
      Denotes ('0' :: 'b' :: digits) n
  | hexadecimal {digits : List Char} {n : Nat} (h : IsNumeral 16 digits n) :
      Denotes ('0' :: 'x' :: digits) n

/-- A row of decimal digits starts with no sign, and with no mark of a base. -/
theorem integer?_of_isNumeral {text : List Char} {n : Nat} (h : IsNumeral 10 text n) :
    integer? text = (numeral? 10 text).map Int.ofNat := by
  obtain ⟨digits, hdigits, -⟩ := h.exists_digits
  have hnot : ∀ c ∈ ['+', '-', 'b', 'x'], ∀ d, ¬ IsDigit 10 c d := by
    intro c hc d hd
    have hsome := (digitValue?_eq_some_iff (by decide)).2 hd
    have hnone : digitValue? 10 c = none := by
      simp only [List.mem_cons, List.not_mem_nil, or_false] at hc
      rcases hc with rfl | rfl | rfl | rfl <;> decide
    rw [hnone] at hsome
    cases hsome
  unfold integer?
  split
  · -- the second character is no decimal digit
    simp only [List.forall₂_cons_left_iff] at hdigits
    obtain ⟨_, _, -, ⟨d, _, hd, -, -⟩, -⟩ := hdigits
    exact absurd hd (hnot _ (by simp) d)
  · simp only [List.forall₂_cons_left_iff] at hdigits
    obtain ⟨_, _, -, ⟨d, _, hd, -, -⟩, -⟩ := hdigits
    exact absurd hd (hnot _ (by simp) d)
  · obtain ⟨d, _, hd, -, -⟩ := List.forall₂_cons_left_iff.1 hdigits
    exact absurd hd (hnot _ (by simp) d)
  · obtain ⟨d, _, hd, -, -⟩ := List.forall₂_cons_left_iff.1 hdigits
    exact absurd hd (hnot _ (by simp) d)
  · rfl

theorem integer?_eq_some_iff {text : List Char} {v : Int} :
    integer? text = some v ↔ Denotes text v := by
  constructor
  · intro h
    unfold integer? at h
    -- one case for each mark of a base, each sign, and a number without any of them
    split at h <;> obtain ⟨n, hn, rfl⟩ := Option.map_eq_some_iff.1 h
    · exact .binary ((numeral?_eq_some_iff (by decide)).1 hn)
    · exact .hexadecimal ((numeral?_eq_some_iff (by decide)).1 hn)
    · exact .plus ((numeral?_eq_some_iff (by decide)).1 hn)
    · exact .minus ((numeral?_eq_some_iff (by decide)).1 hn)
    · exact .decimal ((numeral?_eq_some_iff (by decide)).1 hn)
  · intro h
    cases h with
    | decimal h =>
      rw [integer?_of_isNumeral h, (numeral?_eq_some_iff (by decide)).2 h]
      rfl
    | plus h =>
      rw [integer?, (numeral?_eq_some_iff (by decide)).2 h]
      rfl
    | minus h =>
      rw [integer?, (numeral?_eq_some_iff (by decide)).2 h]
      rfl
    | binary h =>
      rw [integer?, (numeral?_eq_some_iff (by decide)).2 h]
      rfl
    | hexadecimal h =>
      rw [integer?, (numeral?_eq_some_iff (by decide)).2 h]
      rfl

/-- The byte of a value is the value modulo 256. -/
theorem eq_ofInt_iff {b : UInt8} {v : Int} : b = UInt8.ofInt v ↔ (b.toNat : Int) = v % 256 := by
  have hlt := b.toNat_lt
  rw [← UInt8.toNat_inj, UInt8.ofInt, UInt8.toNat_ofNat']
  omega

/-- A text denotes a byte when it denotes a value between -128 and 255. -/
theorem byte?_eq_some_iff {text : String} {b : UInt8} :
    byte? text = some b ↔
      ∃ v, Denotes text.toList v ∧ -128 ≤ v ∧ v ≤ 255 ∧ (b.toNat : Int) = v % 256 := by
  simp only [byte?, Option.bind_eq_some_iff, integer?_eq_some_iff]
  refine exists_congr fun v => and_congr_right fun _ => ?_
  rw [← eq_ofInt_iff]
  by_cases hrange : -128 ≤ v ∧ v ≤ 255
  · simp [hrange, eq_comm]
  · simp only [hrange, if_false, reduceCtorEq, false_iff]
    exact fun h => hrange ⟨h.1, h.2.1⟩

/-! ## Words of sixteen bits -/

/-- A value, if it fits in a signed word of sixteen bits. -/
def inWord? (v : Int) : Option Int :=
  if -32768 ≤ v ∧ v ≤ 32767 then some v else none

/-- One more digit behind a value that is kept in a word, for a number with this sign. Both the
product and the sum have to fit. -/
def wordStep? (base : Nat) (sign value : Int) (c : Char) : Option Int := do
  let d ← digitValue? base c
  let shifted ← inWord? (base * value)
  inWord? (shifted + sign * d)

/-- The value of one or more digits that is kept in a word all the way. -/
def word? (base : Nat) (sign : Int) (digits : List Char) : Option Int :=
  if digits.isEmpty then none else digits.foldlM (wordStep? base sign) 0

/-- The value of a literal that is kept in a word all the way. -/
def wordInteger? : List Char → Option Int
  | '0' :: 'b' :: digits => word? 2 1 digits
  | '0' :: 'x' :: digits => word? 16 1 digits
  | '+' :: digits => word? 10 1 digits
  | '-' :: digits => word? 10 (-1) digits
  | digits => word? 10 1 digits

theorem inWord?_eq_some_iff {v w : Int} : inWord? v = some w ↔ (-32768 ≤ v ∧ v ≤ 32767) ∧ v = w := by
  unfold inWord?
  split <;> simp [*]

theorem inWord?_eq_none_iff {v : Int} : inWord? v = none ↔ ¬ (-32768 ≤ v ∧ v ≤ 32767) := by
  unfold inWord?
  split <;> simp [*]

/-- A step fits in the word when its sum does: the product lies between zero and the sum. -/
theorem wordStep?_eq {base : Nat} {sign : Int} (hsign : sign = 1 ∨ sign = -1) (m : Nat) (c : Char) :
    wordStep? base sign (sign * m) c =
      (digitValue? base c).bind fun d => inWord? (sign * (base * m + d : Nat)) := by
  unfold wordStep?
  cases digitValue? base c with
  | none => rfl
  | some d =>
    have hsum : (base : Int) * (sign * m) + sign * d = sign * (base * m + d : Nat) := by
      push_cast
      ring
    have hnat : 0 ≤ ((base * m : Nat) : Int) := Int.natCast_nonneg _
    have hproduct : (base : Int) * (sign * m) = sign * (base * m : Nat) := by
      push_cast
      ring
    simp only [bind, Option.bind_some]
    cases hshift : inWord? (base * (sign * m)) with
    | some shifted =>
      obtain ⟨-, rfl⟩ := inWord?_eq_some_iff.1 hshift
      simp only [Option.bind_some, hsum]
    | none =>
      have hout := inWord?_eq_none_iff.1 hshift
      have hsumOut : inWord? (sign * (base * m + d : Nat)) = none := by
        rw [inWord?_eq_none_iff]
        rw [hproduct] at hout
        rcases hsign with rfl | rfl
        · push_cast at hout hnat ⊢
          omega
        · push_cast at hout hnat ⊢
          omega
      rw [hsumOut]
      rfl

/-- Further digits make no value smaller. -/
theorem le_of_readDigits {base : Nat} (hbase : 0 < base) {text : List Char} {start n : Nat}
    (h : readDigits base start text = some n) : start ≤ n := by
  induction text generalizing start with
  | nil =>
    obtain rfl : start = n := by simpa [readDigits] using h
    exact Nat.le_refl start
  | cons c rest ih =>
    rw [readDigits_cons] at h
    obtain ⟨d, -, hrest⟩ := Option.bind_eq_some_iff.1 h
    calc start ≤ base * start := Nat.le_mul_of_pos_left start hbase
      _ ≤ base * start + d := Nat.le_add_right _ d
      _ ≤ n := ih hrest

/-- A value that is kept in a word fits in it at the end, and one that leaves it does not come back. -/
theorem foldlM_wordStep? {base : Nat} {sign : Int} (hbase : 0 < base)
    (hsign : sign = 1 ∨ sign = -1) {text : List Char} {m : Nat}
    (hm : inWord? (sign * m) = some (sign * m)) :
    text.foldlM (wordStep? base sign) (sign * m) =
      (readDigits base m text).bind fun n => inWord? (sign * n) := by
  induction text generalizing m with
  | nil => simpa [readDigits] using hm.symm
  | cons c rest ih =>
    rw [List.foldlM_cons, wordStep?_eq hsign, readDigits_cons]
    cases digitValue? base c with
    | none => rfl
    | some d =>
      simp only [bind, Option.bind_some]
      cases hnext : inWord? (sign * (base * m + d : Nat)) with
      | some w =>
        obtain ⟨-, rfl⟩ := inWord?_eq_some_iff.1 hnext
        exact ih hnext
      | none =>
        have hout : ∀ n, readDigits base (base * m + d) rest = some n →
            inWord? (sign * n) = none := by
          intro n hn
          have hle := le_of_readDigits hbase hn
          rw [inWord?_eq_none_iff] at hnext ⊢
          rcases hsign with rfl | rfl <;> omega
        cases hrest : readDigits base (base * m + d) rest with
        | none => rfl
        | some n => simp [hout n hrest]

theorem word?_eq {base : Nat} {sign : Int} (hbase : 0 < base) (hsign : sign = 1 ∨ sign = -1)
    (text : List Char) :
    word? base sign text = (numeral? base text).bind fun n => inWord? (sign * n) := by
  by_cases hne : text = []
  · subst hne
    rfl
  · have hfold : text.foldlM (wordStep? base sign) (sign * (0 : Nat)) =
        (readDigits base 0 text).bind fun n => inWord? (sign * n) :=
      foldlM_wordStep? hbase hsign (by simp [inWord?])
    rw [numeral?_eq_readDigits hne, ← hfold]
    simp [word?, hne]

/-- A literal that is read in a word has its value, if that fits. -/
theorem wordInteger?_eq (text : List Char) : wordInteger? text = (integer? text).bind inWord? := by
  have hplus : ∀ base : Nat, 0 < base → ∀ digits : List Char,
      word? base 1 digits = ((numeral? base digits).map Int.ofNat).bind inWord? := by
    intro base hbase digits
    rw [word?_eq hbase (Or.inl rfl), Option.bind_map]
    simp
  have hminus : ∀ digits : List Char,
      word? 10 (-1) digits = ((numeral? 10 digits).map (-Int.ofNat ·)).bind inWord? := by
    intro digits
    rw [word?_eq (by decide) (Or.inr rfl), Option.bind_map]
    simp
  fun_cases integer? text with
  | case1 digits => exact hplus 2 (by decide) digits
  | case2 digits => exact hplus 16 (by decide) digits
  | case3 digits => exact hplus 10 (by decide) digits
  | case4 digits => exact hminus digits
  | case5 text _ _ _ _ =>
    rw [← hplus 10 (by decide)]
    simp_all [wordInteger?]

/-- Nothing is lost in a word: a value between -128 and 255 fits in it. -/
theorem byte?_eq_of_word (text : String) :
    byte? text = (wordInteger? text.toList).bind fun v =>
      if -128 ≤ v ∧ v ≤ 255 then some (UInt8.ofInt v) else none := by
  rw [wordInteger?_eq, Option.bind_assoc, byte?]
  congr 1
  funext v
  by_cases hword : -32768 ≤ v ∧ v ≤ 32767
  · simp [inWord?, hword]
  · have hrange : ¬ (-128 ≤ v ∧ v ≤ 255) := by omega
    simp [inWord?, hword, hrange]

/-! ## Where literals are read -/

/-- The byte of a literal, or the fault that shows it. -/
def read (text : String) : Except Fault UInt8 :=
  (byte? text).elim (.error (.badLiteral text)) .ok

theorem read_eq_ok_iff {text : String} {b : UInt8} : read text = .ok b ↔ byte? text = some b := by
  unfold read
  cases byte? text <;> simp

theorem read_of_byte?_eq_none {text : String} (h : byte? text = none) :
    read text = .error (.badLiteral text) := by
  simp [read, h]

end Literal

/-- The value of a constant is read as a literal. -/
theorem Statement.readConstant_eq {name : List Char} {text : String} (hname : isName name)
    (hspace : ' ' ∉ text.toList) :
    Statement.readConstant (name ++ ' ' :: text.toList) =
      (Literal.read text).map (.constant (String.ofList name)) := by
  have hsplit := splitOn_pair
    ((isWord_of_isName hname).notMem_of_isBlank Text.isBlank_space) hspace
  simp only [Statement.readConstant, hsplit, hname, if_true, String.ofList_toList, Literal.read]
  cases Literal.byte? text <;> rfl

/-- An operand that does not start with `$` is read as a literal. -/
theorem Symbols.value_eq_read (symbols : Symbols) {text : String}
    (h : text.toList.head? ≠ some '$') :
    symbols.value text = (Literal.read text).map .byte := by
  rw [Symbols.value_of_head?_ne h, Literal.read]
  cases Literal.byte? text <;> rfl

/-- What becomes of a text where a literal is expected. -/
structure Literal.Settled (text : String) : Prop where
  /-- A byte is read exactly from a literal with a value between -128 and 255, and is this value
  modulo 256. -/
  ok_iff : ∀ b, Literal.read text = .ok b ↔
    ∃ v, Literal.Denotes text.toList v ∧ -128 ≤ v ∧ v ≤ 255 ∧ (b.toNat : Int) = v % 256
  /-- Any other text is refused, and shown as it is. -/
  error_of_not : (¬ ∃ v, Literal.Denotes text.toList v ∧ -128 ≤ v ∧ v ≤ 255) →
    Literal.read text = .error (.badLiteral text)
  /-- The same holds with a value that is kept in a signed word of sixteen bits, where a step that
  leaves the word ends the reading. -/
  word : Literal.byte? text = (Literal.wordInteger? text.toList).bind fun v =>
    if -128 ≤ v ∧ v ≤ 255 then some (UInt8.ofInt v) else none
  /-- Constants and operands are read in this way. -/
  constant : ∀ name, isName name → ' ' ∉ text.toList →
    Statement.readConstant (name ++ ' ' :: text.toList) =
      (Literal.read text).map (.constant (String.ofList name))
  operand : ∀ symbols : Symbols, text.toList.head? ≠ some '$' →
    symbols.value text = (Literal.read text).map .byte

/-- **Literals.** Every text that denotes a value between -128 and 255 is read as this value modulo
256, and every other text is refused. -/
theorem settled_literal (text : String) : Literal.Settled text := by
  constructor
  case ok_iff =>
    intro b
    rw [Literal.read_eq_ok_iff, Literal.byte?_eq_some_iff]
  case error_of_not =>
    intro hnot
    apply Literal.read_of_byte?_eq_none
    rw [Option.eq_none_iff_forall_ne_some]
    intro b hb
    obtain ⟨v, hv, hmin, hmax, -⟩ := Literal.byte?_eq_some_iff.1 hb
    exact hnot ⟨v, hv, hmin, hmax⟩
  case word => exact Literal.byte?_eq_of_word text
  case constant => exact fun name hname hspace => Statement.readConstant_eq hname hspace
  case operand => exact fun symbols hhead => symbols.value_eq_read hhead

example :
    ["-128", "+0007", "0xfF", "0b0000000011"].map Literal.byte? =
      [some 128, some 7, some 255, some 3] ∧
    ["-129", "99999999", "0x-1", "+", "0b", "٣"].map Literal.byte? = List.replicate 6 none := by
  decide +kernel

end Breadboard
