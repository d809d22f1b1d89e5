import ConfigBinding.Proofs.Reading

/-!
# Numbers as they are read and written

A number is read up to the first character that cannot take it further, so it reads the same in
front of anything that starts with another character. Integers read back from their digits. For a
floating point number it is enough that its text read alone gives it back.

Results:
1. `takeNumeral_chars`: reading a number takes its characters from the start of the text.
2. `lexes_int`, `lexes_toText`: numbers as they are written read as themselves.
-/

namespace ConfigBinding

namespace Lexer

/-! ## Numbers -/

/-- The characters that may take a number further. -/
def inNumber (c : Char) : Bool := isNameChar c || c == '.' || c == '+' || c == '-'

section

variable {c : Char}

theorem isNameChar_of_isDigit (digit : c.isDigit = true) : isNameChar c = true := by
  simp [isNameChar, Char.isAlphanum, digit]

theorem isDigitChar_of_isDigit (digit : c.isDigit = true) : isDigitChar c = true := by
  simp [isDigitChar, digit]

theorem inNumber_of_isDigitChar (digit : isDigitChar c = true) : inNumber c = true := by
  simp only [isDigitChar, Bool.or_eq_true] at digit
  rcases digit with digit | same
  · simp [inNumber, isNameChar_of_isDigit digit]
  · simp [inNumber, isNameChar, same]

theorem isNameStart_of_isDigit (digit : c.isDigit = true) : isNameStart c = false := by
  cases start : isNameStart c with
  | false => rfl
  | true =>
    simp only [Char.isDigit, Bool.and_eq_true, decide_eq_true_eq, UInt32.le_iff_toNat_le,
      ge_iff_le] at digit
    unfold isNameStart Char.isAlpha Char.isUpper Char.isLower at start
    simp only [Bool.or_eq_true, Bool.and_eq_true, decide_eq_true_eq, UInt32.le_iff_toNat_le,
      ge_iff_le, beq_iff_eq] at start
    change 48 ≤ c.toNat ∧ c.toNat ≤ 57 at digit
    change ((65 ≤ c.toNat ∧ c.toNat ≤ 90) ∨ (97 ≤ c.toNat ∧ c.toNat ≤ 122)) ∨ c = '_' at start
    rcases start with (upper | lower) | rfl
    · omega
    · omega
    · exact absurd digit (by decide)

/-- A digit or a sign opens a number, and nothing else opens one. -/
theorem scan_number (opens : c.isDigit = true ∨ c = '-') (cs : List Char) :
    scan c cs = scanNumber c cs := by
  rcases opens with digit | rfl
  · have apart : ∀ d : Char, d.isDigit = false → c ≠ d := by
      intro d other same
      rw [same, other] at digit
      cases digit
    have notBlank : isBlank c = false := by
      simp only [isBlank, Bool.or_eq_false_iff, beq_eq_false_iff_ne]
      exact ⟨⟨⟨⟨apart ' ' rfl, apart '\t' rfl⟩, apart '\r' rfl⟩, apart '\n' rfl⟩, apart '\x0c' rfl⟩
    unfold scan
    rw [if_neg (by rw [notBlank]; exact Bool.false_ne_true), if_neg (apart '#' rfl),
      if_neg (by rw [isNameStart_of_isDigit digit]; exact Bool.false_ne_true),
      if_neg (not_or.mpr ⟨apart '\x27' rfl, apart '\x22' rfl⟩), if_pos (.inl digit)]
  · rfl

end

/-- What the characters after the sign are as a number. -/
def takeUnsigned (negative : Bool) : List Char → Option (Numeral × List Char)
  | [] => none
  | c :: cs =>
    if c.isDigit then
      let fraction := takeFraction (cs.dropWhile isDigitChar)
      let exponent := takeExponent fraction.2
      some (⟨negative, c :: cs.takeWhile isDigitChar, fraction.1, exponent.1⟩, exponent.2)
    else none

theorem takeNumeral_minus (cs : List Char) : takeNumeral ('-' :: cs) = takeUnsigned true cs := by
  cases cs <;> rfl

theorem takeNumeral_digit {c : Char} (unsigned : c ≠ '-') (cs : List Char) :
    takeNumeral (c :: cs) = takeUnsigned false (c :: cs) := by
  unfold takeNumeral
  split
  rename_i start
  split at start
  · rename_i same
    cases same
    exact absurd rfl unsigned
  · cases start
    rfl

section

variable {rest : List Char}

theorem takeExponent_append (stops : Stops inNumber rest) (cs : List Char) :
    takeExponent (cs ++ rest) = ((takeExponent cs).1, (takeExponent cs).2 ++ rest) := by
  have noDigit : Stops Char.isDigit rest := stops.mono fun _ digit =>
    inNumber_of_isDigitChar (isDigitChar_of_isDigit digit)
  -- An exponent shows in two characters: where fewer are left, those behind decide.
  match cs with
  | [] =>
    cases rest with
    | nil => rfl
    | cons d ds =>
      have apart := stops d rfl
      have letter : ¬ (d = 'e' ∨ d = 'E') := by
        rintro (rfl | rfl) <;> cases apart
      simp only [List.nil_append, takeExponent, if_neg letter]
  | [letter] =>
    by_cases opens : letter = 'e' ∨ letter = 'E'
    · cases rest with
      | nil => simp only [List.append_nil]
      | cons d ds =>
        have apart := stops d rfl
        have sign : ¬ (d = '+' ∨ d = '-') := by
          rintro (rfl | rfl) <;> cases apart
        have digit := noDigit d rfl
        simp only [List.cons_append, List.nil_append, takeExponent, if_pos opens, if_neg sign,
          List.takeWhile_cons, digit]
        rfl
    · simp only [List.cons_append, List.nil_append, takeExponent, if_neg opens]
  | letter :: sign :: ds =>
    by_cases opens : letter = 'e' ∨ letter = 'E'
    · by_cases signed : sign = '+' ∨ sign = '-'
      · simp only [List.cons_append, takeExponent, if_pos opens, if_pos signed,
          takeWhile_append_of_stops ds noDigit, dropWhile_append_of_stops ds noDigit]
        split <;> rfl
      · have digits := takeWhile_append_of_stops (sign :: ds) noDigit
        have after := dropWhile_append_of_stops (sign :: ds) noDigit
        rw [List.cons_append] at digits after
        simp only [List.cons_append, takeExponent, if_pos opens, if_neg signed, digits, after]
        split <;> rfl
    · simp only [List.cons_append, takeExponent, if_neg opens]

theorem takeFraction_of_ne {c : Char} (other : c ≠ '.') (cs : List Char) :
    takeFraction (c :: cs) = (none, c :: cs) := by
  unfold takeFraction
  split
  · rename_i same
    cases same
    exact absurd rfl other
  · rfl

theorem takeFraction_append (stops : Stops inNumber rest) (cs : List Char) :
    takeFraction (cs ++ rest) = ((takeFraction cs).1, (takeFraction cs).2 ++ rest) := by
  have noDigit : Stops isDigitChar rest := stops.mono fun _ => inNumber_of_isDigitChar
  match cs with
  | [] =>
    cases rest with
    | nil => rfl
    | cons d ds =>
      have point : d ≠ '.' := fun same => absurd (stops d rfl) (by rw [same]; decide)
      rw [List.nil_append, takeFraction_of_ne point]
      rfl
  | [c] =>
    by_cases point : c = '.'
    · subst point
      cases rest with
      | nil => rfl
      | cons d ds =>
        have digit : d.isDigit = false := (noDigit.mono fun _ => isDigitChar_of_isDigit) d rfl
        simp only [List.cons_append, List.nil_append, takeFraction, digit, Bool.false_eq_true,
          if_false]
    · rw [List.cons_append, takeFraction_of_ne point, takeFraction_of_ne point]
      rfl
  | c :: d :: ds =>
    by_cases point : c = '.'
    · subst point
      simp only [List.cons_append, takeFraction, takeWhile_append_of_stops ds noDigit,
        dropWhile_append_of_stops ds noDigit]
      split <;> rfl
    · rw [List.cons_append, takeFraction_of_ne point, takeFraction_of_ne point]
      rfl

/-- A number is read up to its end, whatever follows. -/
theorem takeUnsigned_append (stops : Stops inNumber rest) (negative : Bool) (cs : List Char) :
    takeUnsigned negative (cs ++ rest) =
      (takeUnsigned negative cs).map fun taken => (taken.1, taken.2 ++ rest) := by
  have noDigit : Stops isDigitChar rest := stops.mono fun _ => inNumber_of_isDigitChar
  cases cs with
  | nil =>
    cases rest with
    | nil => rfl
    | cons d ds =>
      have digit : d.isDigit = false := (noDigit.mono fun _ => isDigitChar_of_isDigit) d rfl
      simp [takeUnsigned, digit]
  | cons c cs =>
    simp only [List.cons_append, takeUnsigned, takeWhile_append_of_stops cs noDigit,
      dropWhile_append_of_stops cs noDigit, takeFraction_append stops, takeExponent_append stops]
    split <;> rfl

theorem takeNumeral_append (stops : Stops inNumber rest) {c : Char} (cs : List Char) :
    takeNumeral (c :: cs ++ rest) =
      (takeNumeral (c :: cs)).map fun taken => (taken.1, taken.2 ++ rest) := by
  by_cases signed : c = '-'
  · subst signed
    rw [List.cons_append, takeNumeral_minus, takeNumeral_minus]
    exact takeUnsigned_append stops true cs
  · rw [List.cons_append, takeNumeral_digit signed, takeNumeral_digit signed]
    exact takeUnsigned_append stops false (c :: cs)

end

theorem scanNumber_eq_token {c : Char} {cs taken rest : List Char} {token : Token} :
    scanNumber c cs = .token token taken rest ↔
      ∃ numeral, takeNumeral (c :: cs) = some (numeral, rest) ∧ numeral.token? = some token ∧
        numeral.chars = taken := by
  unfold scanNumber
  cases found : takeNumeral (c :: cs) with
  | none => simp
  | some pair =>
    obtain ⟨numeral, after⟩ := pair
    dsimp only
    cases value : numeral.token? with
    | none => simp [value]
    | some read =>
      simp only [Option.some.injEq, Prod.mk.injEq, Scan.token.injEq]
      constructor
      · rintro ⟨rfl, rfl, rfl⟩
        exact ⟨numeral, ⟨rfl, rfl⟩, value, rfl⟩
      · rintro ⟨_, ⟨rfl, rfl⟩, same, rfl⟩
        rw [value] at same
        exact ⟨Option.some.inj same, rfl, rfl⟩

/-- What is a number as a whole is this number also in a longer text. -/
theorem lexes_number {c : Char} (opens : c.isDigit = true ∨ c = '-') {cs taken : List Char}
    {token : Token} (scanned : scanNumber c cs = .token token taken []) :
    Lexes inNumber (c :: cs) [token] := by
  intro rest more stops read
  obtain ⟨numeral, found, value, rfl⟩ := scanNumber_eq_token.mp scanned
  have whole : scan c (cs ++ rest) = .token token numeral.chars rest := by
    rw [scan_number opens]
    refine scanNumber_eq_token.mpr ⟨numeral, ?_, value, rfl⟩
    have longer := takeNumeral_append stops cs (c := c)
    rw [found] at longer
    exact longer
  exact .token whole read

/-! ## Integers -/

theorem isDigit_of_mem_toDigits {n : Nat} : ∀ c ∈ Nat.toDigits 10 n, c.isDigit = true :=
  fun _ member => Nat.isDigit_of_mem_toDigits (by decide) (by decide) member

theorem digitsValue_toDigits (n : Nat) : Numeral.digitsValue (Nat.toDigits 10 n) = n := by
  have grouped : (Nat.toDigits 10 n).filter (· ≠ '_') = Nat.toDigits 10 n := by
    refine List.filter_eq_self.mpr fun c member => decide_eq_true fun same => ?_
    have digit := isDigit_of_mem_toDigits c member
    rw [same] at digit
    cases digit
  unfold Numeral.digitsValue
  rw [grouped]
  exact Nat.ofDigitChars_toDigits (by decide) (by decide)

theorem takeUnsigned_toDigits (negative : Bool) (n : Nat) :
    takeUnsigned negative (Nat.toDigits 10 n) =
      some (⟨negative, Nat.toDigits 10 n, none, none⟩, []) := by
  have digits := isDigit_of_mem_toDigits (n := n)
  cases written : Nat.toDigits 10 n with
  | nil => exact absurd written Nat.toDigits_ne_nil
  | cons c cs =>
    rw [written] at digits
    have inside : ∀ d ∈ cs, isDigitChar d = true := fun d member =>
      isDigitChar_of_isDigit (digits d (List.mem_cons_of_mem _ member))
    simp only [takeUnsigned, digits c List.mem_cons_self, if_true,
      List.takeWhile_eq_self_iff.mpr inside, List.dropWhile_eq_nil_iff.mpr inside]
    rfl

/-- The parts of an integer as it is written. -/
def intNumeral (n : Int) : Numeral :=
  ⟨decide (n < 0), Nat.toDigits 10 n.natAbs, none, none⟩

theorem intValue_intNumeral (n : Int) : (intNumeral n).intValue = n := by
  unfold intNumeral Numeral.intValue
  rw [digitsValue_toDigits]
  by_cases negative : n < 0
  · simp only [negative, decide_true, if_true]
    omega
  · simp only [negative, decide_false, Bool.false_eq_true, if_false]
    omega

theorem toList_toString_int (n : Int) :
    (toString n).toList =
      if n < 0 then '-' :: Nat.toDigits 10 n.natAbs else Nat.toDigits 10 n.natAbs := by
  rw [Int.toString_eq_repr, Int.repr_eq_if]
  by_cases negative : n < 0
  · have size : (-n).toNat = n.natAbs := by omega
    rw [if_neg (by omega), if_pos negative, Nat.repr_eq_ofList_toDigits, size]
    simp
  · have size : n.toNat = n.natAbs := by omega
    rw [if_pos (by omega), if_neg negative, Nat.repr_eq_ofList_toDigits, String.toList_ofList, size]

/-- An integer as it is written opens a number and is one. -/
theorem exists_toList_toString_int (n : Int) :
    ∃ c cs, (toString n).toList = c :: cs ∧ (c.isDigit = true ∨ c = '-') ∧
      takeNumeral (c :: cs) = some (intNumeral n, []) := by
  rw [toList_toString_int]
  unfold intNumeral
  by_cases negative : n < 0
  · rw [if_pos negative]
    refine ⟨'-', _, rfl, .inr rfl, ?_⟩
    rw [takeNumeral_minus, takeUnsigned_toDigits, decide_eq_true negative]
  · rw [if_neg negative, decide_eq_false negative]
    have read := takeUnsigned_toDigits false n.natAbs
    have digits := isDigit_of_mem_toDigits (n := n.natAbs)
    cases written : Nat.toDigits 10 n.natAbs with
    | nil => exact absurd written Nat.toDigits_ne_nil
    | cons c cs =>
      rw [written] at digits read
      have digit := digits c List.mem_cons_self
      have unsigned : c ≠ '-' := fun same => absurd digit (by rw [same]; decide)
      exact ⟨c, cs, rfl, .inl digit, (takeNumeral_digit unsigned cs).trans read⟩

theorem lexes_int (n : Int64) : Lexes inNumber (toString n.toInt).toList [.int n] := by
  obtain ⟨c, cs, written, opens, read⟩ := exists_toList_toString_int n.toInt
  have fits : Numeral.fits n.toInt = true :=
    decide_eq_true ⟨n.minValue_le_toInt, n.toInt_le⟩
  have value : (intNumeral n.toInt).token? = some (.int n) := by
    have whole : (intNumeral n.toInt).isWhole = true := rfl
    unfold Numeral.token?
    rw [if_pos whole, intValue_intNumeral, if_pos fits, Int64.ofInt_toInt]
  rw [written]
  exact lexes_number opens (scanNumber_eq_token.mpr ⟨_, read, value, rfl⟩)

/-! ## Floating point numbers -/

/-- The characters of an exponent as it is read. -/
def exponentChars : Option (Char × Option Char × List Char) → List Char
  | some (letter, sign, digits) => letter :: (sign.toList ++ digits)
  | none => []

/-- The characters of a fraction as it is read. -/
def fractionChars : Option (List Char) → List Char
  | some digits => '.' :: digits
  | none => []

theorem takeExponent_chars (cs : List Char) :
    exponentChars (takeExponent cs).1 ++ (takeExponent cs).2 = cs := by
  unfold takeExponent
  split
  · rfl
  · split
    · split
      · rfl
      · rename_i sign ds
        split
        · split
          · rfl
          · simp [exponentChars, List.takeWhile_append_dropWhile]
        · split
          · rfl
          · simp only [exponentChars, Option.toList_none, List.nil_append, List.cons_append,
              List.takeWhile_append_dropWhile]
    · rfl

theorem takeFraction_chars (cs : List Char) :
    fractionChars (takeFraction cs).1 ++ (takeFraction cs).2 = cs := by
  unfold takeFraction
  split
  · split <;> simp [fractionChars, List.takeWhile_append_dropWhile]
  · rfl

theorem Numeral.chars_eq (n : Numeral) :
    n.chars = (if n.negative then ['-'] else []) ++
      (n.whole ++ (fractionChars n.fraction ++ exponentChars n.exponent)) :=
  (List.append_assoc _ _ _).trans (List.append_assoc _ _ _)

/-- Reading a number takes its characters from the start of the text. -/
theorem takeUnsigned_chars {negative : Bool} {cs rest : List Char} {numeral : Numeral}
    (taken : takeUnsigned negative cs = some (numeral, rest)) :
    numeral.chars ++ rest = (if negative then ['-'] else []) ++ cs := by
  cases cs with
  | nil => cases taken
  | cons c cs =>
    simp only [takeUnsigned] at taken
    split at taken
    · cases taken
      have fraction := takeFraction_chars (cs.dropWhile isDigitChar)
      have exponent := takeExponent_chars (takeFraction (cs.dropWhile isDigitChar)).2
      rw [Numeral.chars_eq]
      simp only [List.append_assoc, exponent, fraction, List.cons_append,
        List.takeWhile_append_dropWhile]
    · cases taken

theorem takeNumeral_chars {cs rest : List Char} {numeral : Numeral}
    (taken : takeNumeral cs = some (numeral, rest)) : numeral.chars ++ rest = cs := by
  cases cs with
  | nil => cases taken
  | cons c cs =>
    by_cases signed : c = '-'
    · subst signed
      rw [takeNumeral_minus] at taken
      exact takeUnsigned_chars taken
    · rw [takeNumeral_digit signed] at taken
      exact takeUnsigned_chars taken

/-- No blank and no comment starts with a character of a number. -/
theorem inNumber_of_scan_skip {c : Char} {cs taken rest : List Char}
    (scanned : scan c cs = .skip taken rest) : inNumber c = false := by
  unfold scan at scanned
  split at scanned
  · rename_i blank
    simp only [isBlank, Bool.or_eq_true, beq_iff_eq] at blank
    rcases blank with (((rfl | rfl) | rfl) | rfl) | rfl <;> rfl
  split at scanned
  · rename_i same
    subst same
    rfl
  split at scanned
  · cases scanned
  split at scanned
  · unfold scanString at scanned
    split at scanned
    · cases scanned
    · split at scanned <;> cases scanned
  split at scanned
  · unfold scanNumber at scanned
    split at scanned
    · cases scanned
    · split at scanned <;> cases scanned
  · split at scanned <;> cases scanned

/-- Only a number is read as one. -/
theorem opens_of_scan_float {c : Char} {cs taken rest : List Char} {x : Binary64}
    (scanned : scan c cs = .token (.float x) taken rest) : c.isDigit = true ∨ c = '-' := by
  unfold scan at scanned
  split at scanned
  · cases scanned
  split at scanned
  · cases scanned
  split at scanned
  · unfold wordToken at scanned
    split at scanned <;> cases scanned
  split at scanned
  · unfold scanString at scanned
    split at scanned
    · cases scanned
    · split at scanned <;> cases scanned
  split at scanned
  · assumption
  · split at scanned <;> cases scanned

/-- A text of characters of numbers that reads as a number is this number in every longer text. -/
theorem lexes_float {cs : List Char} {x : Binary64} (inside : ∀ c ∈ cs, inNumber c = true)
    (read : Reads cs [.float x]) : Lexes inNumber cs [.float x] := by
  cases read with
  | skip scanned _ =>
    have apart := inNumber_of_scan_skip scanned
    rw [inside _ List.mem_cons_self] at apart
    cases apart
  | @token c cs taken rest _ _ scanned after =>
    have opens := opens_of_scan_float scanned
    rw [scan_number opens] at scanned
    obtain ⟨numeral, found, _, _⟩ := scanNumber_eq_token.mp scanned
    have chars := takeNumeral_chars found
    -- Nothing is left behind the number: it would be skipped, and no such character is.
    cases after with
    | nil => exact lexes_number opens scanned
    | skip blank _ =>
      have apart := inNumber_of_scan_skip blank
      rw [inside _ (chars ▸ List.mem_append_right _ List.mem_cons_self)] at apart
      cases apart

theorem inNumber_of_mem_toDigits {n : Nat} {c : Char} (member : c ∈ Nat.toDigits 10 n) :
    inNumber c = true :=
  inNumber_of_isDigitChar (isDigitChar_of_isDigit (isDigit_of_mem_toDigits c member))

theorem inNumber_of_mem_writePositional (form : FloatNotation) {digits : List Char}
    (inside : ∀ c ∈ digits, inNumber c = true) (place : Int) :
    ∀ c ∈ form.writePositional digits place, inNumber c = true := by
  have zeros : ∀ (count : Nat), ∀ c ∈ List.replicate count '0', inNumber c = true :=
    fun _ c member => by rw [List.eq_of_mem_replicate member]; rfl
  intro c member
  unfold FloatNotation.writePositional at member
  split at member
  · rcases List.mem_cons.mp member with rfl | member
    · rfl
    rcases List.mem_cons.mp member with rfl | member
    · rfl
    rcases List.mem_append.mp member with member | member
    · exact zeros _ c member
    · exact inside c member
  split at member
  · rcases List.mem_append.mp member with member | member
    · exact inside c (List.mem_of_mem_take member)
    rcases List.mem_cons.mp member with rfl | member
    · rfl
    · exact inside c (List.mem_of_mem_drop member)
  · rcases List.mem_append.mp member with member | member
    · rcases List.mem_append.mp member with member | member
      · exact inside c member
      · exact zeros _ c member
    · split at member
      · rcases List.mem_cons.mp member with rfl | member
        · rfl
        · rw [List.mem_singleton.mp member]
          rfl
      · cases member

theorem inNumber_of_mem_writeExponent {digits : List Char}
    (inside : ∀ c ∈ digits, inNumber c = true) (place : Int) :
    ∀ c ∈ FloatNotation.writeExponent digits place, inNumber c = true := by
  intro c member
  unfold FloatNotation.writeExponent at member
  rcases List.mem_append.mp member with member | member
  · split at member
    · cases member
    · exact inside c member
    · rcases List.mem_cons.mp member with rfl | member
      · exact inside _ List.mem_cons_self
      rcases List.mem_cons.mp member with rfl | member
      · rfl
      · exact inside c (List.mem_cons_of_mem _ member)
  · rcases List.mem_cons.mp member with rfl | member
    · rfl
    rw [toList_toString_int] at member
    split at member
    · rcases List.mem_cons.mp member with rfl | member
      · rfl
      · exact inNumber_of_mem_toDigits member
    · exact inNumber_of_mem_toDigits member

theorem inNumber_of_mem_toText (x : Binary64) : ∀ c ∈ x.toText.toList, inNumber c = true := by
  intro c member
  unfold Binary64.toText FloatNotation.write at member
  split at member
  · have letters : ∀ c ∈ "NaN".toList, inNumber c = true := List.all_eq_true.mp rfl
    exact letters c member
  · rw [String.toList_ofList] at member
    rcases List.mem_append.mp member with sign | member
    · split at sign
      · rw [List.mem_singleton.mp sign]
        rfl
      · cases sign
    · split at member
      · have letters : ∀ c ∈ ['i', 'n', 'f'], inNumber c = true := List.all_eq_true.mp rfl
        exact letters c member
      · have inside : ∀ c ∈ Nat.toDigits 10 x.shortest.digits, inNumber c = true :=
          fun _ => inNumber_of_mem_toDigits
        unfold FloatNotation.writeDecimal at member
        dsimp only at member
        split at member
        · exact inNumber_of_mem_writePositional _ inside _ c member
        · exact inNumber_of_mem_writeExponent inside _ c member

end Lexer

/-- The text of the number is a literal of this number. -/
def Binary64.ReadsBack (x : Binary64) : Prop :=
  (tokenize x.toText).map (List.map Lexeme.token) = .ok [.float x]

namespace Lexer

instance (x : Binary64) : Decidable x.ReadsBack := by
  unfold Binary64.ReadsBack
  infer_instance

theorem lexes_toText {x : Binary64} (back : x.ReadsBack) :
    Lexes inNumber x.toText.toList [.float x] := by
  unfold Binary64.ReadsBack at back
  cases read : tokenize x.toText with
  | error error =>
    rw [read] at back
    cases back
  | ok lexemes =>
    rw [read] at back
    have tokens : lexemes.map Lexeme.token = [.float x] := Except.ok.inj back
    exact lexes_float (inNumber_of_mem_toText x) (tokens ▸ reads_of_tokenize read)

end Lexer

end ConfigBinding
