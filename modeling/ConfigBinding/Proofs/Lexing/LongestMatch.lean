import ConfigBinding.Proofs.Lexing.TokenClasses
import Mathlib.Algebra.Ring.Int.Defs

/-!
# Longest matches

What the longest match at the start of a text is, and what token it stands for, both told from the
classes alone. A step of the lexer is explained by them: it takes the longest match, passes over
blanks and comments, gives the token that another match stands for, and fails where there is no
match, or one that stands for no token.

Results:
1. `Longest.unique`, `Denotes.unique`: there is one longest match at most, for one token at most.
2. `denotes_whole_iff`: a whole number is a token if 64 bits can hold it.
3. `scan_explained`: what a step of the lexer does.
-/

namespace ConfigBinding

namespace Lexer

/-! ## Tokens of texts -/

/-- The value of a whole number; underscores are removed. -/
def decimalValue : List Char → Int
  | '-' :: digits => -(Nat.ofDigitChars 10 (digits.filter (· ≠ '_')) 0 : Int)
  | digits => Nat.ofDigitChars 10 (digits.filter (· ≠ '_')) 0

/-- What stands behind a backslash, and the character that both stand for. -/
def escapes : List (Char × Char) :=
  [('n', '\n'), ('r', '\r'), ('t', '\t'), ('\\', '\\'), ('\x27', '\x27'), ('\x22', '\x22')]

/-- The content of a string stands for the text. -/
inductive Unescapes : List Char → List Char → Prop
  | nil : Unescapes [] []
  | plain {c : Char} {content text : List Char} :
      c ≠ '\\' → Unescapes content text → Unescapes (c :: content) (c :: text)
  | escape {letter c : Char} {content text : List Char} :
      (letter, c) ∈ escapes → Unescapes content text →
        Unescapes ('\\' :: letter :: content) (c :: text)

/-- `Denotes k text token`: as a text of the class `k` the text stands for the token.
* A symbol stands for the mark that is spelled so, and a word does if there is one. Any other word
  is an identifier.
* A whole number stands for its value, if this has a representation of 64 bits. A decimal number
  always has one, as a floating point number.
* A string stands for what its content stands for without the escapes, if it has only known ones. -/
inductive Denotes : Class → List Char → Token → Prop
  | symbol {m : Mark} {text : List Char} :
      m.spelling.toList = text → Denotes .symbol text (.mark m)
  | keyword {m : Mark} {text : List Char} :
      m.spelling.toList = text → Denotes .word text (.mark m)
  | name {text : List Char} :
      (∀ m : Mark, m.spelling.toList ≠ text) → Denotes .word text (.ident (String.ofList text))
  | whole {value : Int64} {text : List Char} :
      value.toInt = decimalValue text → Denotes .whole text (.int value)
  | decimal {n : Numeral} {text : List Char} :
      n.Formed → n.chars = text → Denotes .decimal text (.float n.floatValue)
  | string {quote : Char} {content text : List Char} :
      Unescapes content text →
        Denotes .string (quote :: (content ++ [quote])) (.str (String.ofList text))

theorem unescape?_eq_some_iff {letter c : Char} :
    Text.Quoted.unescape? letter = some c ↔ (letter, c) ∈ escapes := by
  constructor
  · intro found
    unfold Text.Quoted.unescape? at found
    split at found <;> cases found <;> decide
  · intro listed
    have each : ∀ pair ∈ escapes, Text.Quoted.unescape? pair.1 = some pair.2 := by decide
    exact each _ listed

theorem decode_escape (letter : Char) (content : List Char) :
    Text.Quoted.decode ('\\' :: letter :: content) =
      (Text.Quoted.unescape? letter).bind fun c => (Text.Quoted.decode content).map (c :: ·) := by
  rw [Text.Quoted.decode]
  cases Text.Quoted.unescape? letter <;> rfl

theorem decode_eq_some_iff {content text : List Char} :
    Text.Quoted.decode content = some text ↔ Unescapes content text := by
  constructor
  · intro decoded
    fun_induction Text.Quoted.decode content generalizing text with
    | case1 =>
      cases decoded
      exact .nil
    | case2 => cases decoded
    | case3 letter cs c known ih =>
      obtain ⟨more, found, rfl⟩ := Option.map_eq_some_iff.mp decoded
      exact .escape (unescape?_eq_some_iff.mp known) (ih found)
    | case4 => cases decoded
    | case5 c cs notLast notEscape ih =>
      obtain ⟨more, found, rfl⟩ := Option.map_eq_some_iff.mp decoded
      refine .plain ?_ (ih found)
      rintro rfl
      cases cs with
      | nil => exact notLast rfl rfl
      | cons letter cs => exact notEscape letter cs rfl rfl
  · intro unescapes
    induction unescapes with
    | nil => rfl
    | plain plain _ ih => rw [Text.Quoted.decode_cons plain, ih, Option.map_some]
    | escape listed _ ih =>
      rw [decode_escape, unescape?_eq_some_iff.mpr listed, ih, Option.bind_some, Option.map_some]

theorem Denotes.unique {k : Class} {text : List Char} {first second : Token}
    (denotes : Denotes k text first) (other : Denotes k text second) : first = second := by
  cases denotes with
  | symbol spelled =>
    cases other with
    | symbol also =>
      rw [Mark.spelling_injective (String.toList_injective (spelled.trans also.symm))]
  | keyword spelled =>
    cases other with
    | keyword also =>
      rw [Mark.spelling_injective (String.toList_injective (spelled.trans also.symm))]
    | name free => exact absurd spelled (free _)
  | name free =>
    cases other with
    | keyword also => exact absurd also (free _)
    | name _ => rfl
  | whole value =>
    cases other with
    | whole also => rw [Int64.toInt_inj.mp (value.trans also.symm)]
  | decimal formed chars =>
    cases other with
    | decimal also same => rw [formed.eq_of_chars also (chars.trans same.symm)]
  | @string quote content text unescapes =>
    generalize written : quote :: (content ++ [quote]) = literal at other
    cases other with
    | @string quote' content' text' also =>
      obtain ⟨rfl, same⟩ := List.cons_eq_cons.mp written
      obtain rfl := List.append_cancel_right same
      have texts := (decode_eq_some_iff.mpr unescapes).symm.trans (decode_eq_some_iff.mpr also)
      rw [Option.some.inj texts]

/-! ## The longest match -/

/-- The text begins with the word, which is of the class `k`, and with no longer word of any
class. -/
structure Longest (k : Class) (word text : List Char) : Prop where
  isOf : word ∈ k.texts
  starts : word <+: text
  most : ∀ (j : Class) (other : List Char), other ∈ j.texts → other <+: text →
    other.length ≤ word.length

/-- No token can be read from the start of the text: no class matches, or the longest match stands
for no token. -/
inductive Stuck (text : List Char) : Prop
  | unmatched : text ≠ [] → (∀ (k : Class) (word : List Char), word ∈ k.texts → ¬ word <+: text) →
      Stuck text
  | unconverted {k : Class} {word : List Char} : Longest k word text → k.isSkipped = false →
      (∀ token, ¬ Denotes k word token) → Stuck text

theorem Longest.unique {k j : Class} {word other text : List Char} (longest : Longest k word text)
    (also : Longest j other text) : k = j ∧ word = other := by
  have sizes : word.length = other.length := Nat.le_antisymm
    (also.most k word longest.isOf longest.starts) (longest.most j other also.isOf also.starts)
  obtain ⟨rest, rfl⟩ := longest.starts
  obtain ⟨more, same⟩ := also.starts
  obtain ⟨rfl, _⟩ := List.append_inj same sizes.symm
  exact ⟨eq_of_mem_texts longest.isOf also.isOf, rfl⟩

/-- What follows the piece that a longest match is taken from does not matter, if less follows. -/
theorem Longest.truncate {k : Class} {word text rest : List Char}
    (longest : Longest k word (word ++ (text ++ rest))) : Longest k word (word ++ text) :=
  ⟨longest.isOf, List.prefix_append word text, fun j other isOf starts =>
    longest.most j other isOf (starts.trans ⟨rest, by rw [List.append_assoc]⟩)⟩

/-! ## Steps -/

/-- What a step at the start of a text gives is what the classes tell. -/
def Scan.Explains (text : List Char) : Scan → Prop
  | .skip taken rest => text = taken ++ rest ∧ ∃ k, k.isSkipped = true ∧ Longest k taken text
  | .token read taken rest =>
    text = taken ++ rest ∧ ∃ k, k.isSkipped = false ∧ Longest k taken text ∧ Denotes k taken read
  | .failure _ _ => Stuck text

section

variable {c : Char} {cs : List Char} {k : Class}

/-- Only the classes that begin with the same characters can match. -/
theorem opens_of_starts {j : Class} {other : List Char} (isOf : other ∈ j.texts)
    (starts : other <+: c :: cs) : j.opens c = true := by
  obtain ⟨d, ds, rfl, opens⟩ := opens_of_mem_texts isOf
  obtain ⟨rfl, _⟩ := List.cons_prefix_cons.mp starts
  exact opens

theorem family_of_starts (opens : k.opens c = true) {j : Class} {other : List Char}
    (isOf : other ∈ j.texts) (starts : other <+: c :: cs) : j.family = k.family :=
  Option.some.inj
    ((leading_of_opens (opens_of_starts isOf starts)).symm.trans (leading_of_opens opens))

/-- A class that no other class begins like has its longest match where its kind of characters
ends. -/
theorem longest_of_run {p q : Char → Bool} (texts : k.texts = run p q)
    (alone : ∀ j : Class, j.family = k.family → j = k) (opens : p c = true)
    (classOpens : k.opens c = true) (cs : List Char) :
    c :: cs = (c :: cs.takeWhile q) ++ cs.dropWhile q ∧
      Longest k (c :: cs.takeWhile q) (c :: cs) := by
  have whole : c :: cs = (c :: cs.takeWhile q) ++ cs.dropWhile q := by
    rw [List.cons_append, List.takeWhile_append_dropWhile]
  refine ⟨whole, ?_, ⟨_, whole.symm⟩, ?_⟩
  · rw [texts]
    exact mem_run.mpr ⟨c, _, rfl, opens, fun d member => List.mem_takeWhile_imp member⟩
  · intro j other isOf starts
    obtain rfl := alone j (family_of_starts classOpens isOf starts)
    rw [texts] at isOf
    exact longest_run isOf starts

theorem alone_of_ne_whole (other : k.family ≠ .whole) (j : Class) (same : j.family = k.family) :
    j = k := by
  revert other same
  cases k <;> cases j <;> simp [Class.family]

end

/-! ### Symbols and words -/

theorem ofChar?_eq_some_iff {c : Char} {m : Mark} :
    Mark.ofChar? c = some m ↔ m.spelling.toList = [c] := by
  constructor
  · intro found
    unfold Mark.ofChar? at found
    split at found <;> cases found <;> rfl
  · intro spelled
    cases m <;> simp [Mark.spelling] at spelled <;> subst spelled <;> rfl

theorem exists_mark_of_isSymbol {c : Char} (symbol : isSymbol c = true) :
    ∃ m, Mark.ofChar? c = some m := by
  have each : ("@%/=:,.()[]\x7b\x7d".toList.all fun d => (Mark.ofChar? d).isSome) = true := by
    decide
  exact Option.isSome_iff_exists.mp
    (List.all_eq_true.mp each c (List.contains_iff_mem.mp symbol))

theorem isSymbol_of_ofChar? {c : Char} {m : Mark} (found : Mark.ofChar? c = some m) :
    isSymbol c = true := by
  unfold Mark.ofChar? at found
  split at found <;> first | rfl | cases found

/-- A mark that is spelled like a word is found as one. -/
theorem ofWord?_spelling {m : Mark} {c : Char} {cs : List Char} (start : isNameStart c = true)
    (spelled : m.spelling.toList = c :: cs) : Mark.ofWord? m.spelling = some m := by
  revert spelled
  cases m <;> first
    | exact fun _ => rfl
    | (intro spelled; cases spelled; cases start)

theorem denotes_wordToken {c : Char} {cs : List Char} (start : isNameStart c = true) :
    Denotes .word (c :: cs) (wordToken (c :: cs)) := by
  unfold wordToken
  cases found : Mark.ofWord? (String.ofList (c :: cs)) with
  | some m => exact .keyword (by rw [spelling_of_ofWord? found, String.toList_ofList])
  | none =>
    refine .name fun m spelled => ?_
    have same : String.ofList (c :: cs) = m.spelling := by rw [← spelled, String.ofList_toList]
    rw [same, ofWord?_spelling start spelled] at found
    cases found

/-! ### Numbers -/

theorem digitsValue_eq (digits : List Char) :
    Numeral.digitsValue digits = Nat.ofDigitChars 10 (digits.filter (· ≠ '_')) 0 := rfl

theorem decimalValue_chars {n : Numeral} (formed : n.Formed) (isWhole : n.isWhole = true) :
    decimalValue n.chars = n.intValue := by
  obtain ⟨fraction, exponent⟩ : n.fraction = none ∧ n.exponent = none := by
    simpa [Numeral.isWhole] using isWhole
  obtain ⟨d, ds, whole, digit, _⟩ := mem_run.mp formed.whole
  have empty : fractionChars none ++ exponentChars none = [] := rfl
  rw [Numeral.chars_eq, fraction, exponent, empty, List.append_nil, Numeral.intValue]
  cases n.negative with
  | true => rfl
  | false =>
    have unsigned : d ≠ '-' := by
      rintro rfl
      cases digit
    rw [whole]
    simp only [Bool.false_eq_true, if_false, List.nil_append]
    rw [decimalValue, digitsValue_eq]
    rintro _ ⟨⟩
    exact unsigned rfl

theorem fits_iff {v : Int} : Numeral.fits v = true ↔ -2 ^ 63 ≤ v ∧ v < 2 ^ 63 := by
  have least : Int64.minValue.toInt = -2 ^ 63 := rfl
  have greatest : Int64.maxValue.toInt = 2 ^ 63 - 1 := rfl
  rw [Numeral.fits, decide_eq_true_iff, least, greatest]
  omega

theorem toInt_ofInt {v : Int} (fits : Numeral.fits v = true) : (Int64.ofInt v).toInt = v := by
  obtain ⟨least, greatest⟩ := fits_iff.mp fits
  exact Int64.toInt_ofInt_of_le least greatest

/-- A whole number stands for a token if 64 bits can hold its value. -/
theorem denotes_whole_iff {text : List Char} :
    (∃ token, Denotes .whole text token) ↔
      -2 ^ 63 ≤ decimalValue text ∧ decimalValue text < 2 ^ 63 := by
  constructor
  · rintro ⟨_, denotes⟩
    cases denotes with
    | @whole value _ same =>
      rw [← same]
      exact ⟨Int64.le_toInt value, Int64.toInt_lt value⟩
  · intro range
    exact ⟨_, .whole (toInt_ofInt (fits_iff.mpr range))⟩

/-- The class of a numeral. -/
def Numeral.class (n : Numeral) : Class := if n.isWhole then .whole else .decimal

section

variable {c : Char} {cs rest : List Char} {n : Numeral}

/-- The reader of numbers finds a numeral that is as long as each text of a class. -/
theorem takeNumeral_of_class (opens : (c.isDigit || c == '-') = true) {j : Class}
    {other : List Char} (isOf : other ∈ j.texts) (starts : other <+: c :: cs) :
    ∃ n rest, takeNumeral (c :: cs) = some (n, rest) ∧ other.length ≤ n.chars.length := by
  have family : j.family = .whole := family_of_starts (k := .whole) opens isOf starts
  have number : other ∈ wholeTexts + decimalTexts := by
    cases j with
    | whole => exact .inl isOf
    | decimal => exact .inr isOf
    | _ => cases family
  exact longest_numeral number starts

theorem longest_of_takeNumeral (opens : (c.isDigit || c == '-') = true)
    (taken : takeNumeral (c :: cs) = some (n, rest)) : Longest n.class n.chars (c :: cs) := by
  refine ⟨?_, ⟨rest, takeNumeral_chars taken⟩, fun j other isOf starts => ?_⟩
  · have inClass := (formed_of_takeNumeral taken).chars_mem
    unfold Numeral.class
    split at inClass
    · rename_i isWhole
      rw [if_pos isWhole]
      exact inClass
    · rename_i notWhole
      rw [if_neg notWhole]
      exact inClass
  · obtain ⟨m, after, also, most⟩ := takeNumeral_of_class opens isOf starts
    cases also.symm.trans taken
    exact most

theorem unmatched_of_takeNumeral (opens : (c.isDigit || c == '-') = true)
    (taken : takeNumeral (c :: cs) = none) : Stuck (c :: cs) := by
  refine .unmatched nofun fun j other isOf starts => ?_
  obtain ⟨m, after, also, _⟩ := takeNumeral_of_class opens isOf starts
  cases also.symm.trans taken

theorem scanNumber_explained (opens : (c.isDigit || c == '-') = true) :
    (scanNumber c cs).Explains (c :: cs) := by
  unfold scanNumber
  cases taken : takeNumeral (c :: cs) with
  | none => exact unmatched_of_takeNumeral opens taken
  | some pair =>
    obtain ⟨n, rest⟩ := pair
    have longest := longest_of_takeNumeral opens taken
    have formed := formed_of_takeNumeral taken
    have chars := (takeNumeral_chars taken).symm
    dsimp only
    cases isWhole : n.isWhole with
    | false =>
      have token : n.token? = some (.float n.floatValue) := by
        rw [Numeral.token?, isWhole]
        rfl
      rw [Numeral.class, isWhole] at longest
      rw [token]
      exact ⟨chars, .decimal, rfl, longest, .decimal formed rfl⟩
    | true =>
      rw [Numeral.class, isWhole] at longest
      have value := decimalValue_chars formed isWhole
      cases fits : Numeral.fits n.intValue with
      | true =>
        have token : n.token? = some (.int (Int64.ofInt n.intValue)) := by
          rw [Numeral.token?, isWhole, fits]
          rfl
        rw [token]
        exact ⟨chars, .whole, rfl, longest, .whole ((toInt_ofInt fits).trans value.symm)⟩
      | false =>
        have token : n.token? = none := by
          rw [Numeral.token?, isWhole, fits]
          rfl
        rw [token]
        refine .unconverted longest rfl fun token denotes => ?_
        have range := fits_iff.mpr (denotes_whole_iff.mp ⟨token, denotes⟩)
        rw [value, fits] at range
        cases range

end

/-! ### Strings -/

def IsQuote (c : Char) : Prop := c = '\x27' ∨ c = '\x22'

section

variable {quote : Char} {cs : List Char}

theorem opens_of_isQuote (quotes : IsQuote quote) : Class.string.opens quote = true := by
  rcases quotes with rfl | rfl <;> rfl

/-- The reader of strings finds each text of the class. -/
theorem takeString_of_class (quotes : IsQuote quote) {j : Class} {other : List Char}
    (isOf : other ∈ j.texts) (starts : other <+: quote :: cs) :
    ∃ content rest, takeString quote cs = some (content, rest) ∧
      other = quote :: (content ++ [quote]) := by
  have notEscape : '\\' ≠ quote := by
    rcases quotes with rfl | rfl <;> decide
  obtain rfl : j = .string := alone_of_ne_whole (k := .string) nofun j
    (family_of_starts (opens_of_isQuote quotes) isOf starts)
  have isString : other ∈ quotedTexts quote := by
    rcases isOf with isOf | isOf
    · obtain ⟨content, _, rfl⟩ := mem_quotedTexts.mp isOf
      obtain ⟨rfl, _⟩ := List.cons_prefix_cons.mp starts
      exact isOf
    · obtain ⟨content, _, rfl⟩ := mem_quotedTexts.mp isOf
      obtain ⟨rfl, _⟩ := List.cons_prefix_cons.mp starts
      exact isOf
  exact takeString_of_start notEscape isString starts

theorem mem_texts_of_quotedTexts (quotes : IsQuote quote) {literal : List Char}
    (isString : literal ∈ quotedTexts quote) : literal ∈ Class.string.texts := by
  rcases quotes with rfl | rfl
  · exact .inl isString
  · exact .inr isString

/-- A text that begins with a string has this as its longest match, since it begins with no other. -/
theorem longest_of_quotedTexts (quotes : IsQuote quote) {literal : List Char}
    (isString : literal ∈ quotedTexts quote) (starts : literal <+: quote :: cs) :
    Longest .string literal (quote :: cs) := by
  have isOf := mem_texts_of_quotedTexts quotes isString
  refine ⟨isOf, starts, fun k word isOther startsAlso => ?_⟩
  obtain ⟨content, _, taken, rfl⟩ := takeString_of_class (j := .string) quotes isOf starts
  obtain ⟨_, _, also, rfl⟩ := takeString_of_class quotes isOther startsAlso
  cases also.symm.trans taken
  exact Nat.le_refl _

theorem scanString_explained (quotes : IsQuote quote) :
    (scanString quote cs).Explains (quote :: cs) := by
  unfold scanString
  cases taken : takeString quote cs with
  | none =>
    refine .unmatched nofun fun j other isOf starts => ?_
    obtain ⟨_, _, found, _⟩ := takeString_of_class quotes isOf starts
    cases found.symm.trans taken
  | some pair =>
    obtain ⟨content, rest⟩ := pair
    obtain ⟨isContent, rfl⟩ := content_of_takeString taken
    have chars : quote :: (content ++ quote :: rest) = (quote :: (content ++ [quote])) ++ rest := by
      simp
    have longest : Longest .string (quote :: (content ++ [quote]))
        (quote :: (content ++ quote :: rest)) :=
      longest_of_quotedTexts quotes (mem_quotedTexts.mpr ⟨content, isContent, rfl⟩)
        ⟨rest, chars.symm⟩
    dsimp only
    cases decoded : Text.Quoted.decode content with
    | none =>
      refine .unconverted longest rfl fun token denotes => ?_
      generalize written : quote :: (content ++ [quote]) = literal at denotes
      cases denotes with
      | string unescapes =>
        obtain ⟨rfl, same⟩ := List.cons_eq_cons.mp written
        obtain rfl := List.append_cancel_right same
        cases (decode_eq_some_iff.mpr unescapes).symm.trans decoded
    | some text => exact ⟨chars, .string, rfl, longest, .string (decode_eq_some_iff.mp decoded)⟩

end

/-- No text of a class begins with a character that has no reader. -/
theorem not_starts_of_unread {c : Char} {cs : List Char} (blank : ¬ isBlank c = true)
    (comment : ¬ c = '#') (start : ¬ isNameStart c = true) (plain : ¬ IsQuote c)
    (number : ¬ (c.isDigit = true ∨ c = '-')) (unmarked : Mark.ofChar? c = none) {j : Class}
    {other : List Char} (isOf : other ∈ j.texts) : ¬ other <+: c :: cs := by
  intro starts
  have opens := opens_of_starts isOf starts
  cases j with
  | blanks => exact blank opens
  | comment => exact comment (beq_iff_eq.mp opens)
  | word => exact start opens
  | string => exact plain (by simpa [IsQuote, Class.opens] using opens)
  | whole | decimal => exact number (by simpa [Class.opens] using opens)
  | symbol =>
    obtain ⟨m, known⟩ := exists_mark_of_isSymbol opens
    cases known.symm.trans unmarked

/-- A step of the lexer takes the longest match, and fails where there is none or where it stands
for no token. -/
theorem scan_explained (c : Char) (cs : List Char) : (scan c cs).Explains (c :: cs) := by
  by_cases blank : isBlank c = true
  · obtain ⟨whole, longest⟩ :=
      longest_of_run (k := .blanks) rfl (alone_of_ne_whole nofun) blank blank cs
    have scanned : scan c cs = .skip (c :: cs.takeWhile isBlank) (cs.dropWhile isBlank) :=
      if_pos blank
    rw [scanned]
    exact ⟨whole, .blanks, rfl, longest⟩
  by_cases comment : c = '#'
  · subst comment
    obtain ⟨whole, longest⟩ :=
      longest_of_run (k := .comment) (c := '#') rfl (alone_of_ne_whole nofun) rfl rfl cs
    exact ⟨whole, .comment, rfl, longest⟩
  by_cases start : isNameStart c = true
  · obtain ⟨whole, longest⟩ :=
      longest_of_run (k := .word) rfl (alone_of_ne_whole nofun) start start cs
    rw [scan_word start]
    exact ⟨whole, .word, rfl, longest, denotes_wordToken start⟩
  by_cases isQuote : c = '\x27' ∨ c = '\x22'
  · have scanned : scan c cs = scanString c cs := by
      rcases isQuote with rfl | rfl <;> rfl
    rw [scanned]
    exact scanString_explained isQuote
  by_cases number : c.isDigit = true ∨ c = '-'
  · have opens : (c.isDigit || c == '-') = true := by
      simpa using number
    rw [scan_number number]
    exact scanNumber_explained opens
  unfold scan
  rw [if_neg blank, if_neg comment, if_neg start, if_neg isQuote, if_neg number]
  cases found : Mark.ofChar? c with
  | some m =>
    have symbol : Class.symbol.opens c = true := isSymbol_of_ofChar? found
    refine ⟨rfl, .symbol, rfl, ⟨mem_letter.mpr ⟨c, symbol, rfl⟩, ⟨cs, rfl⟩, ?_⟩,
      .symbol (ofChar?_eq_some_iff.mp found)⟩
    intro j other isOf starts
    obtain rfl : j = .symbol :=
      alone_of_ne_whole (k := .symbol) nofun j (family_of_starts symbol isOf starts)
    obtain ⟨d, _, rfl⟩ := isOf
    exact Nat.le_refl _
  | none =>
    exact .unmatched nofun fun j other =>
      not_starts_of_unread blank comment start isQuote number found

end Lexer

end ConfigBinding
