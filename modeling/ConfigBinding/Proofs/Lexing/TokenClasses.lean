import ConfigBinding.Proofs.Reading.Numbers
import Mathlib.Computability.Language

/-!
# The classes of tokens

What a run of blanks, a comment, a mark, a name, a number and a string look like, as languages: a
text is told to be of a class without being read. Beside each class stands what the reader of this
class takes from the start of a text, which is the longest start that is of the class.

Results:
1. `eq_of_mem_texts`: a text is of one class at most.
2. `longest_run`, `longest_numeral`, `takeString_of_start`: no start of a text that is of the class
   is longer than what its reader takes.
-/

namespace ConfigBinding

open Computability

namespace Lexer

/-! ## Languages -/

/-- The texts of one character of the kind. -/
def letter (p : Char → Bool) : Language Char := {text | ∃ c, p c = true ∧ text = [c]}

/-- A character of the first kind, and any number of characters of the second. -/
def run (p q : Char → Bool) : Language Char := letter p * (letter q)∗

theorem mem_letter {p : Char → Bool} {text : List Char} :
    text ∈ letter p ↔ ∃ c, p c = true ∧ text = [c] := Iff.rfl

theorem append_mem_star {l : Language Char} {first rest : List Char} (one : first ∈ l)
    (more : rest ∈ l∗) : first ++ rest ∈ l∗ :=
  mul_kstar_le_kstar (a := l) (Language.append_mem_mul one more)

/-- What is repeated in a text is there not at all, or once and then again. -/
theorem star_induction {l : Language Char} {P : List Char → Prop} (nil : P [])
    (append : ∀ first ∈ l, ∀ rest, P rest → P (first ++ rest)) {text : List Char}
    (repeated : text ∈ l∗) : P text := by
  obtain ⟨pieces, rfl, each⟩ := Language.mem_kstar.mp repeated
  clear repeated
  induction pieces with
  | nil => exact nil
  | cons piece pieces ih =>
    obtain ⟨first, others⟩ := List.forall_mem_cons.mp each
    exact append piece first _ (ih others)

theorem mem_star_letter {p : Char → Bool} {text : List Char} :
    text ∈ (letter p)∗ ↔ ∀ c ∈ text, p c = true := by
  constructor
  · intro repeated
    refine star_induction (P := fun text => ∀ c ∈ text, p c = true) ?_ ?_ repeated
    · exact List.forall_mem_nil _
    · rintro _ ⟨c, inside, rfl⟩ rest others
      exact List.forall_mem_cons.mpr ⟨inside, others⟩
  · intro each
    induction text with
    | nil => exact Language.nil_mem_kstar _
    | cons c text ih =>
      obtain ⟨first, others⟩ := List.forall_mem_cons.mp each
      exact append_mem_star (mem_letter.mpr ⟨c, first, rfl⟩) (ih others)

theorem mem_run {p q : Char → Bool} {text : List Char} :
    text ∈ run p q ↔ ∃ c cs, text = c :: cs ∧ p c = true ∧ ∀ d ∈ cs, q d = true := by
  constructor
  · rintro ⟨_, ⟨c, opens, rfl⟩, cs, repeated, rfl⟩
    exact ⟨c, cs, rfl, opens, mem_star_letter.mp repeated⟩
  · rintro ⟨c, cs, rfl, opens, inside⟩
    exact Language.append_mem_mul (mem_letter.mpr ⟨c, opens, rfl⟩) (mem_star_letter.mpr inside)

/-- Of the texts that are a run, the longest start of a text ends where the kind ends. -/
theorem longest_run {p q : Char → Bool} {c : Char} {cs text : List Char} (isRun : text ∈ run p q)
    (starts : text <+: c :: cs) : text.length ≤ (c :: cs.takeWhile q).length := by
  obtain ⟨d, ds, rfl, _, inside⟩ := mem_run.mp isRun
  obtain ⟨_, rest, rfl⟩ := List.cons_prefix_cons.mp starts
  rw [List.takeWhile_append_of_pos inside, List.length_cons, List.length_cons, List.length_append]
  omega

/-! ## Numbers -/

/-- Whether the character is the sign of a negative number. -/
def isMinus (c : Char) : Bool := c == '-'

def isPoint (c : Char) : Bool := c == '.'

def isExponentLetter (c : Char) : Bool := c == 'e' || c == 'E'

def isSign (c : Char) : Bool := c == '+' || c == '-'

/-- `-?[0-9][0-9_]*` -/
def wholeTexts : Language Char := (1 + letter isMinus) * run Char.isDigit isDigitChar

/-- `\.[0-9][0-9_]*` -/
def fractionTexts : Language Char := letter isPoint * run Char.isDigit isDigitChar

/-- `[eE][+-]?[0-9]+` -/
def exponentTexts : Language Char :=
  letter isExponentLetter * ((1 + letter isSign) * run Char.isDigit Char.isDigit)

/-- A whole number with a fraction, an exponent, or both behind it. -/
def decimalTexts : Language Char :=
  wholeTexts * (fractionTexts * (1 + exponentTexts) + exponentTexts)

namespace Numeral

/-- The parts are what a number literal has: digits, with a digit first; and in an exponent only
digits. -/
structure Formed (n : Numeral) : Prop where
  whole : n.whole ∈ run Char.isDigit isDigitChar
  fraction : ∀ digits ∈ n.fraction, digits ∈ run Char.isDigit isDigitChar
  exponent : ∀ letter sign digits, n.exponent = some (letter, sign, digits) →
    isExponentLetter letter = true ∧ (∀ c ∈ sign, isSign c = true) ∧
      digits ∈ run Char.isDigit Char.isDigit

end Numeral

/-! ### What is taken is a number -/

theorem mem_run_of_takeWhile {p : Char → Bool} {cs : List Char} (some : cs.takeWhile p ≠ []) :
    cs.takeWhile p ∈ run p p := by
  have inside (c : Char) (member : c ∈ cs.takeWhile p) : p c = true := List.mem_takeWhile_imp member
  cases taken : cs.takeWhile p with
  | nil => exact absurd taken some
  | cons c ds =>
    rw [taken] at inside
    obtain ⟨first, others⟩ := List.forall_mem_cons.mp inside
    exact mem_run.mpr ⟨c, ds, rfl, first, others⟩

theorem formed_of_takeExponent {cs digits : List Char} {letter : Char} {sign : Option Char}
    (taken : (takeExponent cs).1 = some (letter, sign, digits)) :
    isExponentLetter letter = true ∧ (∀ c ∈ sign, isSign c = true) ∧
      digits ∈ run Char.isDigit Char.isDigit := by
  cases cs with
  | nil => cases taken
  | cons first cs =>
    by_cases opens : first = 'e' ∨ first = 'E'
    · have opened : isExponentLetter first = true := by
        simpa [isExponentLetter] using opens
      cases cs with
      | nil =>
        simp only [takeExponent, if_pos opens] at taken
        cases taken
      | cons second ds =>
        by_cases signed : second = '+' ∨ second = '-'
        · simp only [takeExponent, if_pos opens, if_pos signed] at taken
          split at taken
          · cases taken
          · rename_i some
            cases taken
            refine ⟨opened, fun c same => ?_, mem_run_of_takeWhile some⟩
            cases same
            simpa [isSign] using signed
        · simp only [takeExponent, if_pos opens, if_neg signed] at taken
          split at taken
          · cases taken
          · rename_i some
            cases taken
            refine ⟨opened, fun c same => ?_, mem_run_of_takeWhile some⟩
            cases same
    · simp only [takeExponent, if_neg opens] at taken
      cases taken

theorem formed_of_takeFraction {cs digits : List Char} (taken : (takeFraction cs).1 = some digits) :
    digits ∈ run Char.isDigit isDigitChar := by
  unfold takeFraction at taken
  split at taken
  · split at taken
    · rename_i digit
      cases taken
      exact mem_run.mpr ⟨_, _, rfl, digit, fun _ member => List.mem_takeWhile_imp member⟩
    · cases taken
  · cases taken

theorem formed_of_takeUnsigned {negative : Bool} {cs rest : List Char} {n : Numeral}
    (taken : takeUnsigned negative cs = some (n, rest)) : n.Formed := by
  cases cs with
  | nil => cases taken
  | cons c cs =>
    simp only [takeUnsigned] at taken
    split at taken
    · rename_i digit
      cases taken
      exact ⟨mem_run.mpr ⟨_, _, rfl, digit, fun _ member => List.mem_takeWhile_imp member⟩,
        fun _ found => formed_of_takeFraction found,
        fun _ _ _ found => formed_of_takeExponent found⟩
    · cases taken

theorem formed_of_takeNumeral {cs rest : List Char} {n : Numeral}
    (taken : takeNumeral cs = some (n, rest)) : n.Formed := by
  cases cs with
  | nil => cases taken
  | cons c cs =>
    by_cases signed : c = '-'
    · subst signed
      rw [takeNumeral_minus] at taken
      exact formed_of_takeUnsigned taken
    · rw [takeNumeral_digit signed] at taken
      exact formed_of_takeUnsigned taken

/-! ### The longest number -/

theorem length_dropWhile_append {p : Char → Bool} {cs : List Char} (inside : ∀ c ∈ cs, p c = true)
    (rest : List Char) : ((cs ++ rest).dropWhile p).length ≤ rest.length := by
  rw [List.dropWhile_append_of_pos inside]
  exact dropWhile_length p rest

theorem takeExponent_longest {text : List Char} (exponent : text ∈ exponentTexts)
    (rest : List Char) : (takeExponent (text ++ rest)).2.length ≤ rest.length := by
  obtain ⟨_, ⟨letter, opens, rfl⟩, _, ⟨sign, signed, _, isRun, rfl⟩, rfl⟩ := exponent
  obtain ⟨d, ds, rfl, digit, inside⟩ := mem_run.mp isRun
  have opened : letter = 'e' ∨ letter = 'E' := by
    simpa [isExponentLetter] using opens
  rcases signed with rfl | ⟨s, isSign, rfl⟩
  · have unsigned : ¬ (d = '+' ∨ d = '-') := by
      rintro (rfl | rfl) <;> cases digit
    simp only [List.nil_append, List.cons_append, takeExponent, if_pos opened, if_neg unsigned,
      List.takeWhile_cons, List.dropWhile_cons, digit, if_true]
    exact length_dropWhile_append inside rest
  · have sign : s = '+' ∨ s = '-' := by
      simpa [Lexer.isSign] using isSign
    simp only [List.nil_append, List.cons_append, takeExponent, if_pos opened, if_pos sign,
      List.takeWhile_cons, List.dropWhile_cons, digit, if_true]
    exact length_dropWhile_append inside rest

/-- What follows the whole part of a number in its longest form, in a text that goes on with it. -/
theorem takeParts_longest {text : List Char}
    (parts : text ∈ 1 + (fractionTexts * (1 + exponentTexts) + exponentTexts)) (rest : List Char) :
    (takeExponent (takeFraction ((text ++ rest).dropWhile isDigitChar)).2).2.length ≤
      rest.length := by
  have shorter (cs : List Char) : (takeExponent (takeFraction cs).2).2.length ≤ cs.length :=
    Nat.le_trans (takeExponent_length _) (takeFraction_length _)
  have exponentStops {exponent : List Char} (isExponent : exponent ∈ exponentTexts) :
      (exponent ++ rest).dropWhile isDigitChar = exponent ++ rest ∧
        takeFraction (exponent ++ rest) = (none, exponent ++ rest) := by
    obtain ⟨_, ⟨letter, opens, rfl⟩, _, _, rfl⟩ := isExponent
    have opened : letter = 'e' ∨ letter = 'E' := by
      simpa [isExponentLetter] using opens
    rcases opened with rfl | rfl
    · exact ⟨rfl, rfl⟩
    · exact ⟨rfl, rfl⟩
  rcases parts with rfl | ⟨_, ⟨_, ⟨point, isPoint, rfl⟩, _, isRun, rfl⟩, exponent, tail, rfl⟩ |
    isExponent
  · exact Nat.le_trans (shorter _) (dropWhile_length _ rest)
  · obtain ⟨d, ds, rfl, digit, inside⟩ := mem_run.mp isRun
    obtain rfl : point = '.' := beq_iff_eq.mp isPoint
    have fraction : takeFraction ('.' :: d :: (ds ++ (exponent ++ rest))) =
        (some (d :: (ds ++ (exponent ++ rest)).takeWhile isDigitChar),
          (ds ++ (exponent ++ rest)).dropWhile isDigitChar) := by
      simp only [takeFraction, digit, if_true]
    have whole : (['.'] ++ d :: ds ++ exponent ++ rest).dropWhile isDigitChar =
        '.' :: d :: (ds ++ (exponent ++ rest)) := by
      simp [isDigitChar]
    rw [whole, fraction, List.dropWhile_append_of_pos inside]
    rcases tail with rfl | isExponent
    · exact Nat.le_trans (takeExponent_length _) (dropWhile_length _ rest)
    · rw [(exponentStops isExponent).1]
      exact takeExponent_longest isExponent rest
  · rw [(exponentStops isExponent).1, (exponentStops isExponent).2]
    exact takeExponent_longest isExponent rest

theorem takeUnsigned_longest {digits parts : List Char}
    (isRun : digits ∈ run Char.isDigit isDigitChar)
    (isParts : parts ∈ 1 + (fractionTexts * (1 + exponentTexts) + exponentTexts))
    (negative : Bool) (rest : List Char) :
    ∃ n after, takeUnsigned negative (digits ++ (parts ++ rest)) = some (n, after) ∧
      after.length ≤ rest.length := by
  obtain ⟨d, ds, rfl, digit, inside⟩ := mem_run.mp isRun
  simp only [List.cons_append, takeUnsigned, digit, if_true]
  refine ⟨_, _, rfl, ?_⟩
  rw [List.dropWhile_append_of_pos inside]
  exact takeParts_longest isParts rest

/-- A text that begins with a number is read as a number that is at least as long. -/
theorem longest_numeral {cs text : List Char} (number : text ∈ wholeTexts + decimalTexts)
    (starts : text <+: cs) :
    ∃ n rest, takeNumeral cs = some (n, rest) ∧ text.length ≤ n.chars.length := by
  obtain ⟨rest, rfl⟩ := starts
  obtain ⟨whole, isWhole, parts, isParts, rfl⟩ : text ∈ wholeTexts *
      (1 + (fractionTexts * (1 + exponentTexts) + exponentTexts)) := by
    rw [mul_add, mul_one]
    exact number
  obtain ⟨sign, signed, digits, isRun, rfl⟩ := isWhole
  have read : ∃ n after, takeNumeral (sign ++ digits ++ parts ++ rest) = some (n, after) ∧
      after.length ≤ rest.length := by
    rcases signed with rfl | ⟨c, minus, rfl⟩
    · obtain ⟨n, after, taken, short⟩ := takeUnsigned_longest isRun isParts false rest
      obtain ⟨d, ds, rfl, digit, _⟩ := mem_run.mp isRun
      have unsigned : d ≠ '-' := by
        rintro rfl
        cases digit
      refine ⟨n, after, ?_, short⟩
      rw [List.nil_append, List.append_assoc, ← taken, List.cons_append, takeNumeral_digit unsigned]
    · obtain ⟨n, after, taken, short⟩ := takeUnsigned_longest isRun isParts true rest
      obtain rfl : c = '-' := beq_iff_eq.mp minus
      refine ⟨n, after, ?_, short⟩
      rw [List.singleton_append, List.append_assoc, List.cons_append, takeNumeral_minus, taken]
  obtain ⟨n, after, taken, short⟩ := read
  refine ⟨n, after, taken, ?_⟩
  have sizes := congrArg List.length (takeNumeral_chars taken)
  simp only [List.length_append] at sizes ⊢
  omega

/-! ### Parts and texts -/

theorem takeExponent_formed {exponent : Option (Char × Option Char × List Char)}
    (formed : ∀ letter sign digits, exponent = some (letter, sign, digits) →
      isExponentLetter letter = true ∧ (∀ c ∈ sign, isSign c = true) ∧
        digits ∈ run Char.isDigit Char.isDigit) :
    takeExponent (exponentChars exponent) = (exponent, []) := by
  match exponent with
  | none => rfl
  | some (letter, sign, digits) =>
    obtain ⟨opens, signed, isRun⟩ := formed letter sign digits rfl
    obtain ⟨d, ds, rfl, digit, inside⟩ := mem_run.mp isRun
    have opened : letter = 'e' ∨ letter = 'E' := by
      simpa [isExponentLetter] using opens
    have taken : ds.takeWhile Char.isDigit = ds := List.takeWhile_eq_self_iff.mpr inside
    have left : ds.dropWhile Char.isDigit = [] := List.dropWhile_eq_nil_iff.mpr inside
    match sign with
    | none =>
      have unsigned : ¬ (d = '+' ∨ d = '-') := by
        rintro (rfl | rfl) <;> cases digit
      simp only [exponentChars, Option.toList_none, List.nil_append, takeExponent, if_pos opened,
        if_neg unsigned, List.takeWhile_cons, List.dropWhile_cons, digit, if_true, taken, left]
    | some s =>
      have sign : s = '+' ∨ s = '-' := by
        simpa [isSign] using signed s rfl
      simp only [exponentChars, Option.toList_some, List.singleton_append, takeExponent,
        if_pos opened, if_pos sign, List.takeWhile_cons, List.dropWhile_cons, digit, if_true, taken,
        left]

namespace Numeral

variable {n m : Numeral}

/-- Behind the digits of a part comes the next part or nothing. -/
theorem Formed.stops_exponent (formed : n.Formed) :
    Stops isDigitChar (exponentChars n.exponent) ∧
      takeFraction (exponentChars n.exponent) = (none, exponentChars n.exponent) := by
  match exponent : n.exponent with
  | none => exact ⟨stops_nil _, rfl⟩
  | some (letter, sign, digits) =>
    have opened : letter = 'e' ∨ letter = 'E' := by
      simpa [isExponentLetter] using (formed.exponent letter sign digits exponent).1
    rcases opened with rfl | rfl
    · exact ⟨stops_cons rfl _, rfl⟩
    · exact ⟨stops_cons rfl _, rfl⟩

theorem Formed.takeFraction (formed : n.Formed) :
    Lexer.takeFraction (fractionChars n.fraction ++ exponentChars n.exponent) =
      (n.fraction, exponentChars n.exponent) := by
  obtain ⟨stops, none⟩ := formed.stops_exponent
  match fraction : n.fraction with
  | .none => exact none
  | some digits =>
    obtain ⟨d, ds, rfl, digit, inside⟩ := mem_run.mp (formed.fraction digits fraction)
    simp only [fractionChars, List.cons_append, Lexer.takeFraction, digit, if_true,
      takeWhile_of_stops inside stops, dropWhile_of_stops inside stops]

/-- Well formed parts are read back from the text that they make. -/
theorem Formed.takeUnsigned (formed : n.Formed) :
    Lexer.takeUnsigned n.negative
        (n.whole ++ (fractionChars n.fraction ++ exponentChars n.exponent)) = some (n, []) := by
  obtain ⟨d, ds, whole, digit, inside⟩ := mem_run.mp formed.whole
  have stops : Stops isDigitChar (fractionChars n.fraction ++ exponentChars n.exponent) := by
    cases n.fraction with
    | none => exact formed.stops_exponent.1
    | some digits => exact stops_cons rfl _
  simp only [whole, List.cons_append, Lexer.takeUnsigned, digit, if_true,
    takeWhile_of_stops inside stops, dropWhile_of_stops inside stops, formed.takeFraction,
    takeExponent_formed formed.exponent]
  rw [← whole]

theorem Formed.takeNumeral (formed : n.Formed) : Lexer.takeNumeral n.chars = some (n, []) := by
  have read := formed.takeUnsigned
  rw [chars_eq]
  cases negative : n.negative with
  | true =>
    rw [negative] at read
    exact (takeNumeral_minus _).trans read
  | false =>
    rw [negative] at read
    obtain ⟨d, ds, whole, digit, _⟩ := mem_run.mp formed.whole
    have unsigned : d ≠ '-' := by
      rintro rfl
      cases digit
    rw [whole] at read ⊢
    exact (takeNumeral_digit unsigned _).trans read

theorem Formed.eq_of_chars (formed : n.Formed) (other : m.Formed) (same : n.chars = m.chars) :
    n = m := by
  have read := formed.takeNumeral
  rw [same, other.takeNumeral] at read
  cases read
  rfl

theorem Formed.chars_mem (formed : n.Formed) :
    n.chars ∈ if n.isWhole then wholeTexts else decimalTexts := by
  have sign : (if n.negative then ['-'] else []) ∈ 1 + letter isMinus := by
    cases n.negative with
    | true => exact .inr ⟨'-', rfl, rfl⟩
    | false => exact .inl rfl
  have whole := Language.append_mem_mul sign formed.whole
  have fraction (digits : List Char) (some : n.fraction = some digits) :
      fractionChars n.fraction ∈ fractionTexts := by
    rw [some]
    exact Language.append_mem_mul (mem_letter.mpr ⟨'.', rfl, rfl⟩) (formed.fraction digits some)
  have exponent (parts : Char × Option Char × List Char) (some : n.exponent = some parts) :
      exponentChars n.exponent ∈ exponentTexts := by
    obtain ⟨letter, sign, digits⟩ := parts
    obtain ⟨opens, signed, isRun⟩ := formed.exponent letter sign digits some
    rw [some]
    refine Language.append_mem_mul (mem_letter.mpr ⟨letter, opens, rfl⟩)
      (Language.append_mem_mul ?_ isRun)
    match sign with
    | none => exact .inl rfl
    | .some s => exact .inr ⟨s, signed s rfl, rfl⟩
  rw [chars_eq, ← List.append_assoc]
  cases hasFraction : n.fraction with
  | none =>
    cases hasExponent : n.exponent with
    | none =>
      have none : fractionChars none ++ exponentChars none = [] := rfl
      rw [isWhole, hasFraction, hasExponent, none, List.append_nil]
      exact whole
    | some parts =>
      rw [isWhole, hasFraction, hasExponent]
      have tail := exponent parts hasExponent
      rw [hasExponent] at tail
      exact Language.append_mem_mul whole (.inr tail)
  | some digits =>
    have first := fraction digits hasFraction
    rw [hasFraction] at first
    have tail : exponentChars n.exponent ∈ 1 + exponentTexts := by
      cases hasExponent : n.exponent with
      | none => exact .inl rfl
      | some parts =>
        rw [← hasExponent]
        exact .inr (exponent parts hasExponent)
    rw [isWhole, hasFraction]
    exact Language.append_mem_mul whole (.inl (Language.append_mem_mul first tail))

end Numeral

/-! ## Strings -/

/-- `([^q\\\n]|\\.)*` where `q` is the quote. -/
def contentTexts (quote : Char) : Language Char :=
  (letter (fun c => c != quote && c != '\\' && c != '\n') +
    letter (· == '\\') * letter (· != '\n'))∗

/-- A content between two quotes of a kind. -/
def quotedTexts (quote : Char) : Language Char :=
  letter (· == quote) * (contentTexts quote * letter (· == quote))

theorem mem_quotedTexts {quote : Char} {text : List Char} :
    text ∈ quotedTexts quote ↔
      ∃ content ∈ contentTexts quote, text = quote :: (content ++ [quote]) := by
  constructor
  · rintro ⟨_, ⟨first, opens, rfl⟩, _, ⟨content, isContent, _, ⟨last, closes, rfl⟩, rfl⟩, rfl⟩
    obtain rfl := beq_iff_eq.mp opens
    obtain rfl := beq_iff_eq.mp closes
    exact ⟨content, isContent, rfl⟩
  · rintro ⟨content, isContent, rfl⟩
    have isQuote : [quote] ∈ letter (· == quote) := ⟨quote, beq_iff_eq.mpr rfl, rfl⟩
    exact Language.append_mem_mul isQuote (Language.append_mem_mul isContent isQuote)

section

variable {quote : Char} {cs content rest : List Char}

theorem content_of_takeString (taken : takeString quote cs = some (content, rest)) :
    content ∈ contentTexts quote ∧ cs = content ++ quote :: rest := by
  fun_induction takeString quote cs generalizing content rest with
  | case1 => cases taken
  | case2 =>
    cases taken
    exact ⟨Language.nil_mem_kstar _, rfl⟩
  | case3 => cases taken
  | case4 => cases taken
  | case5 => cases taken
  | case6 d ds line _ _ ih =>
    obtain ⟨⟨inner, more⟩, found, same⟩ := Option.map_eq_some_iff.mp taken
    cases same
    obtain ⟨isContent, rfl⟩ := ih found
    have escaped : ['\\'] ++ [d] ∈ letter (· == '\\') * letter (· != '\n') :=
      Language.append_mem_mul ⟨_, rfl, rfl⟩ ⟨d, bne_iff_ne.mpr line, rfl⟩
    exact ⟨append_mem_star (.inr escaped) isContent, rfl⟩
  | case7 c cs other line plain ih =>
    obtain ⟨⟨inner, more⟩, found, same⟩ := Option.map_eq_some_iff.mp taken
    cases same
    obtain ⟨isContent, rfl⟩ := ih found
    have inside : (c != quote && c != '\\' && c != '\n') = true := by
      simp [other, line, plain]
    exact ⟨append_mem_star (.inl ⟨c, inside, rfl⟩) isContent, rfl⟩

theorem takeString_content (notEscape : '\\' ≠ quote) (isContent : content ∈ contentTexts quote)
    (rest : List Char) : takeString quote (content ++ quote :: rest) = some (content, rest) := by
  refine star_induction (P := fun content =>
    takeString quote (content ++ quote :: rest) = some (content, rest)) ?_ ?_ isContent
  · exact takeString_closing quote rest
  · rintro _ (⟨c, inside, rfl⟩ | ⟨_, ⟨_, isEscape, rfl⟩, _, ⟨d, line, rfl⟩, rfl⟩) content ih
    · simp only [Bool.and_eq_true, bne_iff_ne] at inside
      obtain ⟨⟨other, plain⟩, line⟩ := inside
      rw [List.append_assoc, List.singleton_append, takeString_plain other line plain, ih]
      rfl
    · obtain rfl := beq_iff_eq.mp isEscape
      show takeString quote ('\\' :: d :: (content ++ quote :: rest)) = _
      rw [takeString.eq_def]
      simp [notEscape, bne_iff_ne.mp line, ih]

/-- A string ends at the first quote of its kind, so no other string starts the same text. -/
theorem takeString_of_start (notEscape : '\\' ≠ quote) {text : List Char}
    (isString : text ∈ quotedTexts quote) (starts : text <+: quote :: cs) :
    ∃ content rest, takeString quote cs = some (content, rest) ∧
      text = quote :: (content ++ [quote]) := by
  obtain ⟨content, isContent, rfl⟩ := mem_quotedTexts.mp isString
  obtain ⟨rest, same⟩ := starts
  obtain rfl : content ++ quote :: rest = cs := by
    simpa using same
  exact ⟨content, rest, takeString_content notEscape isContent rest, rfl⟩

end

/-! ## The classes -/

/-- The characters that are a token on their own. -/
def isSymbol (c : Char) : Bool := "@%/=:,.()[]\x7b\x7d".toList.contains c

/-- What the characters of a text can be together. -/
inductive Class
  | blanks | comment | symbol | word | whole | decimal | string
deriving DecidableEq

namespace Class

/-- The texts of a class. -/
def texts : Class → Language Char
  | .blanks => run isBlank isBlank
  | .comment => run (· == '#') (fun c => decide (c ≠ '\n'))
  | .symbol => letter isSymbol
  | .word => run isNameStart isNameChar
  | .whole => wholeTexts
  | .decimal => decimalTexts
  | .string => quotedTexts '\x27' + quotedTexts '\x22'

/-- Whether nothing is read from the texts of the class. -/
def isSkipped : Class → Bool
  | .blanks | .comment => true
  | _ => false

/-- Whether texts of the class begin with the character. -/
def opens : Class → Char → Bool
  | .blanks, c => isBlank c
  | .comment, c => c == '#'
  | .symbol, c => isSymbol c
  | .word, c => isNameStart c
  | .whole, c | .decimal, c => c.isDigit || c == '-'
  | .string, c => c == '\x27' || c == '\x22'

end Class

theorem opens_of_wholeTexts {text : List Char} (isWhole : text ∈ wholeTexts) :
    ∃ c cs, text = c :: cs ∧ (c.isDigit || c == '-') = true := by
  obtain ⟨_, signed, digits, isRun, rfl⟩ := isWhole
  obtain ⟨d, ds, rfl, digit, _⟩ := mem_run.mp isRun
  rcases signed with rfl | ⟨c, minus, rfl⟩
  · exact ⟨d, ds, rfl, by rw [digit]; rfl⟩
  · exact ⟨c, d :: ds, rfl, Bool.or_eq_true_iff.mpr (.inr minus)⟩

theorem opens_of_mem_texts {k : Class} {text : List Char} (isOf : text ∈ k.texts) :
    ∃ c cs, text = c :: cs ∧ k.opens c = true := by
  match k with
  | .blanks | .comment | .word =>
    obtain ⟨c, cs, rfl, opens, _⟩ := mem_run.mp isOf
    exact ⟨c, cs, rfl, opens⟩
  | .symbol =>
    obtain ⟨c, opens, rfl⟩ := isOf
    exact ⟨c, [], rfl, opens⟩
  | .whole => exact opens_of_wholeTexts isOf
  | .decimal =>
    obtain ⟨_, isWhole, parts, _, rfl⟩ := isOf
    obtain ⟨c, cs, rfl, opens⟩ := opens_of_wholeTexts isWhole
    exact ⟨c, cs ++ parts, rfl, opens⟩
  | .string =>
    rcases isOf with isOf | isOf
    · obtain ⟨content, _, rfl⟩ := mem_quotedTexts.mp isOf
      exact ⟨_, _, rfl, rfl⟩
    · obtain ⟨content, _, rfl⟩ := mem_quotedTexts.mp isOf
      exact ⟨_, _, rfl, rfl⟩

/-! ### Each text is of one class -/

/-- The class that a first character tells; the two classes of numbers are not told apart. -/
def leading (c : Char) : Option Class :=
  if isBlank c then some .blanks
  else if c == '#' then some .comment
  else if isNameStart c then some .word
  else if c == '\x27' || c == '\x22' then some .string
  else if c.isDigit || c == '-' then some .whole
  else if isSymbol c then some .symbol
  else none

/-- The class by which a class is told from its first character. -/
def Class.family : Class → Class
  | .decimal => .whole
  | k => k

theorem isBlank_iff {c : Char} :
    isBlank c = true ↔ c = ' ' ∨ c = '\t' ∨ c = '\r' ∨ c = '\n' ∨ c = '\x0c' := by
  simp [isBlank, or_assoc]

theorem leading_of_isNameStart {c : Char} (start : isNameStart c = true) :
    leading c = some .word := by
  have notBlank : ¬ isBlank c = true := by
    rw [isBlank_iff]
    rintro (rfl | rfl | rfl | rfl | rfl) <;> cases start
  have notComment : ¬ (c == '#') = true := by
    rw [beq_iff_eq]
    rintro rfl
    cases start
  rw [leading, if_neg notBlank, if_neg notComment, if_pos start]

theorem leading_of_number {c : Char} (opens : (c.isDigit || c == '-') = true) :
    leading c = some .whole := by
  rcases Bool.or_eq_true_iff.mp opens with digit | minus
  · have notBlank : ¬ isBlank c = true := by
      rw [isBlank_iff]
      rintro (rfl | rfl | rfl | rfl | rfl) <;> cases digit
    have notComment : ¬ (c == '#') = true := by
      rw [beq_iff_eq]
      rintro rfl
      cases digit
    have notQuote : ¬ (c == '\x27' || c == '\x22') = true := by
      rw [Bool.or_eq_true_iff, beq_iff_eq, beq_iff_eq]
      rintro (rfl | rfl) <;> cases digit
    have notWord : ¬ isNameStart c = true := by
      rw [isNameStart_of_isDigit digit]
      exact Bool.false_ne_true
    rw [leading, if_neg notBlank, if_neg notComment, if_neg notWord, if_neg notQuote, if_pos opens]
  · obtain rfl := beq_iff_eq.mp minus
    rfl

theorem leading_of_opens {k : Class} {c : Char} (opens : k.opens c = true) :
    leading c = some k.family := by
  match k with
  | .blanks => exact if_pos opens
  | .comment =>
    obtain rfl := beq_iff_eq.mp opens
    rfl
  | .symbol =>
    have each : ("@%/=:,.()[]\x7b\x7d".toList.all fun c => leading c = some .symbol) = true := by
      decide
    exact of_decide_eq_true (List.all_eq_true.mp each c (List.contains_iff_mem.mp opens))
  | .word => exact leading_of_isNameStart opens
  | .whole | .decimal => exact leading_of_number opens
  | .string =>
    rcases Bool.or_eq_true_iff.mp opens with same | same
    · obtain rfl := beq_iff_eq.mp same
      rfl
    · obtain rfl := beq_iff_eq.mp same
      rfl

theorem wholeTexts_chars {text : List Char} (isWhole : text ∈ wholeTexts) :
    ∀ c ∈ text, c = '-' ∨ isDigitChar c = true := by
  obtain ⟨sign, signed, _, isRun, rfl⟩ := isWhole
  obtain ⟨d, ds, rfl, digit, inside⟩ := mem_run.mp isRun
  intro c member
  rcases List.mem_append.mp member with inSign | inDigits
  · rcases signed with rfl | ⟨m, minus, rfl⟩
    · cases inSign
    · obtain rfl := List.mem_singleton.mp inSign
      exact .inl (beq_iff_eq.mp minus)
  · rcases List.mem_cons.mp inDigits with rfl | later
    · exact .inr (isDigitChar_of_isDigit digit)
    · exact .inr (inside c later)

theorem decimalTexts_chars {text : List Char} (isDecimal : text ∈ decimalTexts) :
    ∃ c ∈ text, c = '.' ∨ c = 'e' ∨ c = 'E' := by
  obtain ⟨whole, _, _, parts, rfl⟩ := isDecimal
  rcases parts with ⟨_, ⟨_, ⟨c, point, rfl⟩, digits, _, rfl⟩, exponent, _, rfl⟩ |
    ⟨_, ⟨c, opens, rfl⟩, digits, _, rfl⟩
  · exact ⟨c, by simp, .inl (beq_iff_eq.mp point)⟩
  · exact ⟨c, by simp, .inr (by simpa [isExponentLetter] using opens)⟩

theorem not_whole_and_decimal {text : List Char} (isWhole : text ∈ wholeTexts)
    (isDecimal : text ∈ decimalTexts) : False := by
  obtain ⟨c, member, same⟩ := decimalTexts_chars isDecimal
  have inside := wholeTexts_chars isWhole c member
  rcases same with rfl | rfl | rfl <;> revert inside <;> decide

/-- No text is of two classes. -/
theorem eq_of_mem_texts {k j : Class} {text : List Char} (isOf : text ∈ k.texts)
    (isOther : text ∈ j.texts) : k = j := by
  obtain ⟨c, cs, rfl, opens⟩ := opens_of_mem_texts isOf
  obtain ⟨d, ds, same, opensOther⟩ := opens_of_mem_texts isOther
  cases same
  have family : k.family = j.family :=
    Option.some.inj ((leading_of_opens opens).symm.trans (leading_of_opens opensOther))
  by_cases whole : k = .whole ∧ j = .decimal
  · obtain ⟨rfl, rfl⟩ := whole
    exact (not_whole_and_decimal isOf isOther).elim
  by_cases decimal : k = .decimal ∧ j = .whole
  · obtain ⟨rfl, rfl⟩ := decimal
    exact (not_whole_and_decimal isOther isOf).elim
  · cases k <;> cases j <;> simp_all [Class.family]

end Lexer

end ConfigBinding
