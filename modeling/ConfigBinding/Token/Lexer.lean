import ConfigBinding.Token
import ConfigBinding.Text.Quoted

/-!
# Reading tokens

A source text is read from left to right. At each place the longest text is taken that is a run of
blanks, a comment, a mark, a name, a number or a string. These classes are told apart by their
first characters, so each of them is taken on its own.

* A comment runs from `#` to the end of the line.
* A whole number is an optional sign, a digit and further digits and underscores. It becomes a
  floating point number by a fraction, an exponent, or both; each needs at least one digit, and
  without one it is not part of the number.
* A string ends at the next quote of its own kind, does not run past its line, and takes every
  character after a backslash as it is.

Reading stops at the first place where no class fits, or where the text that fits has no value: a
whole number of more than 64 bits or a string with an unknown escape.

Results:
1. `scan_length`: a step that succeeds leaves a shorter text.
-/

namespace ConfigBinding

/-- Why a text could not be read as tokens. -/
inductive LexError.Cause
  | unterminatedString
  | numberOutOfRange
  | unknownCharacter (char : Char)
deriving DecidableEq, Repr

/-- A failure to read tokens, with the bytes that it concerns. -/
structure LexError where
  cause : LexError.Cause
  start : Nat
  stop : Nat
deriving DecidableEq, Repr

/-- The failure with its offsets as spans store them. -/
def LexError.stored (error : LexError) : LexError :=
  ⟨error.cause, storedOffset error.start, storedOffset error.stop⟩

def LexError.message (error : LexError) : String :=
  match error.cause with
  | .unterminatedString => "unterminated string literal"
  | .numberOutOfRange => "numeric literal out of range"
  | .unknownCharacter char => "invalid character sequence `" ++ String.singleton char ++ "`"

namespace Lexer

/-! ## Character classes -/

def isBlank (c : Char) : Bool :=
  c == ' ' || c == '\t' || c == '\r' || c == '\n' || c == '\x0c'

def isNameStart (c : Char) : Bool := c.isAlpha || c == '_'

def isNameChar (c : Char) : Bool := c.isAlphanum || c == '_'

/-- Digits may be grouped by underscores. -/
def isDigitChar (c : Char) : Bool := c.isDigit || c == '_'

/-! ## Numbers -/

/-- The parts of a number literal as they are written. -/
structure Numeral where
  negative : Bool
  /-- The digits before the point, with their underscores. -/
  whole : List Char
  /-- The digits after the point, with their underscores. -/
  fraction : Option (List Char)
  /-- The letter, the sign if there is one, and the digits. -/
  exponent : Option (Char × Option Char × List Char)

namespace Numeral

/-- The literal that has these parts. -/
def chars (n : Numeral) : List Char :=
  (if n.negative then ['-'] else []) ++ n.whole
    ++ (match n.fraction with
      | some digits => '.' :: digits
      | none => [])
    ++ (match n.exponent with
      | some (letter, sign, digits) => letter :: (sign.toList ++ digits)
      | none => [])

/-- The value of decimal digits; underscores are passed over. -/
def digitsValue (digits : List Char) : Nat :=
  (digits.filter (· ≠ '_')).foldl (fun value c => 10 * value + (c.toNat - '0'.toNat)) 0

/-- The power of ten that the exponent gives. -/
def exponentValue (n : Numeral) : Int :=
  match n.exponent with
  | some (_, some '-', digits) => -(digitsValue digits : Int)
  | some (_, _, digits) => digitsValue digits
  | none => 0

def isWhole (n : Numeral) : Bool := n.fraction.isNone && n.exponent.isNone

/-- The value of a numeral without fraction and exponent. -/
def intValue (n : Numeral) : Int :=
  if n.negative then -(digitsValue n.whole : Int) else digitsValue n.whole

/-- The value of any numeral, rounded to the nearest floating point number. -/
def floatValue (n : Numeral) : Binary64 :=
  let fraction := n.fraction.getD []
  Binary64.ofDecimal n.negative (digitsValue (n.whole ++ fraction))
    (n.exponentValue - (fraction.filter (· ≠ '_')).length)

/-- Whether an integer has a representation of 64 bits. -/
def fits (n : Int) : Bool :=
  decide (Int64.minValue.toInt ≤ n ∧ n ≤ Int64.maxValue.toInt)

/-- The token of a numeral; none if it is a whole number out of range. -/
def token? (n : Numeral) : Option Token :=
  if n.isWhole then
    if fits n.intValue then some (.int (Int64.ofInt n.intValue)) else none
  else some (.float n.floatValue)

end Numeral

/-- The exponent at the start of a text, and what follows it. -/
def takeExponent : List Char → Option (Char × Option Char × List Char) × List Char
  | [] => (none, [])
  | letter :: cs =>
    if letter = 'e' ∨ letter = 'E' then
      match cs with
      | [] => (none, letter :: cs)
      | sign :: ds =>
        if sign = '+' ∨ sign = '-' then
          match ds.takeWhile Char.isDigit with
          | [] => (none, letter :: cs)
          | digits => (some (letter, some sign, digits), ds.dropWhile Char.isDigit)
        else match cs.takeWhile Char.isDigit with
          | [] => (none, letter :: cs)
          | digits => (some (letter, none, digits), cs.dropWhile Char.isDigit)
    else (none, letter :: cs)

/-- The fraction at the start of a text, and what follows it. -/
def takeFraction : List Char → Option (List Char) × List Char
  | '.' :: c :: cs =>
    if c.isDigit then
      (some (c :: cs.takeWhile isDigitChar), cs.dropWhile isDigitChar)
    else (none, '.' :: c :: cs)
  | cs => (none, cs)

/-- The number at the start of a text, and what follows it. -/
def takeNumeral (cs : List Char) : Option (Numeral × List Char) :=
  let (negative, digits) := match cs with
    | '-' :: ds => (true, ds)
    | ds => (false, ds)
  match digits with
  | [] => none
  | c :: ds =>
    if c.isDigit then
      let (fraction, afterFraction) := takeFraction (ds.dropWhile isDigitChar)
      let (exponent, rest) := takeExponent afterFraction
      some (⟨negative, c :: ds.takeWhile isDigitChar, fraction, exponent⟩, rest)
    else none

/-! ## Strings -/

/-- The content of a string whose opening quote has been read, and what follows its closing
quote. -/
def takeString (quote : Char) : List Char → Option (List Char × List Char)
  | [] => none
  | c :: cs =>
    if c = quote then some ([], cs)
    else if c = '\n' then none
    else if c = '\\' then
      match cs with
      | [] => none
      | d :: ds =>
        if d = '\n' then none
        else (takeString quote ds).map fun (content, rest) => (c :: d :: content, rest)
    else (takeString quote cs).map fun (content, rest) => (c :: content, rest)

/-! ## Steps -/

/-- What stands at one place of a text. -/
inductive Scan
  /-- Blanks or a comment. -/
  | skip (taken rest : List Char)
  | token (token : Token) (taken rest : List Char)
  /-- No token; the failure concerns the characters `taken`. -/
  | failure (cause : LexError.Cause) (taken : List Char)

/-- The text at which reading goes on. -/
def Scan.rest : Scan → List Char
  | .skip _ rest => rest
  | .token _ _ rest => rest
  | .failure _ _ => []

/-- The token of a name, which may be a keyword or a constant. -/
def wordToken (word : List Char) : Token :=
  match Mark.ofWord? (String.ofList word) with
  | some m => .mark m
  | none => .ident (String.ofList word)

/-- The string that starts with the given quote. A string that is not closed on its line, or that
cannot be decoded, is reported up to the end of the line. -/
def scanString (quote : Char) (cs : List Char) : Scan :=
  let failure := .failure .unterminatedString (quote :: cs.takeWhile (· ≠ '\n'))
  match takeString quote cs with
  | none => failure
  | some (content, rest) =>
    match Text.Quoted.decode content with
    | none => failure
    | some text => .token (.str (String.ofList text)) (quote :: content ++ [quote]) rest

/-- The number or the lone mark that starts with the given character. -/
def scanNumber (c : Char) (cs : List Char) : Scan :=
  match takeNumeral (c :: cs) with
  | none => .failure (.unknownCharacter c) [c]
  | some (numeral, rest) =>
    match numeral.token? with
    | none => .failure .numberOutOfRange numeral.chars
    | some token => .token token numeral.chars rest

/-- One step at a place where `c` is the next character. -/
def scan (c : Char) (cs : List Char) : Scan :=
  if isBlank c then .skip (c :: cs.takeWhile isBlank) (cs.dropWhile isBlank)
  else if c = '#' then .skip (c :: cs.takeWhile (· ≠ '\n')) (cs.dropWhile (· ≠ '\n'))
  else if isNameStart c then
    .token (wordToken (c :: cs.takeWhile isNameChar)) (c :: cs.takeWhile isNameChar)
      (cs.dropWhile isNameChar)
  else if c = '\x27' ∨ c = '\x22' then scanString c cs
  else if c.isDigit ∨ c = '-' then scanNumber c cs
  else match Mark.ofChar? c with
    | some m => .token (.mark m) [c] cs
    | none => .failure (.unknownCharacter c) [c]

/-- The tokens of a text that starts at `offset`. Each step takes a character, so `fuel` steps
suffice for a text of that length. -/
def tokensFrom : Nat → Nat → List Char → Except LexError (List Lexeme)
  | _, _, [] => .ok []
  | 0, _, _ :: _ => .ok []
  | fuel + 1, offset, c :: cs =>
    match scan c cs with
    | .skip taken rest => tokensFrom fuel (offset + byteSize taken) rest
    | .token token taken rest =>
      let stop := offset + byteSize taken
      match tokensFrom fuel stop rest with
      | .ok lexemes => .ok (⟨token, offset, stop⟩ :: lexemes)
      | .error error => .error error
    | .failure cause taken => .error ⟨cause, offset, offset + byteSize taken⟩

end Lexer

/-- The tokens of a source text, or the first failure. -/
def tokenize (text : String) : Except LexError (List Lexeme) :=
  Lexer.tokensFrom text.toList.length 0 text.toList

namespace Lexer

theorem dropWhile_length (p : Char → Bool) (cs : List Char) :
    (cs.dropWhile p).length ≤ cs.length :=
  (List.dropWhile_suffix p).length_le

theorem takeExponent_length (cs : List Char) : (takeExponent cs).2.length ≤ cs.length := by
  unfold takeExponent
  split
  · exact Nat.le_refl _
  · rename_i letter cs
    split
    · split
      · exact Nat.le_refl _
      · rename_i sign ds
        have after := dropWhile_length Char.isDigit ds
        have whole := dropWhile_length Char.isDigit (sign :: ds)
        split <;> split <;> simp_all <;> omega
    · exact Nat.le_refl _

theorem takeFraction_length (cs : List Char) : (takeFraction cs).2.length ≤ cs.length := by
  unfold takeFraction
  split
  · rename_i c cs
    have after := dropWhile_length isDigitChar cs
    split
    · simp
      omega
    · simp
  · exact Nat.le_refl _

theorem takeNumeral_length {cs rest : List Char} {numeral : Numeral}
    (taken : takeNumeral cs = some (numeral, rest)) : rest.length < cs.length := by
  have body : ∀ (negative : Bool) (digits : List Char),
      (match digits with
        | [] => none
        | c :: ds =>
          if c.isDigit then
            some ((⟨negative, c :: ds.takeWhile isDigitChar,
              (takeFraction (ds.dropWhile isDigitChar)).1,
              (takeExponent (takeFraction (ds.dropWhile isDigitChar)).2).1⟩ : Numeral),
              (takeExponent (takeFraction (ds.dropWhile isDigitChar)).2).2)
          else none) = some (numeral, rest) → rest.length < digits.length := by
    intro negative digits found
    cases digits with
    | nil => simp at found
    | cons c ds =>
      have one := dropWhile_length isDigitChar ds
      have two := takeFraction_length (ds.dropWhile isDigitChar)
      have three := takeExponent_length (takeFraction (ds.dropWhile isDigitChar)).2
      simp only at found
      split at found
      · simp only [Option.some.injEq, Prod.mk.injEq] at found
        rw [← found.2, List.length_cons]
        omega
      · simp at found
  unfold takeNumeral at taken
  split at taken
  rename_i negative digits start
  split at start
  · cases start
    have shorter := body _ _ taken
    simp only [List.length_cons]
    omega
  · cases start
    exact body _ _ taken

theorem takeString_length {quote : Char} {cs content rest : List Char}
    (taken : takeString quote cs = some (content, rest)) : rest.length < cs.length := by
  fun_induction takeString quote cs generalizing content rest with
  | case1 => simp at taken
  | case2 =>
    simp only [Option.some.injEq, Prod.mk.injEq] at taken
    simp [taken.2]
  | case3 => simp at taken
  | case4 => simp at taken
  | case5 => simp at taken
  | case6 _ d ds _ _ ih =>
    obtain ⟨⟨inner, more⟩, found, same⟩ := Option.map_eq_some_iff.1 taken
    simp only [Prod.mk.injEq] at same
    have shorter := ih found
    simp only [← same.2, List.length_cons]
    omega
  | case7 c cs _ _ _ ih =>
    obtain ⟨⟨inner, more⟩, found, same⟩ := Option.map_eq_some_iff.1 taken
    simp only [Prod.mk.injEq] at same
    have shorter := ih found
    simp only [← same.2, List.length_cons]
    omega

theorem scanString_length (quote : Char) (cs : List Char) :
    (scanString quote cs).rest.length ≤ cs.length := by
  unfold scanString
  cases found : takeString quote cs with
  | none => simp [Scan.rest]
  | some pair =>
    have shorter := takeString_length found
    cases decoded : Text.Quoted.decode pair.1 with
    | none => simp [decoded, Scan.rest]
    | some text =>
      simp only [decoded, Scan.rest]
      omega

theorem scanNumber_length (c : Char) (cs : List Char) :
    (scanNumber c cs).rest.length ≤ cs.length := by
  unfold scanNumber
  cases found : takeNumeral (c :: cs) with
  | none => simp [Scan.rest]
  | some pair =>
    have shorter := takeNumeral_length found
    rw [List.length_cons] at shorter
    cases value : pair.1.token? with
    | none => simp [value, Scan.rest]
    | some token =>
      simp only [value, Scan.rest]
      omega

theorem scan_length (c : Char) (cs : List Char) : (scan c cs).rest.length ≤ cs.length := by
  unfold scan
  split
  · exact dropWhile_length ..
  split
  · exact dropWhile_length ..
  split
  · exact dropWhile_length ..
  split
  · exact scanString_length c cs
  split
  · exact scanNumber_length c cs
  cases Mark.ofChar? c with
  | none => simp [Scan.rest]
  | some m => simp [Scan.rest]

end Lexer

end ConfigBinding
