import ConfigBinding.Proofs.FloatRange
import ConfigBinding.Proofs.Lexing.Failures
import ConfigBinding.Proofs.Lexing.Slices
import Mathlib.Tactic.FieldSimp

/-!
# Numbers out of range

A whole number is read if 64 bits can hold its value. If they cannot, this is where the text fails,
with a report of the literal.

Decimals have no such check. Their value is rounded to a floating point number, which is infinity
from half a unit above the greatest finite one on, and reading goes on behind them. Infinity is
written as a name, so it is not read back.

Results:
1. `capped_floatValue`: which decimals are read as infinity.
2. `tokenize_number_range`: the numbers of a text that can be read, the report of a whole number,
   and how decimals are passed.
3. `tokenize_infinite`: a decimal that is too large is accepted, and not read back.
-/

namespace ConfigBinding

namespace Lexer

/-! ## The value of a decimal -/

namespace Numeral

/-- The number that is written, without the sign. -/
def magnitude (n : Numeral) : ℚ :=
  let fraction := n.fraction.getD []
  (digitsValue n.whole + digitsValue fraction / 10 ^ (fraction.filter (· ≠ '_')).length) *
    10 ^ n.exponentValue

theorem digitsValue_append (digits more : List Char) :
    digitsValue (digits ++ more) =
      10 ^ (more.filter (· ≠ '_')).length * digitsValue digits + digitsValue more := by
  rw [digitsValue_eq, List.filter_append, Nat.ofDigitChars_append,
    Nat.ofDigitChars_eq_ofDigitChars_zero]
  rfl

/-- The digits as an integer, and the power of ten that counts those behind the point. -/
theorem magnitude_eq (n : Numeral) :
    n.magnitude = digitsValue (n.whole ++ n.fraction.getD []) *
      10 ^ (n.exponentValue - ((n.fraction.getD []).filter (· ≠ '_')).length) := by
  have ten : (10 : ℚ) ≠ 0 := by norm_num
  unfold magnitude
  dsimp only
  rw [digitsValue_append, zpow_sub₀ ten, zpow_natCast]
  push_cast
  field_simp

end Numeral

/-- A decimal is read as infinity if it is half a unit above the greatest finite number, or more. -/
theorem capped_floatValue (n : Numeral) :
    Binary64.Capped n.negative n.magnitude n.floatValue := by
  rw [n.magnitude_eq]
  exact Binary64.capped_ofDecimal ..

/-! ## Decimals in a text -/

theorem exists_numeral_of_decimalTexts {literal : List Char} (isDecimal : literal ∈ decimalTexts) :
    ∃ n : Numeral, n.Formed ∧ n.chars = literal := by
  obtain ⟨n, rest, taken, long⟩ := longest_numeral (.inr isDecimal) (List.prefix_refl literal)
  refine ⟨n, formed_of_takeNumeral taken, ?_⟩
  have whole := takeNumeral_chars taken
  exact List.IsPrefix.eq_of_length_le ⟨rest, whole⟩ long

/-- A reading goes on where it stopped. -/
theorem Munches.append {offset stop last : Nat} {text left rest : List Char}
    {lexemes more : List Lexeme} (munches : Munches offset text lexemes stop left)
    (others : Munches stop left more last rest) :
    Munches offset text (lexemes ++ more) last rest := by
  induction munches with
  | refl => exact others
  | skip longest skipped _ ih => exact .skip longest skipped (ih others)
  | token longest notSkipped denotes _ ih => exact .token longest notSkipped denotes (ih others)

/-- A text has the lexemes of a reading that goes some way, or it fails behind them. -/
theorem Munches.ok_or_error {text : String} {lexemes : List Lexeme} {stop : Nat} {left : List Char}
    (munches : Munches 0 text.toList lexemes stop left) :
    (∃ more, tokenize text = .ok (lexemes ++ more)) ∨
      ∃ error, tokenize text = .error error ∧ stop ≤ error.start := by
  obtain ⟨fuel, enough, same⟩ := munches.tokensFrom (Nat.le_refl _)
  rw [tokenize, same]
  cases reads : Lexer.tokensFrom fuel stop left with
  | ok more => exact .inl ⟨more, rfl⟩
  | error error =>
    obtain ⟨_, _, behind, _⟩ := (munches_of_tokensFrom stop enough).2 error reads
    obtain ⟨taken, _, start, _⟩ := behind.truncate
    exact .inr ⟨error, rfl, by omega⟩

end Lexer

/-- The range of whole numbers is checked, and that of decimals is not.
* An integer of a text that can be read has the value of its literal.
* A floating point number of such a text has a decimal as its literal. It is finite if the decimal
  is less than half a unit above the greatest finite number, and infinity otherwise.
* A text is reported for a number out of range if reading is stuck at a whole number that 64 bits
  cannot hold, and in no other case. The report concerns the literal.
* A decimal is a lexeme of the text whatever its size, or the text fails behind it. -/
theorem tokenize_number_range (text : String) :
    (∀ lexemes, tokenize text = .ok lexemes → ∀ lexeme ∈ lexemes,
      (∀ value, lexeme.token = .int value → ∃ literal ∈ Lexer.wholeTexts,
        Lexer.Cut text.toList lexeme.start lexeme.stop literal ∧
          value.toInt = Lexer.decimalValue literal) ∧
      ∀ x, lexeme.token = .float x → ∃ n : Lexer.Numeral, n.Formed ∧
        n.chars ∈ Lexer.decimalTexts ∧ Lexer.Cut text.toList lexeme.start lexeme.stop n.chars ∧
          (x.isFinite = true ↔ n.magnitude < Binary64.overflow) ∧
          (Binary64.overflow ≤ n.magnitude → x = Binary64.infinity n.negative)) ∧
    (∀ place stop, tokenize text = .error ⟨.numberOutOfRange, place, stop⟩ ↔
      ∃ lexemes left literal, Lexer.Munches 0 text.toList lexemes place left ∧
        Lexer.Longest .whole literal left ∧ ¬ Lexer.InRange (Lexer.decimalValue literal) ∧
          stop = place + byteSize literal) ∧
    ∀ lexemes place left literal, Lexer.Munches 0 text.toList lexemes place left →
      Lexer.Longest .decimal literal left →
        (∃ x more, tokenize text =
          .ok (lexemes ++ ⟨.float x, place, place + byteSize literal⟩ :: more)) ∨
        ∃ error, tokenize text = .error error ∧ place + byteSize literal ≤ error.start := by
  refine ⟨fun lexemes read lexeme member => ?_, fun place stop => ?_,
    fun lexemes place left literal munches longest => ?_⟩
  · obtain ⟨piece, cut, k, _, isOf, denotes⟩ := (covers_of_tokenize read).sliced lexeme member
    refine ⟨fun value isInt => ?_, fun x isFloat => ?_⟩
    · rw [isInt] at denotes
      cases denotes with
      | whole same => exact ⟨piece, isOf, cut, same⟩
    · rw [isFloat] at denotes
      cases denotes with
      | @decimal n _ formed chars =>
        subst chars
        have capped := Lexer.capped_floatValue n
        exact ⟨n, formed, isOf, cut, capped.isFinite_iff, capped.infinite⟩
  · rw [tokenize_eq_error_iff]
    constructor
    · rintro ⟨lexemes, left, taken, munches, blames, size⟩
      cases blames with
      | number longest outside => exact ⟨lexemes, left, taken, munches, longest, outside, size⟩
    · rintro ⟨lexemes, left, literal, munches, longest, outside, size⟩
      exact ⟨lexemes, left, literal, munches, .number longest outside, size⟩
  · obtain ⟨rest, rfl⟩ := longest.starts
    obtain ⟨n, formed, chars⟩ := Lexer.exists_numeral_of_decimalTexts longest.isOf
    have next := munches.append (.token longest rfl (.decimal formed chars) (.refl _ rest))
    rcases next.ok_or_error with ⟨more, read⟩ | failed
    · rw [List.append_assoc] at read
      exact .inl ⟨_, more, read⟩
    · exact .inr failed

/-- The decimal is accepted, as a number that is not finite and that is written as a name. -/
theorem tokenize_infinite :
    tokenize "A = 1e999" = .ok [⟨.ident "A", 0, 1⟩, ⟨.mark .equals, 2, 3⟩,
        ⟨.float (Binary64.infinity false), 4, 9⟩] ∧
      (Binary64.infinity false).isFinite = false ∧
      tokenize (Binary64.infinity false).toText = .ok [⟨.ident "inf", 0, 3⟩] := by
  decide

end ConfigBinding
