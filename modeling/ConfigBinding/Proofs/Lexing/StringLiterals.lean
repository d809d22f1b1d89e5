import ConfigBinding.Proofs.Lexing.Failures
import ConfigBinding.Proofs.Lexing.Lines

/-!
# Where strings end

A string that is written as a literal ends at the closing quote of the literal, whatever it has in
it and whatever stands behind it: no content can close the literal early or reach past it.

A string that is read has to be closed on its line and may have known escapes only. Where one of the
two fails the whole text does, and both failures are reported in the same way, up to the end of the
line. So a report of a string that is not closed can concern one that is, with an unknown escape.

Results:
1. `tokenize_quote_first`: a literal, and then what stands behind it.
2. `tokenize_string_failure`: which failures are reported as those of a string that is not closed.
3. `tokenize_closed_string`: one of them is about a string that is closed.
-/

namespace ConfigBinding

namespace Lexer

/-! ## Literals as they are written -/

theorem tokenize_quote_append (text rest : String) :
    tokenize (Text.Quoted.quote text ++ rest) =
      follow (.ok [⟨.str text, 0, byteSize (Text.Quoted.quote text).toList⟩])
        (ahead (byteSize (Text.Quoted.quote text).toList) (tokenize rest)) := by
  have whole : (Text.Quoted.quote text ++ rest).toList =
      '\x27' :: (Text.Quoted.encode text.toList ++ '\x27' :: rest.toList) := by
    simp [Text.Quoted.quote]
  have literal : (Text.Quoted.quote text).toList =
      '\x27' :: Text.Quoted.encode text.toList ++ ['\x27'] := String.toList_ofList
  rw [tokenize_eq_tokensAt, tokenize_eq_tokensAt, whole, tokensAt_cons, scan_quote, literal]
  simp only [← tokensAt_ahead, Nat.zero_add]

end Lexer

/-- A string is read back from its literal, and what stands behind the literal reads as it does
alone, only further on.
* If the rest can be read, its tokens follow that of the string, which has the bytes of the literal.
* If the rest cannot be read, its failure is reported behind these bytes. -/
theorem tokenize_quote_first (text rest : String) :
    let literal := Text.Quoted.quote text
    let size := byteSize literal.toList
    (∀ lexemes, tokenize rest = .ok lexemes →
      tokenize (literal ++ rest) = .ok (⟨.str text, 0, size⟩ :: lexemes.map (Lexeme.ahead size))) ∧
    ∀ error, tokenize rest = .error error →
      tokenize (literal ++ rest) = .error (error.ahead size) := by
  intro literal size
  have whole := Lexer.tokenize_quote_append text rest
  refine ⟨fun lexemes read => ?_, fun error failed => ?_⟩
  · rw [whole, read]
    rfl
  · rw [whole, failed]
    rfl

/-- A text that cannot be read fails where the characters `left` are still to be read.
* The report is that of a string that is not closed if a string begins here that is not closed on
  its line, or one that is closed and has an unknown escape, and in no other case.
* The two cases exclude each other.
* Such a report runs from the quote to the end of the line. -/
theorem tokenize_string_failure {text : String} {error : LexError}
    (failed : tokenize text = .error error) :
    ∃ before left, text.toList = before ++ left ∧ error.start = byteSize before ∧
      (error.cause = .unterminatedString ↔ Lexer.Unclosed left ∨ Lexer.Misescaped left) ∧
      (Lexer.Unclosed left → ¬ Lexer.Misescaped left) ∧
      (error.cause = .unterminatedString →
        error.stop = error.start + byteSize (left.takeWhile (· ≠ '\n'))) := by
  obtain ⟨lexemes, left, taken, munches, blames, stop⟩ := tokenize_eq_error_iff.mp failed
  obtain ⟨before, whole, start, _⟩ := munches.truncate
  rw [Nat.zero_add] at start
  refine ⟨before, left, whole, start, ⟨fun cause => ?_, fun either => ?_⟩,
    Lexer.Unclosed.not_misescaped, fun cause => ?_⟩
  · rw [cause] at blames
    cases blames with
    | string either => exact either
  · exact (blames.unique (.string either)).1
  · rw [cause] at blames
    cases blames with
    | string _ => exact stop

/-- The string on the first line is not closed there: the second quote of its kind is escaped, and
the next one is on another line. -/
theorem tokenize_string_failure_line :
    tokenize "A = 'it\\'s \"so\"\nB = '" = .error ⟨.unterminatedString, 4, 15⟩ ∧
      ∃ before left, "A = 'it\\'s \"so\"\nB = '".toList = before ++ left ∧
        byteSize before = 4 ∧ (Lexer.Unclosed left ∨ Lexer.Misescaped left) ∧
        byteSize (left.takeWhile (· ≠ '\n')) = 11 := by
  have failed : tokenize "A = 'it\\'s \"so\"\nB = '" = .error ⟨.unterminatedString, 4, 15⟩ := by
    decide +kernel
  obtain ⟨before, left, whole, start, which, _, line⟩ := tokenize_string_failure failed
  exact ⟨failed, before, left, whole, start.symm, which.mp rfl, Nat.add_left_cancel (line rfl).symm⟩

/-- The string is closed on its line, with an escape that is unknown. It is reported as one that is
not closed. -/
theorem tokenize_closed_string :
    tokenize "A = 'a\\q'" = .error ⟨.unterminatedString, 4, 9⟩ ∧
      ∃ before left, "A = 'a\\q'".toList = before ++ left ∧ byteSize before = 4 ∧
        ¬ Lexer.Unclosed left := by
  refine ⟨by decide +kernel, ['A', ' ', '=', ' '], ['\x27', 'a', '\\', 'q', '\x27'],
    by decide, by decide, ?_⟩
  have taken : Lexer.takeString '\x27' ['a', '\\', 'q', '\x27'] = some (['a', '\\', 'q'], []) := by
    decide
  have closed := Lexer.mem_quotedTexts.mpr ⟨_, (Lexer.content_of_takeString taken).1, rfl⟩
  rintro ⟨quote, cs, _, same, none⟩
  obtain ⟨rfl, _⟩ := List.cons.inj same
  exact none _ closed (List.prefix_refl _)

end ConfigBinding
