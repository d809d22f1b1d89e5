import ConfigBinding.Proofs.Lexing.Tokenization

/-!
# Reports of a failure

What a text that cannot be read is reported for is told by the characters at which reading is stuck,
without reading them: a string that is not closed or that has an unknown escape, a whole number out
of range, or a character that begins nothing. Each of them excludes the others, so a report tells
what it stands for.

Results:
1. `Blames.unique`: at most one report fits what is left to be read.
2. `blames_of_scan`: the report of a step that fails does.
3. `tokenize_eq_error_iff`: a text is reported for what it has where reading is stuck.
-/

namespace ConfigBinding

namespace Lexer

/-! ## What is blamed -/

/-- A quote opens the text that is not closed on its line: no text of the form
`q([^q\\\n]|\\.)*q` begins here. -/
def Unclosed (text : List Char) : Prop :=
  ∃ quote cs, IsQuote quote ∧ text = quote :: cs ∧ ∀ literal ∈ quotedTexts quote, ¬ literal <+: text

/-- A string that is closed on its line begins the text, and it has an unknown escape. -/
def Misescaped (text : List Char) : Prop :=
  ∃ quote content, IsQuote quote ∧ content ∈ contentTexts quote ∧
    quote :: (content ++ [quote]) <+: text ∧ ∀ meaning, ¬ Unescapes content meaning

/-- The integer has a representation of 64 bits. -/
def InRange (value : Int) : Prop := -2 ^ 63 ≤ value ∧ value < 2 ^ 63

/-- `Blames text cause taken`: a text that cannot be read is reported for the cause, and the report
concerns the characters `taken`.
* A string that cannot be read is blamed with the rest of its line, also if it is closed.
* A whole number that is out of range is blamed as it stands. There is no such case for decimals.
* Any other character that no text of a class begins with is blamed alone. -/
inductive Blames (text : List Char) : LexError.Cause → List Char → Prop
  | string : Unclosed text ∨ Misescaped text →
      Blames text .unterminatedString (text.takeWhile (· ≠ '\n'))
  | number {literal : List Char} : Longest .whole literal text → ¬ InRange (decimalValue literal) →
      Blames text .numberOutOfRange literal
  | unknown {c : Char} {cs : List Char} : text = c :: cs → ¬ IsQuote c →
      (∀ (k : Class) (word : List Char), word ∈ k.texts → ¬ word <+: text) →
      Blames text (.unknownCharacter c) [c]

theorem Unclosed.not_misescaped {text : List Char} (unclosed : Unclosed text) :
    ¬ Misescaped text := by
  obtain ⟨quote, cs, _, rfl, none⟩ := unclosed
  rintro ⟨other, content, _, isContent, starts, _⟩
  obtain ⟨rfl, _⟩ := List.cons_prefix_cons.mp starts
  exact none _ (mem_quotedTexts.mpr ⟨content, isContent, rfl⟩) starts

section

variable {c : Char} {cs : List Char}

theorem isQuote_of_unclosed_or_misescaped (either : Unclosed (c :: cs) ∨ Misescaped (c :: cs)) :
    IsQuote c := by
  rcases either with ⟨_, _, quotes, same, _⟩ | ⟨_, _, quotes, _, starts, _⟩
  · cases same
    exact quotes
  · obtain ⟨rfl, _⟩ := List.cons_prefix_cons.mp starts
    exact quotes

/-- A text of a class that begins with a quote is a string of this quote. -/
theorem mem_quotedTexts_of_starts (quotes : IsQuote c) {k : Class} {word : List Char}
    (isOf : word ∈ k.texts) (starts : word <+: c :: cs) : word ∈ quotedTexts c := by
  obtain ⟨content, _, taken, rfl⟩ := takeString_of_class quotes isOf starts
  exact mem_quotedTexts.mpr ⟨content, (content_of_takeString taken).1, rfl⟩

end

section

variable {text taken : List Char} {cause : LexError.Cause}

/-- Where something is blamed, reading is stuck. -/
theorem Blames.stuck (blames : Blames text cause taken) : Stuck text := by
  cases blames with
  | string either =>
    rcases either with ⟨quote, cs, quotes, rfl, none⟩ |
      ⟨quote, content, quotes, isContent, starts, none⟩
    · exact .unmatched nofun fun k word isOf starts =>
        none word (mem_quotedTexts_of_starts quotes isOf starts) starts
    · have isString := mem_quotedTexts.mpr ⟨content, isContent, rfl⟩
      obtain ⟨rest, rfl⟩ := starts
      refine .unconverted (longest_of_quotedTexts quotes isString ⟨rest, rfl⟩) rfl
        fun token denotes => ?_
      generalize written : quote :: (content ++ [quote]) = literal at denotes
      cases denotes with
      | string unescapes =>
        obtain ⟨rfl, same⟩ := List.cons_eq_cons.mp written
        obtain rfl := List.append_cancel_right same
        exact none _ unescapes
  | number longest outside =>
    exact .unconverted longest rfl fun token denotes =>
      outside (denotes_whole_iff.mp ⟨token, denotes⟩)
  | unknown some _ none => exact .unmatched (some ▸ nofun) none

/-- What is blamed is the start of what is left to be read. -/
theorem Blames.starts (blames : Blames text cause taken) : taken <+: text := by
  cases blames with
  | string => exact List.takeWhile_prefix _
  | number longest => exact longest.starts
  | @unknown c cs same => exact ⟨cs, same.symm⟩

/-- A text has one report at most. -/
theorem Blames.unique {other : LexError.Cause} {also : List Char} (blames : Blames text cause taken)
    (second : Blames text other also) : cause = other ∧ taken = also := by
  have apart {literal : List Char} (either : Unclosed text ∨ Misescaped text)
      (longest : Longest .whole literal text) : False := by
    obtain ⟨c, cs, rfl⟩ := exists_cons_of_longest longest
    obtain ⟨rest, rfl⟩ := longest.starts
    have opens := opens_of_starts longest.isOf longest.starts
    rcases isQuote_of_unclosed_or_misescaped either with rfl | rfl <;> cases opens
  cases blames with
  | string either =>
    cases second with
    | string _ => exact ⟨rfl, rfl⟩
    | number longest _ => exact (apart either longest).elim
    | unknown same plain _ =>
      subst same
      exact absurd (isQuote_of_unclosed_or_misescaped either) plain
  | number longest _ =>
    cases second with
    | string either => exact (apart either longest).elim
    | number longestAlso _ => exact ⟨rfl, (longest.unique longestAlso).2⟩
    | unknown _ _ none => exact absurd longest.starts (none _ _ longest.isOf)
  | unknown same plain none =>
    subst same
    cases second with
    | string either => exact absurd (isQuote_of_unclosed_or_misescaped either) plain
    | number longest _ => exact absurd longest.starts (none _ _ longest.isOf)
    | unknown same _ _ =>
      cases same
      exact ⟨rfl, rfl⟩

end

/-! ## What a step reports -/

section

variable {c : Char} {cs taken : List Char} {cause : LexError.Cause}

/-- Reading is stuck at a quote if the string is not closed, or if it has an unknown escape. -/
theorem unclosed_or_misescaped (quotes : IsQuote c) (stuck : Stuck (c :: cs)) :
    Unclosed (c :: cs) ∨ Misescaped (c :: cs) := by
  cases stuck with
  | unmatched _ none =>
    exact .inl ⟨c, cs, quotes, rfl, fun literal isString =>
      none .string literal (mem_texts_of_quotedTexts quotes isString)⟩
  | @unconverted k word longest _ none =>
    obtain rfl : k = .string := alone_of_ne_whole (k := .string) nofun k
      (family_of_starts (opens_of_isQuote quotes) longest.isOf longest.starts)
    obtain ⟨content, isContent, rfl⟩ :=
      mem_quotedTexts.mp (mem_quotedTexts_of_starts quotes longest.isOf longest.starts)
    exact .inr ⟨c, content, quotes, isContent, longest.starts,
      fun _ unescapes => none _ (.string unescapes)⟩

theorem blames_of_scanString (quotes : IsQuote c)
    (failed : scanString c cs = .failure cause taken) : Blames (c :: cs) cause taken := by
  have stuck : Stuck (c :: cs) := by
    have explained : (scanString c cs).Explains (c :: cs) := scanString_explained quotes
    rw [failed] at explained
    exact explained
  have reported : cause = .unterminatedString ∧ taken = c :: cs.takeWhile (· ≠ '\n') := by
    unfold scanString at failed
    split at failed
    · cases failed
      exact ⟨rfl, rfl⟩
    · split at failed <;> cases failed
      exact ⟨rfl, rfl⟩
  have line : (c :: cs).takeWhile (· ≠ '\n') = c :: cs.takeWhile (· ≠ '\n') := by
    rcases quotes with rfl | rfl <;> rfl
  rw [reported.1, reported.2, ← line]
  exact .string (unclosed_or_misescaped quotes stuck)

theorem blames_of_scanNumber (opens : (c.isDigit || c == '-') = true)
    (failed : scanNumber c cs = .failure cause taken) : Blames (c :: cs) cause taken := by
  unfold scanNumber at failed
  split at failed
  · rename_i none
    cases failed
    have plain : ¬ IsQuote c := by
      rintro (rfl | rfl) <;> cases opens
    refine .unknown rfl plain fun k word isOf starts => ?_
    obtain ⟨_, _, found, _⟩ := takeNumeral_of_class opens isOf starts
    cases found.symm.trans none
  · rename_i n rest found
    split at failed
    · rename_i none
      cases failed
      have longest := longest_of_takeNumeral opens found
      obtain ⟨isWhole, outside⟩ : n.isWhole = true ∧ ¬ Numeral.fits n.intValue = true := by
        unfold Numeral.token? at none
        split at none
        · rename_i isWhole
          split at none
          · cases none
          · exact ⟨isWhole, ‹_›⟩
        · cases none
      rw [Numeral.class, if_pos isWhole] at longest
      refine .number longest fun inside => outside (fits_iff.mpr ?_)
      rwa [InRange, decimalValue_chars (formed_of_takeNumeral found) isWhole] at inside
    · cases failed

/-- A step that fails reports what stands there. -/
theorem blames_of_scan (failed : scan c cs = .failure cause taken) :
    Blames (c :: cs) cause taken := by
  unfold scan at failed
  split at failed
  · cases failed
  rename_i blank
  split at failed
  · cases failed
  rename_i comment
  split at failed
  · cases failed
  rename_i start
  split at failed
  · exact blames_of_scanString ‹_› failed
  rename_i plain
  split at failed
  · rename_i number
    exact blames_of_scanNumber (by simpa using number) failed
  rename_i number
  split at failed
  · cases failed
  · rename_i unmarked
    cases failed
    exact .unknown rfl plain fun k word =>
      not_starts_of_unread blank comment start plain number unmarked

end

end Lexer

/-- A text that cannot be read is reported for what it has where reading is stuck. -/
theorem tokenize_eq_error_iff {text : String} {error : LexError} :
    tokenize text = .error error ↔
      ∃ lexemes left taken, Lexer.Munches 0 text.toList lexemes error.start left ∧
        Lexer.Blames left error.cause taken ∧ error.stop = error.start + byteSize taken := by
  constructor
  · intro failed
    obtain ⟨lexemes, left, munches, stuck⟩ := tokenize_fails_iff.mp ⟨error, failed, rfl⟩
    obtain ⟨c, cs, cause, taken, rfl, step, also⟩ := tokenize_of_stuck munches stuck
    have same : error = ⟨cause, error.start, error.start + byteSize taken⟩ :=
      Except.error.inj (failed.symm.trans also)
    refine ⟨lexemes, c :: cs, taken, munches, ?_, congrArg LexError.stop same⟩
    rw [congrArg LexError.cause same]
    exact Lexer.blames_of_scan step
  · rintro ⟨lexemes, left, taken, munches, blames, stop⟩
    obtain ⟨c, cs, cause, also, rfl, step, failed⟩ := tokenize_of_stuck munches blames.stuck
    obtain ⟨rfl, rfl⟩ := blames.unique (Lexer.blames_of_scan step)
    rw [failed, ← stop]

end ConfigBinding
