import ConfigBinding.Proofs.Lexing.Failures
import ConfigBinding.Proofs.Lexing.Lines
import ConfigBinding.Proofs.SourceSpans

/-!
# Stored spans

The parser stores the offsets of spans in 32 bits. In a text of less than 4 GiB they are all exact:
tokens and failures end within the text. So such a text reads the same with stored offsets as with
exact ones, whatever comes of it, and what is proved of spans holds of those that are stored.

In a longer text they are not faithful. `2^32` bytes of blanks leave the spans of what stands behind
them as they were, and so these spans are those of blanks.

Results:
1. `readStored_eq`: below 4 GiB stored offsets are exact.
2. `Statement.parseStored_spans`: the stored spans of a source that is read.
3. `readStored_behindBlanks`, `Statement.parseStored_wraps`: from there on they are not.
-/

namespace ConfigBinding

open Grammar

/-! ## Offsets within a text -/

section

variable {text : String}

theorem bounds_of_tokenize {lexemes : List Lexeme} (read : tokenize text = .ok lexemes) :
    ∀ l ∈ lexemes, l.start ≤ l.stop ∧ l.stop ≤ byteSize text.toList := by
  have covers := covers_of_tokenize read
  intro l member
  obtain ⟨piece, cut, _⟩ := covers.sliced l member
  exact ⟨(covers.nonempty l member).le, cut.stop_le⟩

theorem bounds_of_tokenize_error {error : LexError} (failed : tokenize text = .error error) :
    error.start ≤ error.stop ∧ error.stop ≤ byteSize text.toList := by
  obtain ⟨_, left, taken, munches, blames, stop⟩ := tokenize_eq_error_iff.mp failed
  obtain ⟨passed, whole, start, _⟩ := munches.truncate
  obtain ⟨rest, rfl⟩ := blames.starts
  rw [Nat.zero_add] at start
  have cut : Lexer.Cut text.toList error.start error.stop taken :=
    ⟨passed, rest, whole, start, stop⟩
  exact ⟨stop ▸ Nat.le_add_right .., cut.stop_le⟩

/-! ## Texts of less than 4 GiB -/

variable (short : byteSize text.toList < UInt32.size)

include short

theorem stored_of_tokenize {lexemes : List Lexeme} (read : tokenize text = .ok lexemes) :
    lexemes.map Lexeme.stored = lexemes := by
  refine (List.map_congr_left fun l member => ?_).trans lexemes.map_id
  obtain ⟨before, within⟩ := bounds_of_tokenize read l member
  rw [Lexeme.stored, storedOffset_of_lt (before.trans_lt (within.trans_lt short)),
    storedOffset_of_lt (within.trans_lt short)]
  rfl

theorem stored_of_tokenize_error {error : LexError} (failed : tokenize text = .error error) :
    error.stored = error := by
  obtain ⟨before, within⟩ := bounds_of_tokenize_error failed
  rw [LexError.stored, storedOffset_of_lt (before.trans_lt (within.trans_lt short)),
    storedOffset_of_lt (within.trans_lt short)]

/-- Below 4 GiB a text is read as with exact offsets, and fails as with exact offsets. -/
theorem readStored_eq {α : Type} (file : Nat) (read : List Lexeme → Except SyntaxError α) :
    SyntaxError.readStored file text read =
      match tokenize text with
      | .error error => .error (.ofLexError file error)
      | .ok lexemes => read lexemes := by
  unfold SyntaxError.readStored
  cases tokens : tokenize text with
  | error error => simp only [stored_of_tokenize_error short tokens]
  | ok lexemes => simp only [stored_of_tokenize short tokens]

theorem Statement.parseStored_eq (file : Nat) : parseStored file text = parseSource file text :=
  readStored_eq short file _

theorem Statement.parseStoredAssignment_eq (file : Nat) :
    parseStoredAssignment file text = parseAssignmentText file text :=
  readStored_eq short file _

theorem Expr.parseStored_eq (file : Nat) : parseStored file text = parse file text :=
  readStored_eq short file _

end

/-! ## Spans -/

namespace Statement

/-- The spans of a source of less than 4 GiB that is read as statements.
* The statements follow each other, and every token lies in one of them.
* The slice of a statement reads as this statement alone.
* The value of a statement lies in the statement, and the values in it are nested.
* The slice of a value that is written as one, at any depth, reads as this value. -/
theorem parseStored_spans {file : Nat} {text : String} {statements : List Statement}
    (short : byteSize text.toList < UInt32.size)
    (read : parseStored file text = .ok statements) :
    (∃ lexemes, tokenize text = .ok lexemes ∧
      ∀ l ∈ lexemes, ∃ statement ∈ statements, (cover file [l]).Within statement.span) ∧
    (statements.Pairwise fun first second => first.span.stop ≤ second.span.start) ∧
    ∀ statement ∈ statements,
      (∃ slice, Lexer.Cut text.toList statement.span.start statement.span.stop slice ∧
        parseStored file (String.ofList slice) = .ok [statement.back statement.span.start]) ∧
      (∀ value, statement.body.value? = some value →
        value.span.Within statement.span ∧ value.Nested) ∧
      ∀ value ∈ statement.body.written, ∀ part : Expr, part.PartOf value →
        ∃ slice, Lexer.Cut text.toList part.span.start part.span.stop slice ∧
          Expr.parseStored file (String.ofList slice) = .ok (part.back part.span.start) := by
  rw [parseStored_eq short] at read
  obtain ⟨covered, apart, each⟩ := parseSource_spans read
  have alsoShort {start stop : Nat} {slice : List Char}
      (cut : Lexer.Cut text.toList start stop slice) :
      byteSize (String.ofList slice).toList < UInt32.size := by
    rw [String.toList_ofList]
    exact cut.byteSize_le.trans_lt short
  refine ⟨covered, apart, fun statement member => ?_⟩
  obtain ⟨alone, nested, parts⟩ := each statement member
  refine ⟨?_, nested, fun value isWritten part within => ?_⟩
  · obtain ⟨slice, cut, same⟩ := alone
    exact ⟨slice, cut, (parseStored_eq (alsoShort cut) file).trans same⟩
  · obtain ⟨slice, cut, same⟩ := parts value isWritten part within
    exact ⟨slice, cut, (Expr.parseStored_eq (alsoShort cut) file).trans same⟩

/-- Adjacent strings, parentheses around parentheses, a comma that makes a tuple, scopes on both
sides of the sign of a reference, and a comment. -/
def nestedText : String :=
  "a/as.T: \x7bk = ('a' \x22\\n\x22), m = [x/@y/F(), %c.d] \x7d # end\n" ++
    "n=(((1)),\x7b'k': (-2.5)\x7d,)"

theorem parseStored_spans_nested :
    ∃ statements, parseStored 3 nestedText = .ok statements ∧ statements.length = 2 ∧
      (statements.Pairwise fun first second => first.span.stop ≤ second.span.start) ∧
      ∀ statement ∈ statements, ∀ value ∈ statement.body.written, ∀ part : Expr,
        part.PartOf value →
          ∃ slice, Lexer.Cut nestedText.toList part.span.start part.span.stop slice ∧
            Expr.parseStored 3 (String.ofList slice) = .ok (part.back part.span.start) := by
  have shape : (parseStored 3 nestedText).toOption.map List.length = some 2 := by
    decide +kernel
  cases read : parseStored 3 nestedText with
  | error error =>
    rw [read] at shape
    cases shape
  | ok statements =>
    rw [read] at shape
    obtain ⟨_, apart, each⟩ := parseStored_spans (by decide) read
    exact ⟨statements, rfl, Option.some.inj shape, apart,
      fun statement member => (each statement member).2.2⟩

end Statement

/-! ## Longer texts -/

/-- The text with blanks before it. -/
def behindBlanks (count : Nat) (text : String) : String :=
  String.ofList (List.replicate count ' ' ++ text.toList)

theorem toList_behindBlanks (count : Nat) (text : String) :
    (behindBlanks count text).toList = List.replicate count ' ' ++ text.toList :=
  String.toList_ofList

theorem byteSize_blanks (count : Nat) : byteSize (List.replicate count ' ') = count := by
  induction count with
  | zero => rfl
  | succ count ih =>
    rw [List.replicate_succ, byteSize_cons, ih, Nat.add_comm]
    rfl

/-- The first of the blanks. -/
theorem Lexer.cut_behindBlanks {few count : Nat} (fits : few ≤ count) (text : String) :
    Lexer.Cut (behindBlanks count text).toList 0 few (List.replicate few ' ') := by
  obtain ⟨more, rfl⟩ := Nat.exists_eq_add_of_le fits
  refine ⟨[], List.replicate more ' ' ++ text.toList, ?_, rfl, ?_⟩
  · rw [toList_behindBlanks, ← List.replicate_append_replicate, List.append_assoc, List.nil_append]
  · rw [byteSize_blanks, Nat.zero_add]

theorem Lexer.tokensAt_blanks (offset count : Nat) (cs : List Char) :
    tokensAt offset (List.replicate count ' ' ++ cs) = tokensAt (offset + count) cs := by
  induction count generalizing offset with
  | zero => rfl
  | succ count ih =>
    rw [List.replicate_succ, List.cons_append, tokensAt_blank rfl, ih, Nat.add_right_comm]
    rfl

theorem tokenize_behindBlanks (count : Nat) (text : String) :
    tokenize (behindBlanks count text) = Lexer.ahead count (tokenize text) := by
  rw [Lexer.tokenize_eq_tokensAt, toList_behindBlanks, Lexer.tokensAt_blanks,
    Lexer.tokensAt_ahead, Lexer.tokenize_eq_tokensAt]

section

variable {count : Nat} (whole : UInt32.size ∣ count)

include whole

theorem Lexeme.stored_ahead (l : Lexeme) : (l.ahead count).stored = l.stored := by
  rw [stored, ahead, storedOffset_add whole, storedOffset_add whole, stored]

theorem LexError.stored_ahead (error : LexError) :
    (error.ahead count).stored = error.stored := by
  rw [stored, ahead, storedOffset_add whole, storedOffset_add whole, stored]

/-- Blanks of `2^32` bytes, or of several times as many, make no difference to what is stored. -/
theorem readStored_behindBlanks {α : Type} (file : Nat) (text : String)
    (read : List Lexeme → Except SyntaxError α) :
    SyntaxError.readStored file (behindBlanks count text) read =
      SyntaxError.readStored file text read := by
  unfold SyntaxError.readStored
  rw [tokenize_behindBlanks]
  cases tokenize text with
  | error error =>
    dsimp only [Lexer.ahead]
    rw [error.stored_ahead whole]
  | ok lexemes =>
    dsimp only [Lexer.ahead]
    rw [List.map_map]
    exact congrArg read (List.map_congr_left fun l _ => l.stored_ahead whole)

end

namespace Statement

/-- Behind the blanks a statement has the span of the first of them, and nothing is read from its
slice. -/
theorem parseStored_wraps :
    ∃ statement, parseStored 0 (behindBlanks UInt32.size "a = 1") = .ok [statement] ∧
      ¬ ∃ slice, Lexer.Cut (behindBlanks UInt32.size "a = 1").toList statement.span.start
          statement.span.stop slice ∧
        parseStored 0 (String.ofList slice) = .ok [statement.back statement.span.start] := by
  refine ⟨⟨.macroDef "a" (.literal (.int 1) ⟨0, 4, 5⟩), ⟨0, 0, 5⟩⟩, ?_, ?_⟩
  · rw [parseStored, readStored_behindBlanks (Nat.dvd_refl _)]
    rfl
  · rintro ⟨slice, cut, read⟩
    have few : 5 ≤ UInt32.size := by decide
    rw [cut.unique (Lexer.cut_behindBlanks few _)] at read
    have nothing : (parseStored 0 (String.ofList (List.replicate 5 ' '))).toOption.map
        List.length = some 0 := by
      decide
    rw [read] at nothing
    cases nothing

end Statement

end ConfigBinding
