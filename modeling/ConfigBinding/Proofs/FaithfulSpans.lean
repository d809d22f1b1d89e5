import ConfigBinding.Proofs.Grammar.Parts
import ConfigBinding.Proofs.Grammar.Shifts
import ConfigBinding.Proofs.Grammar.Statements

/-!
# Spans of what is read

The span of a statement or of a value is the range of its lexemes, so it is told by the grammar. It
follows how spans lie: side by side for statements, nested for a value and the values in it. And it
follows that nothing but the text under a span matters for what stands there: this slice of the
source, read on its own, has the same lexemes, which say the same.

The mapping that stands for a block of parameters is no value of the language: it is written with
equals signs and names. Its span lies like that of a mapping, but its slice does not read as one.

Results:
1. `Statement.parse_slice`, `Expr.parse_slice`: slices read as what they are slices of.
2. `Statement.parseSource_spans`: the spans of a source that is read.
-/

namespace ConfigBinding

open Grammar

/-- The values that stand in a value lie in its span, in order and apart, and so at every depth. -/
def Expr.Nested (e : Expr) : Prop :=
  ∀ part : Expr, part.PartOf e → (∀ child ∈ part.children, child.span.Within part.span) ∧
    part.children.Pairwise fun first second => first.span.stop ≤ second.span.start

/-! ## Slices -/

section

variable {file : Nat} {text : String} {before piece after : List Lexeme}

/-- The slice under the span of lexemes has these lexemes. -/
theorem tokenize_cover (file : Nat) (read : tokenize text = .ok (before ++ (piece ++ after)))
    (some : piece ≠ []) :
    ∃ slice, Lexer.Cut text.toList (cover file piece).start (cover file piece).stop slice ∧
      tokenize (String.ofList slice) = .ok (piece.map (Lexeme.back (cover file piece).start)) := by
  have slice := tokenize_slice read (List.head?_eq_some_head some)
    (List.getLast?_eq_some_getLast some)
  rw [cover, List.head?_eq_some_head some, List.getLast?_eq_some_getLast some]
  exact slice

/-- The slice of a value reads as the value. -/
theorem Expr.parse_slice {e : Expr} (said : Value file piece e)
    (read : tokenize text = .ok (before ++ (piece ++ after))) :
    ∃ slice, Lexer.Cut text.toList e.span.start e.span.stop slice ∧
      Expr.parse file (String.ofList slice) = .ok (e.back e.span.start) := by
  obtain ⟨slice, cut, lexemes⟩ := tokenize_cover file read said.ne_nil
  rw [said.span_eq]
  refine ⟨slice, cut, ?_⟩
  have moved := said.back (cover file piece).start
  have value := parseAt_past (c := Cursor.start file _) moved (List.append_nil _).symm
    (begins_nil _)
  have ended : ((Cursor.start file (piece.map (Lexeme.back (cover file piece).start))).past
      (piece.map (Lexeme.back (cover file piece).start))).atEnd = true :=
    List.isEmpty_iff.mpr (Cursor.rest_past (List.append_nil _).symm)
  unfold Expr.parse
  rw [lexemes]
  dsimp only
  rw [Expr.ofLexemes, ok_bind value]
  dsimp only
  rw [if_pos ended]
  rfl

/-- The slice of a statement reads as this statement alone. -/
theorem Statement.parse_slice {statement : Statement} (spells : Spells file piece statement)
    (read : tokenize text = .ok (before ++ (piece ++ after))) :
    ∃ slice, Lexer.Cut text.toList statement.span.start statement.span.stop slice ∧
      parseSource file (String.ofList slice) = .ok [statement.back statement.span.start] := by
  obtain ⟨_, _, _, same, _⟩ := spells.body.exists_cons
  obtain ⟨slice, cut, lexemes⟩ := tokenize_cover file read
    (same ▸ List.cons_ne_nil _ _)
  rw [spells.span]
  refine ⟨slice, cut, ?_⟩
  have alone := Statements.cons (spells.back (cover file piece).start) .nil
    fun _ _ member => nomatch member
  rw [List.append_nil] at alone
  unfold parseSource
  rw [lexemes]
  exact ofLexemes_of_statements alone

end

/-! ## How spans lie -/

namespace Grammar

variable {file : Nat} {ls : List Lexeme}

theorem Value.nested {e : Expr} (said : Value file ls e) (inOrder : InOrder ls) : e.Nested := by
  intro part within
  obtain ⟨before, piece, after, rfl, saidPart⟩ := said.of_part within
  have inner := inOrder.of_append.2.1.of_append.1
  rw [saidPart.span_eq]
  exact ⟨saidPart.among.within inner, saidPart.among.ordered inner⟩

/-- The value of a statement lies in its span, and what is in it lies in the value. A block lies
like a mapping. -/
theorem Body.value_nested {body : StatementBody} (said : Body file ls body) (inOrder : InOrder ls)
    {value : Expr} (given : body.value? = some value) :
    value.span.Within (cover file ls) ∧ value.Nested := by
  have plain {e : Expr} (written : body.written = [e]) {values : List Lexeme}
      (saidValue : Value file values e) (piece : ∃ before after, ls = before ++ (values ++ after)) :
      e.span.Within (cover file ls) ∧ e.Nested := by
    obtain ⟨before, after, rfl⟩ := piece
    exact ⟨said.among.within inOrder e (written ▸ List.mem_cons_self),
      saidValue.nested inOrder.of_append.2.1.of_append.1⟩
  cases said with
  | importPath | importFrom | dynamicRegistration | includeFile => cases given
  | @macroDef equals target values _ _ _ _ saidValue =>
    cases given
    exact plain rfl saidValue ⟨target ++ [equals], [], by simp⟩
  | @single equals target values _ _ _ _ _ _ _ saidValue =>
    cases given
    exact plain rfl saidValue ⟨target ++ [equals], [], by simp⟩
  | @block colon opening closing target inner _ _ entries _ _ _ parameters =>
    cases given
    have whole : target ++ colon :: opening :: (inner ++ [closing]) =
        (target ++ [colon]) ++ ((opening :: (inner ++ [closing])) ++ []) := by
      simp
    rw [whole] at inOrder ⊢
    have block := inOrder.of_append.2.1.of_append.1
    have among : Among file (opening :: (inner ++ [closing])) (entries.map Prod.snd) :=
      (parameters.among.before [closing]).behind [opening]
    refine ⟨inOrder.cover_within (List.cons_ne_nil _ _), ?_⟩
    rintro part (_ | ⟨member, within⟩)
    · exact ⟨among.within block, among.ordered block⟩
    · obtain ⟨before, piece, after, same, saidValue⟩ := among.of_mem member
      rw [same] at block
      exact saidValue.nested block.of_append.2.1.of_append.1 part within

theorem Spells.ne_nil {statement : Statement} (spells : Spells file ls statement) : ls ≠ [] := by
  obtain ⟨_, _, _, rfl, _⟩ := spells.body.exists_cons
  exact List.cons_ne_nil _ _

namespace Statements

variable {statements : List Statement}

theorem ordered (derived : Statements file ls statements) (inOrder : InOrder ls) :
    statements.Pairwise fun first second => first.span.stop ≤ second.span.start := by
  induction derived with
  | nil => exact .nil
  | @cons first rest _ statements spells others _ ih =>
    refine .cons (fun other member => ?_) (ih inOrder.of_append.2.1)
    obtain ⟨before, piece, after, rfl, spellsOther⟩ := others.of_mem member
    obtain ⟨l, isFirst, start⟩ := (cover_ends file spellsOther.ne_nil).1
    rw [spells.span, spellsOther.span, start]
    exact inOrder.cover_le spells.ne_nil (List.mem_append_right _ (List.mem_append_left _ isFirst))

/-- Each part of a value that a statement has is said by some of the tokens. -/
theorem of_part (derived : Statements file ls statements) {statement : Statement}
    (member : statement ∈ statements) {value : Expr} (isWritten : value ∈ statement.body.written)
    {part : Expr} (within : part.PartOf value) :
    ∃ before piece after, ls = before ++ (piece ++ after) ∧ Value file piece part := by
  obtain ⟨before, pieces, after, rfl, spells⟩ := derived.of_mem member
  obtain ⟨front, values, back, rfl, said⟩ := spells.body.among.of_mem isWritten
  obtain ⟨left, piece, right, rfl, saidPart⟩ := said.of_part within
  exact ⟨before ++ (front ++ left), piece, right ++ (back ++ after), by
    simp only [List.append_assoc], saidPart⟩

theorem covers (derived : Statements file ls statements) (inOrder : InOrder ls) :
    ∀ l ∈ ls, ∃ statement ∈ statements, (cover file [l]).Within statement.span := by
  induction derived with
  | nil => exact List.forall_mem_nil _
  | cons spells _ _ ih =>
    obtain ⟨firstInOrder, othersInOrder, _⟩ := inOrder.of_append
    refine List.forall_mem_append.mpr
      ⟨fun l member => ⟨_, List.mem_cons_self, ?_⟩, fun l member => ?_⟩
    · rw [spells.span]
      exact ⟨rfl, (firstInOrder.le_of_mem member).1, (firstInOrder.le_of_mem member).2⟩
    · obtain ⟨statement, later, within⟩ := ih othersInOrder l member
      exact ⟨statement, List.mem_cons_of_mem _ later, within⟩

end Statements

end Grammar

namespace Statement

theorem lexemes_of_parseSource {file : Nat} {text : String} {statements : List Statement}
    (read : parseSource file text = .ok statements) :
    ∃ lexemes, tokenize text = .ok lexemes ∧ InOrder lexemes ∧
      Statements file lexemes statements := by
  obtain ⟨lexemes, tokens, readLexemes⟩ := tokenize_of_parseSource read
  have covers := covers_of_tokenize tokens
  exact ⟨lexemes, tokens, ⟨covers.nonempty, covers.ordered⟩, statements_of_ofLexemes readLexemes⟩

/-- The spans of a source that is read as statements.
* The statements follow each other, and every token lies in one of them.
* The slice of a statement reads as this statement alone.
* The value of a statement lies in the statement, and the values in it are nested.
* The slice of a value that is written as one, at any depth, reads as this value. -/
theorem parseSource_spans {file : Nat} {text : String} {statements : List Statement}
    (read : parseSource file text = .ok statements) :
    (∃ lexemes, tokenize text = .ok lexemes ∧
      ∀ l ∈ lexemes, ∃ statement ∈ statements, (cover file [l]).Within statement.span) ∧
    (statements.Pairwise fun first second => first.span.stop ≤ second.span.start) ∧
    ∀ statement ∈ statements,
      (∃ slice, Lexer.Cut text.toList statement.span.start statement.span.stop slice ∧
        parseSource file (String.ofList slice) = .ok [statement.back statement.span.start]) ∧
      (∀ value, statement.body.value? = some value →
        value.span.Within statement.span ∧ value.Nested) ∧
      ∀ value ∈ statement.body.written, ∀ part : Expr, part.PartOf value →
        ∃ slice, Lexer.Cut text.toList part.span.start part.span.stop slice ∧
          Expr.parse file (String.ofList slice) = .ok (part.back part.span.start) := by
  obtain ⟨lexemes, tokens, inOrder, derived⟩ := lexemes_of_parseSource read
  refine ⟨⟨lexemes, tokens, derived.covers inOrder⟩, derived.ordered inOrder, ?_⟩
  intro statement member
  refine ⟨?_, fun value given => ?_, fun value isWritten part within => ?_⟩
  · obtain ⟨before, piece, after, rfl, spells⟩ := derived.of_mem member
    exact parse_slice spells tokens
  · obtain ⟨before, piece, after, rfl, spells⟩ := derived.of_mem member
    rw [spells.span]
    exact spells.body.value_nested inOrder.of_append.2.1.of_append.1 given
  · obtain ⟨before, piece, after, rfl, said⟩ := derived.of_part member isWritten within
    exact Expr.parse_slice said tokens

end Statement

end ConfigBinding
