import ConfigBinding.Proofs.FaithfulSpans
import ConfigBinding.Proofs.LoadCalls
import ConfigBinding.Proofs.SourceNumbers

/-!
# Spans of sources

What is read from a source has spans of this source: each carries its number and ends within its
text, for values at every depth and for the reports of errors. Nothing that loading does to a value
moves a span. It renames symbols, and it takes the values out of statements.

Results:
1. `Statement.liesIn_of_parseSource`: what is read from a text lies in it.
2. `Statement.LiesIn.assigns`: so does what is assigned, also if symbols are renamed.
-/

namespace ConfigBinding

open Grammar

/-- The span is one of the text that is read under the number. -/
structure Span.LiesIn (number : Nat) (text : String) (span : Span) : Prop where
  file : span.file = number
  start : span.start ≤ span.stop
  stop : span.stop ≤ byteSize text.toList

/-- The spans of a value at every depth are those of the text. -/
def Expr.LiesIn (number : Nat) (text : String) (e : Expr) : Prop :=
  ∀ part : Expr, part.PartOf e → part.span.LiesIn number text

structure Statement.LiesIn (number : Nat) (text : String) (statement : Statement) : Prop where
  span : statement.span.LiesIn number text
  written : ∀ value ∈ statement.body.written, value.LiesIn number text

variable {number : Nat} {text : String}

/-! ## What is read -/

theorem Lexer.Cut.stop_le {text piece : List Char} {start stop : Nat}
    (cut : Lexer.Cut text start stop piece) : stop ≤ byteSize text := by
  obtain ⟨before, after, rfl, rfl, rfl⟩ := cut
  rw [byteSize_append, byteSize_append]
  omega

theorem Lexer.Cut.byteSize_le {text piece : List Char} {start stop : Nat}
    (cut : Lexer.Cut text start stop piece) : byteSize piece ≤ byteSize text := by
  obtain ⟨before, after, rfl, _, _⟩ := cut
  rw [byteSize_append, byteSize_append]
  omega

/-- The span of tokens that stand behind each other in a text. -/
theorem Span.liesIn_cover {before piece after : List Lexeme}
    (tokens : tokenize text = .ok (before ++ (piece ++ after))) (some : piece ≠ []) :
    (cover number piece).LiesIn number text := by
  have covers := covers_of_tokenize tokens
  have inOrder : InOrder (before ++ (piece ++ after)) := ⟨covers.nonempty, covers.ordered⟩
  have inside {l : Lexeme} (member : l ∈ piece) : l ∈ before ++ (piece ++ after) :=
    List.mem_append_right _ (List.mem_append_left _ member)
  obtain ⟨⟨first, isFirst, start⟩, last, isLast, stop⟩ := cover_ends number some
  obtain ⟨slice, cut, _⟩ := covers.sliced last (inside isLast)
  refine ⟨rfl, ?_, stop ▸ cut.stop_le⟩
  have wide := inOrder.nonempty first (inside isFirst)
  have upTo : first.stop ≤ (cover number piece).stop :=
    (inOrder.of_append.2.1.of_append.1.le_of_mem isFirst).2
  omega

namespace Statement

/-- What is read from a text lies in it. -/
theorem liesIn_of_parseSource {statements : List Statement}
    (read : parseSource number text = .ok statements) :
    ∀ statement ∈ statements, statement.LiesIn number text := by
  obtain ⟨lexemes, tokens, _, derived⟩ := lexemes_of_parseSource read
  intro statement member
  refine ⟨?_, fun value isWritten part within => ?_⟩
  · obtain ⟨before, piece, after, rfl, spells⟩ := derived.of_mem member
    rw [spells.span]
    exact Span.liesIn_cover tokens spells.ne_nil
  · obtain ⟨before, piece, after, rfl, said⟩ := derived.of_part member isWritten within
    rw [said.span_eq]
    exact Span.liesIn_cover tokens said.ne_nil

theorem file_of_renumber_error {α β : Type} {move : α → β} {read : Except SyntaxError α}
    {error : SyntaxError} (fails : renumber number move read = .error error) :
    error.span.file = number := by
  cases read with
  | ok _ => cases fails
  | error report =>
    cases fails
    rfl

theorem file_of_parseSource_error {error : SyntaxError}
    (fails : parseSource number text = .error error) : error.span.file = number := by
  rw [parseSource_inFile number 0] at fails
  exact file_of_renumber_error fails

theorem file_of_parseAssignmentText_error {error : SyntaxError}
    (fails : parseAssignmentText number text = .error error) : error.span.file = number := by
  rw [parseAssignmentText_inFile number 0] at fails
  exact file_of_renumber_error fails

end Statement

/-! ## What is done to values -/

namespace Expr

theorem children_mapReferences (rename : DottedName → DottedName) (e : Expr) :
    (e.mapReferences rename).children = e.children.map (mapReferences rename) := by
  cases e with
  | literal | macroRef | reference => rfl
  | list items span => exact mapReferencesInItems_eq rename items
  | tuple items span => exact mapReferencesInItems_eq rename items
  | map entries span =>
    rw [mapReferences, mapReferencesInEntries_eq, children, children, List.map_map, List.map_map]
    rfl

theorem span_mapReferences (rename : DottedName → DottedName) (e : Expr) :
    (e.mapReferences rename).span = e.span := by
  cases e <;> rfl

/-- Renaming symbols moves no span. -/
theorem exists_part_of_mapReferences {rename : DottedName → DottedName} {part e : Expr}
    (within : part.PartOf (e.mapReferences rename)) :
    ∃ original : Expr, original.PartOf e ∧ original.span = part.span := by
  generalize renamed : e.mapReferences rename = whole at within
  induction within generalizing e with
  | refl =>
    subst renamed
    exact ⟨e, .refl e, (span_mapReferences rename e).symm⟩
  | child member _ ih =>
    subst renamed
    rw [children_mapReferences] at member
    obtain ⟨child, inside, same⟩ := List.mem_map.mp member
    obtain ⟨original, part, spans⟩ := ih same
    exact ⟨original, .child inside part, spans⟩

theorem LiesIn.mapReferences {e : Expr} (lies : e.LiesIn number text)
    (rename : DottedName → DottedName) : (e.mapReferences rename).LiesIn number text := by
  intro part within
  obtain ⟨original, inside, same⟩ := exists_part_of_mapReferences within
  rw [← same]
  exact lies original inside

end Expr

/-- The values that a statement assigns are those that are written in it. -/
theorem StatementBody.written_eq (body : StatementBody) :
    body.written = body.assignments.map Assignment.value := by
  cases body with
  | importPath | dynamicRegistration | includeFile | macroDef => rfl
  | binding bound =>
    rw [assignments, List.map_map]
    rfl

/-- What a statement assigns in its file lies where the statement does. -/
theorem Statement.LiesIn.assigns {statement : Statement} (lies : statement.LiesIn number text)
    (scope : FileScope) (registry : Registry) :
    ∀ assignment ∈ statement.body.assignments.map (Assignment.canonical scope registry),
      assignment.value.LiesIn number text := by
  refine List.forall_mem_map.mpr fun assignment member => ?_
  have plain : assignment.value.LiesIn number text :=
    lies.written _ (statement.body.written_eq ▸ List.mem_map_of_mem member)
  rw [assignment.value_canonical, FileScope.canonicalValue]
  split
  · exact plain.mapReferences _
  · exact plain

end ConfigBinding
