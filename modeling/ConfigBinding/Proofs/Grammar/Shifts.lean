import ConfigBinding.Proofs.Grammar
import ConfigBinding.Proofs.Lexing.Slices

/-!
# Lexemes further to the left

The grammar asks for the tokens of lexemes, and for their places only to tell the spans. So lexemes
that are moved to the left say the same, with all spans moved by as much.

Results:
1. `Grammar.Value.back`, `Grammar.Spells.back`: what moved lexemes say.
-/

namespace ConfigBinding

/-- The span in the slice that starts at the byte `start`. -/
def Span.back (start : Nat) (span : Span) : Span :=
  ⟨span.file, span.start - start, span.stop - start⟩

/-- The expression in the slice that starts at the byte `start`. -/
def Expr.back (start : Nat) : Expr → Expr := Expr.mapSpans (Span.back start)

def BindingBody.back (start : Nat) : BindingBody → BindingBody
  | .single param value => .single param (value.back start)
  | .block entries span => .block (entries.map (Prod.map id (Expr.back start))) (span.back start)

def StatementBody.back (start : Nat) : StatementBody → StatementBody
  | .macroDef name value => .macroDef name (value.back start)
  | .binding bound => .binding { bound with body := bound.body.back start }
  | body => body

/-- The statement in the slice that starts at the byte `start`. -/
def Statement.back (start : Nat) (statement : Statement) : Statement :=
  ⟨statement.body.back start, statement.span.back start⟩

theorem cover_back (file start : Nat) (ls : List Lexeme) :
    cover file (ls.map (Lexeme.back start)) = (cover file ls).back start := by
  unfold cover Span.back
  rw [List.head?_map, List.getLast?_map]
  congr 1
  · cases ls.head? with
    | none => exact (Nat.zero_sub start).symm
    | some l => rfl
  · cases ls.getLast? with
    | none => exact (Nat.zero_sub start).symm
    | some l => rfl

theorem Expr.back_withSpan (start : Nat) (e : Expr) (span : Span) :
    (e.withSpan span).back start = (e.back start).withSpan (span.back start) := by
  cases e <;> rfl

theorem Expr.back_list (start : Nat) (items : List Expr) (span : Span) :
    (Expr.list items span).back start = .list (items.map (Expr.back start)) (span.back start) := by
  rw [back, mapSpans, mapSpansInItems_eq]

theorem Expr.back_tuple (start : Nat) (items : List Expr) (span : Span) :
    (Expr.tuple items span).back start =
      .tuple (items.map (Expr.back start)) (span.back start) := by
  rw [back, mapSpans, mapSpansInItems_eq]

theorem Expr.back_map (start : Nat) (entries : List (String × Expr)) (span : Span) :
    (Expr.map entries span).back start =
      .map (entries.map (Prod.map id (Expr.back start))) (span.back start) := by
  rw [back, mapSpans, mapSpansInEntries_eq]
  rfl

namespace Grammar

variable {file : Nat} {ls : List Lexeme} (start : Nat)

/-! ## Names and strings -/

theorem Segments.back {names : List String} (segments : Segments ls names) :
    Segments (ls.map (Lexeme.back start)) names := by
  induction segments with
  | nil => exact .nil
  | cons isDot named _ ih => exact .cons isDot named ih

theorem Dotted.back {name : DottedName} (named : Dotted ls name) :
    Dotted (ls.map (Lexeme.back start)) name := by
  cases named with
  | mk first segments => exact .mk first (segments.back start)

theorem Path.back {names : List String} (path : Path ls names) :
    Path (ls.map (Lexeme.back start)) names := by
  induction path with
  | nil => exact .nil
  | cons named isSlash _ ih => exact .cons named isSlash ih

theorem Scoped.back {names : List String} {symbol : DottedName}
    (qualified : Scoped ls names symbol) :
    Scoped (ls.map (Lexeme.back start)) names symbol := by
  induction qualified with
  | name named => exact .name (named.back start)
  | scope named isSlash _ ih => exact .scope named isSlash ih

theorem Strings.back {text : String} (strings : Strings ls text) :
    Strings (ls.map (Lexeme.back start)) text := by
  induction strings with
  | last isText => exact .last isText
  | more isText _ ih => exact .more isText ih

theorem Call.back {called : Bool} (call : Call ls called) :
    Call (ls.map (Lexeme.back start)) called := by
  cases call with
  | no => exact .no
  | yes opens closes => exact .yes opens closes

theorem ReferenceTo.back {target : Reference} (refers : ReferenceTo ls target) :
    ReferenceTo (ls.map (Lexeme.back start)) target := by
  cases refers with
  | mk path isSign qualified call =>
    rw [List.map_append, List.map_cons, List.map_append]
    exact .mk (path.back start) isSign (qualified.back start) (call.back start)

theorem Alias.back {asName : Option String} (aliased : Alias ls asName) :
    Alias (ls.map (Lexeme.back start)) asName := by
  cases aliased with
  | none => exact .none
  | some isWord named => exact .some isWord named

theorem Optional.back {m : Mark} (optional : Optional m ls) :
    Optional m (ls.map (Lexeme.back start)) := by
  cases optional with
  | no => exact .no
  | yes is => exact .yes is

theorem Target.back {scope : Scope} {name : DottedName} (target : Target ls scope name) :
    Target (ls.map (Lexeme.back start)) scope name where
  path := target.path.back start
  plain := by
    intro l member
    rw [List.head?_map] at member
    obtain ⟨first, isFirst, rfl⟩ := Option.map_eq_some_iff.mp member
    exact target.plain first isFirst

/-! ## Values -/

theorem map_back_enclosed (opening closing : Lexeme) (ls : List Lexeme) :
    (opening :: (ls ++ [closing])).map (Lexeme.back start) =
      opening.back start :: (ls.map (Lexeme.back start) ++ [closing.back start]) := by
  rw [List.map_cons, List.map_append]
  rfl

mutual

theorem Value.back {ls : List Lexeme} {e : Expr} : Value file ls e →
    Value file (ls.map (Lexeme.back start)) (e.back start)
  | .constant isValue notText => .constant isValue notText
  | .text strings => by
    show Value file _ (.literal _ ((cover file _).back start))
    rw [← cover_back]
    exact .text (strings.back start)
  | .list opens items closes => by
    rw [Expr.back_list, ← cover_back, map_back_enclosed]
    exact .list opens items.back closes
  | .tuple opens items closes single => by
    rw [Expr.back_tuple, ← cover_back, map_back_enclosed]
    exact .tuple opens items.back closes fun one => single (List.length_map (Expr.back start) ▸ one)
  | .parentheses opens value closes => by
    rw [Expr.back_withSpan, ← cover_back, map_back_enclosed]
    exact .parentheses opens value.back closes
  | .map opens entries closes => by
    rw [Expr.back_map, ← cover_back, map_back_enclosed]
    exact .map opens entries.back closes
  | .macroRef isPercent named => by
    show Value file _ (.macroRef _ ((cover file _).back start))
    rw [← cover_back]
    exact .macroRef isPercent (named.back start)
  | .reference refers => by
    show Value file _ (.reference _ ((cover file _).back start))
    rw [← cover_back]
    exact .reference (refers.back start)

theorem Items.back {ls : List Lexeme} {before behind : Bool} {items : List Expr} :
    Items file before ls items behind →
      Items file before (ls.map (Lexeme.back start)) (items.map (Expr.back start)) behind
  | .none => .none
  | .last value => .last value.back
  | .more value isComma items => by
    rw [List.map_append, List.map_cons]
    exact .more value.back isComma items.back

theorem Entries.back {ls : List Lexeme} {entries : List (String × Expr)} :
    Entries file ls entries →
      Entries file (ls.map (Lexeme.back start)) (entries.map (Prod.map id (Expr.back start)))
  | .none => .none
  | .last strings isColon value => by
    rw [List.map_append, List.map_cons]
    exact .last (strings.back start) isColon value.back
  | .more strings isColon value isComma entries => by
    rw [List.map_append, List.map_cons, List.map_append, List.map_cons]
    exact .more (strings.back start) isColon value.back isComma entries.back

end

/-! ## Statements -/

theorem Parameters.back {entries : List (String × Expr)} (parameters : Parameters file ls entries) :
    Parameters file (ls.map (Lexeme.back start)) (entries.map (Prod.map id (Expr.back start))) := by
  induction parameters with
  | nil => exact .nil
  | cons named isEquals value optional _ ih =>
    rw [List.map_cons, List.map_cons, List.map_append, List.map_append]
    exact .cons named isEquals (value.back start) (optional.back start) ih

theorem Body.back {body : StatementBody} (said : Body file ls body) :
    Body file (ls.map (Lexeme.back start)) (body.back start) := by
  cases said with
  | importPath isWord named aliased =>
    rw [List.map_cons, List.map_append]
    exact .importPath isWord (named.back start) (aliased.back start)
  | importFrom isWord named apart isMiddle isName aliased =>
    rw [List.map_cons, List.map_append, List.map_cons, List.map_cons]
    exact .importFrom isWord (named.back start) apart isMiddle isName (aliased.back start)
  | dynamicRegistration isWord named isMiddle isName =>
    rw [List.map_cons, List.map_append]
    exact .dynamicRegistration isWord (named.back start) isMiddle isName
  | includeFile isWord isPath => exact .includeFile isWord isPath
  | macroDef target isEquals value =>
    rw [List.map_append, List.map_cons]
    exact .macroDef (target.back start) isEquals (value.back start)
  | single target nonempty isEquals value =>
    rw [List.map_append, List.map_cons]
    exact .single (target.back start) nonempty isEquals (value.back start)
  | @block colon opening closing _ inner scope symbol entries target isColon opens parameters once
      closes =>
    have same : (entries.map (Prod.map id (Expr.back start))).map Prod.fst =
        entries.map Prod.fst := by
      rw [List.map_map]
      rfl
    show Body file _ (.binding ⟨scope, symbol, .block _ ((cover file _).back start)⟩)
    rw [← cover_back, List.map_append, List.map_cons, map_back_enclosed]
    exact .block (target.back start) isColon opens (parameters.back start) (same.symm ▸ once) closes

theorem Spells.back {statement : Statement} (spells : Spells file ls statement) :
    Spells file (ls.map (Lexeme.back start)) (statement.back start) where
  body := spells.body.back start
  span := by
    rw [cover_back, ← spells.span]
    rfl

end Grammar

end ConfigBinding
