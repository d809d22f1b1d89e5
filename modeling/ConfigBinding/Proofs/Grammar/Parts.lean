import ConfigBinding.Proofs.Grammar.Values

/-!
# The lexemes of a part

A value holds values, these hold values again, and each of them is said by lexemes of its own: those
of values that stand side by side are apart, in the order of the values, and among the lexemes of
what holds them. So are the lexemes of the values of a statement. Where lexemes come in the order of
their bytes, the same holds for the spans.

Results:
1. `Grammar.Value.of_part`: each part of a value is said by some of its lexemes.
2. `Grammar.Among.within`, `Grammar.Among.ordered`: how the spans of values that stand side by side
   lie.
-/

namespace ConfigBinding

namespace Expr

/-- The values that stand in a value, in order. -/
def children : Expr → List Expr
  | .list items _ | .tuple items _ => items
  | .map entries _ => entries.map Prod.snd
  | .literal _ _ | .macroRef _ _ | .reference _ _ => []

/-- `part.PartOf e`: the value stands in `e` at any depth, or is `e`. -/
inductive PartOf : Expr → Expr → Prop
  | refl (e : Expr) : PartOf e e
  | child {part child e : Expr} : child ∈ e.children → PartOf part child → PartOf part e

theorem children_withSpan (e : Expr) (span : Span) : (e.withSpan span).children = e.children := by
  cases e <;> rfl

end Expr

/-- The value that a statement gives to a name. A block of parameters is a mapping. -/
def StatementBody.value? : StatementBody → Option Expr
  | .macroDef _ value => some value
  | .binding bound =>
    match bound.body with
    | .single _ value => some value
    | .block entries span => some (.map entries span)
  | _ => none

/-- The values that are written as values in a statement. -/
def StatementBody.written : StatementBody → List Expr
  | .macroDef _ value => [value]
  | .binding bound => bound.parameters.map Prod.snd
  | _ => []

/-- The first span is a part of the second. -/
structure Span.Within (inner outer : Span) : Prop where
  file : inner.file = outer.file
  start : outer.start ≤ inner.start
  stop : inner.stop ≤ outer.stop

namespace Grammar

variable {file : Nat}

/-! ## Lexemes side by side -/

/-- Some of the lexemes say the values, those of each value behind those of the value before. -/
inductive Among (file : Nat) : List Lexeme → List Expr → Prop
  | nil (ls : List Lexeme) : Among file ls []
  | cons (before : List Lexeme) {ls rest : List Lexeme} {value : Expr} {values : List Expr} :
      Value file ls value → Among file rest values →
        Among file (before ++ (ls ++ rest)) (value :: values)

namespace Among

variable {ls : List Lexeme} {values : List Expr}

theorem one {value : Expr} (said : Value file ls value) : Among file ls [value] := by
  have whole := Among.cons [] said (.nil [])
  rw [List.append_nil, List.nil_append] at whole
  exact whole

theorem behind (among : Among file ls values) (before : List Lexeme) :
    Among file (before ++ ls) values := by
  cases among with
  | nil => exact .nil _
  | cons skipped said others =>
    rw [← List.append_assoc]
    exact .cons (before ++ skipped) said others

theorem before (among : Among file ls values) (after : List Lexeme) :
    Among file (ls ++ after) values := by
  induction among with
  | nil => exact .nil _
  | cons skipped said _ ih =>
    rw [List.append_assoc, List.append_assoc]
    exact .cons skipped said ih

theorem of_mem (among : Among file ls values) {value : Expr} (member : value ∈ values) :
    ∃ before piece after, ls = before ++ (piece ++ after) ∧ Value file piece value := by
  induction among with
  | nil => cases member
  | @cons skipped ls _ _ _ said _ ih =>
    rcases List.mem_cons.mp member with rfl | later
    · exact ⟨skipped, _, _, rfl, said⟩
    · obtain ⟨before, piece, after, rfl, saidLater⟩ := ih later
      exact ⟨skipped ++ (ls ++ before), piece, after, by simp only [List.append_assoc], saidLater⟩

end Among

/-! ## Parts of values -/

mutual

theorem Value.among : ∀ {ls : List Lexeme} {e : Expr}, Value file ls e → Among file ls e.children
  | _, _, .constant _ _ | _, _, .text _ | _, _, .macroRef _ _ | _, _, .reference _ => .nil _
  | _, _, .list _ items _ | _, _, .tuple _ items _ _ => (items.among.before [_]).behind [_]
  | _, _, .map _ entries _ => (entries.among.before [_]).behind [_]
  | _, _, .parentheses _ value _ => by
    rw [Expr.children_withSpan]
    exact (value.among.before [_]).behind [_]

theorem Items.among : ∀ {ls : List Lexeme} {first last : Bool} {items : List Expr},
    Items file first ls items last → Among file ls items
  | _, _, _, _, .none => .nil []
  | _, _, _, _, .last value => .one value
  | _, _, _, _, .more value _ others => .cons [] value (others.among.behind [_])

theorem Entries.among : ∀ {ls : List Lexeme} {entries : List (String × Expr)},
    Entries file ls entries → Among file ls (entries.map Prod.snd)
  | _, _, .none => .nil []
  | _, _, .last _ _ value => ((Among.one value).behind [_]).behind _
  | _, _, .more _ _ value _ others =>
    ((Among.cons [] value (others.among.behind [_])).behind [_]).behind _

end

theorem Value.of_part {ls : List Lexeme} {part e : Expr} (within : part.PartOf e)
    (said : Value file ls e) :
    ∃ before piece after, ls = before ++ (piece ++ after) ∧ Value file piece part := by
  induction within generalizing ls with
  | refl => exact ⟨[], ls, [], by simp, said⟩
  | child member _ ih =>
    obtain ⟨before, piece, after, rfl, saidChild⟩ := said.among.of_mem member
    obtain ⟨front, inner, back, rfl, saidPart⟩ := ih saidChild
    exact ⟨before ++ front, inner, back ++ after, by simp only [List.append_assoc], saidPart⟩

/-! ## Values of statements -/

theorem Parameters.among {ls : List Lexeme} {entries : List (String × Expr)}
    (parameters : Parameters file ls entries) : Among file ls (entries.map Prod.snd) := by
  induction parameters with
  | nil => exact .nil []
  | @cons l equals _ _ _ comma _ _ _ _ value _ _ ih =>
    exact .cons [l, equals] value (ih.behind comma)

theorem Body.among {ls : List Lexeme} {body : StatementBody} (said : Body file ls body) :
    Among file ls body.written := by
  cases said with
  | importPath | importFrom | dynamicRegistration | includeFile => exact .nil _
  | macroDef _ _ value => exact ((Among.one value).behind [_]).behind _
  | single _ _ _ value => exact ((Among.one value).behind [_]).behind _
  | block _ _ _ parameters => exact ((parameters.among.before [_]).behind [_, _]).behind _

/-! ## Spans -/

theorem Value.span_eq {ls : List Lexeme} {e : Expr} (said : Value file ls e) :
    e.span = cover file ls := by
  cases said with
  | @parentheses _ _ _ value =>
    cases value <;> rfl
  | _ => rfl

theorem Value.ne_nil {ls : List Lexeme} {e : Expr} (said : Value file ls e) : ls ≠ [] := by
  obtain ⟨_, _, rfl, _⟩ := Expr.exists_cons_of_value said
  exact List.cons_ne_nil _ _

/-- Each lexeme has bytes, and ends before the next begins. -/
structure InOrder (ls : List Lexeme) : Prop where
  nonempty : ∀ l ∈ ls, l.start < l.stop
  ordered : ls.Pairwise fun first second => first.stop ≤ second.start

section

variable {ls ms : List Lexeme}

theorem InOrder.of_append (inOrder : InOrder (ls ++ ms)) :
    InOrder ls ∧ InOrder ms ∧ ∀ l ∈ ls, ∀ m ∈ ms, l.stop ≤ m.start := by
  obtain ⟨nonempty, ordered⟩ := inOrder
  obtain ⟨first, second⟩ := List.forall_mem_append.mp nonempty
  obtain ⟨orderedFirst, orderedSecond, apart⟩ := List.pairwise_append.mp ordered
  exact ⟨⟨first, orderedFirst⟩, ⟨second, orderedSecond⟩, apart⟩

/-- The span of lexemes ends where two of them do. -/
theorem cover_ends (file : Nat) (some : ls ≠ []) : (∃ l ∈ ls, (cover file ls).start = l.start) ∧
    ∃ l ∈ ls, (cover file ls).stop = l.stop := by
  constructor
  · refine ⟨ls.head some, List.head_mem some, ?_⟩
    rw [cover, List.head?_eq_some_head some]
    rfl
  · refine ⟨ls.getLast some, List.getLast_mem some, ?_⟩
    rw [cover, List.getLast?_eq_some_getLast some]
    rfl

theorem InOrder.le_of_mem (inOrder : InOrder ls) {l : Lexeme} (member : l ∈ ls) :
    (cover file ls).start ≤ l.start ∧ l.stop ≤ (cover file ls).stop := by
  constructor
  · obtain ⟨first, others, rfl⟩ := List.exists_cons_of_ne_nil (List.ne_nil_of_mem member)
    show first.start ≤ l.start
    rcases List.mem_cons.mp member with rfl | later
    · exact Nat.le_refl _
    · have wide := inOrder.nonempty first List.mem_cons_self
      have apart := List.rel_of_pairwise_cons inOrder.ordered later
      omega
  · obtain ⟨others, last, rfl⟩ :=
      List.eq_nil_or_concat ls |>.resolve_left (List.ne_nil_of_mem member)
    rw [List.concat_eq_append] at inOrder member ⊢
    have stop : (cover file (others ++ [last])).stop = last.stop := by
      rw [cover, List.getLast?_concat]
      rfl
    rw [stop]
    rcases List.mem_append.mp member with earlier | same
    · have wide := inOrder.nonempty last List.mem_concat_self
      have apart := inOrder.of_append.2.2 l earlier last List.mem_cons_self
      omega
    · rw [List.mem_singleton.mp same]

theorem InOrder.cover_within {before piece after : List Lexeme}
    (inOrder : InOrder (before ++ (piece ++ after))) (some : piece ≠ []) :
    (cover file piece).Within (cover file (before ++ (piece ++ after))) := by
  have inside {l : Lexeme} (member : l ∈ piece) : l ∈ before ++ (piece ++ after) :=
    List.mem_append_right _ (List.mem_append_left _ member)
  obtain ⟨⟨first, isFirst, start⟩, last, isLast, stop⟩ := cover_ends file some
  exact ⟨rfl, start ▸ (inOrder.le_of_mem (inside isFirst)).1,
    stop ▸ (inOrder.le_of_mem (inside isLast)).2⟩

theorem InOrder.cover_le (inOrder : InOrder (ls ++ ms)) (some : ls ≠ []) {l : Lexeme}
    (member : l ∈ ms) : (cover file ls).stop ≤ l.start := by
  obtain ⟨_, last, isLast, stop⟩ := cover_ends file some
  rw [stop]
  exact inOrder.of_append.2.2 last isLast l member

end

namespace Among

variable {ls : List Lexeme} {values : List Expr}

theorem within (among : Among file ls values) (inOrder : InOrder ls) :
    ∀ value ∈ values, value.span.Within (cover file ls) := by
  intro value member
  obtain ⟨before, piece, after, rfl, said⟩ := among.of_mem member
  rw [said.span_eq]
  exact inOrder.cover_within said.ne_nil

theorem ordered (among : Among file ls values) (inOrder : InOrder ls) :
    values.Pairwise fun first second => first.span.stop ≤ second.span.start := by
  induction among with
  | nil => exact .nil
  | @cons before piece rest value values said among ih =>
    have inner := inOrder.of_append.2.1
    refine .cons (fun other member => ?_) (ih inner.of_append.2.1)
    obtain ⟨skipped, pieceOther, after, rfl, saidOther⟩ := among.of_mem member
    obtain ⟨first, isFirst, start⟩ := (cover_ends file saidOther.ne_nil).1
    rw [said.span_eq, saidOther.span_eq, start]
    exact inner.cover_le said.ne_nil (List.mem_append_right _ (List.mem_append_left _ isFirst))

end Among

end Grammar

end ConfigBinding
