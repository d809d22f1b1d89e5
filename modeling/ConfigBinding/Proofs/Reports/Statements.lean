import ConfigBinding.Proofs.Grammar.Statements
import ConfigBinding.Proofs.Lexing.Lines
import ConfigBinding.Proofs.Reports.Values

/-!
# Reports with more statements behind

Statements that come behind a source do not change what is reported about it. The first statement
that cannot be read is reported, and the report is about tokens that are there without the others.

One report is not of this kind. What may be imported from `__gin__` is known by its name, and when
another name stands there, the report points at the token behind the name. If the source ends there,
this is the end of the input, and when statements are added it is the first token of these.

Results:
1. `Resumes`: what the reading of one statement tells of the reading with more behind.
2. `Statement.parseAll_extend`: the report about tokens is the report with more tokens behind.
3. `Statement.parseSource_append_rejected`: the report about a source is the report with accepted
   statements behind.
-/

namespace ConfigBinding

open Cursor (extendPair rest_ne_nil_of_sees length_advance_of_sees)

variable {α β γ : Type} {more : List Lexeme} {finish : Nat} {c : Cursor}

/-- What the reading of a statement tells of the reading with more lexemes behind. A success is one
there as well if it is not the end of the input: at the end, an import takes an alias that comes
then. -/
def Resumes (more : List Lexeme) (finish : Nat) :
    Except SyntaxError (α × Cursor) → Except SyntaxError (α × Cursor) → Prop
  | .ok (a, after), extended => after.rest ≠ [] → extended = .ok (a, after.extend more finish)
  | .error error, extended => error.kind = .unexpectedEnd ∨ extended = .error (error.extend more)

theorem Foretells.resumes {read extended : Except SyntaxError (α × Cursor)}
    (foretells : Foretells more (extendPair more finish) read extended) :
    Resumes more finish read extended := by
  cases read with
  | ok a => exact fun _ => foretells
  | error error => exact foretells

theorem Foretells.bind_resumes {move : α → β} {read : Except SyntaxError α}
    {extended : Except SyntaxError β} {next : α → Except SyntaxError (γ × Cursor)}
    {nextExtended : β → Except SyntaxError (γ × Cursor)} (first : Foretells more move read extended)
    (second : ∀ a, read = .ok a → Resumes more finish (next a) (nextExtended (move a))) :
    Resumes more finish (read >>= next) (extended >>= nextExtended) := by
  cases read with
  | ok a =>
    cases first
    exact second a rfl
  | error error =>
    cases first with
    | inl ended => exact .inl ended
    | inr same =>
      rw [same]
      exact .inr rfl

/-- The rule for a step that only changes what was read, not how far. -/
theorem Resumes.map {read extended : Except SyntaxError (α × Cursor)}
    (resumes : Resumes more finish read extended) {f : α → Cursor → β}
    {next nextExtended : α × Cursor → Except SyntaxError (β × Cursor)}
    (gives : ∀ a after, next (a, after) = .ok (f a after, after))
    (givesExtended : ∀ a after, nextExtended (a, after.extend more finish) =
      .ok (f a after, after.extend more finish)) :
    Resumes more finish (read >>= next) (extended >>= nextExtended) := by
  cases read with
  | ok pair =>
    obtain ⟨a, after⟩ := pair
    rw [ok_bind rfl, gives]
    intro goesOn
    rw [ok_bind (resumes goesOn), givesExtended]
  | error error =>
    cases resumes with
    | inl ended => exact .inl ended
    | inr stays =>
      rw [stays]
      exact .inr rfl

theorem Cursor.Passes.forall_rest {p : Lexeme → Prop} {ls : List Lexeme} {later : Cursor}
    (passes : c.Passes ls later) (each : ∀ l ∈ c.rest, p l) : ∀ l ∈ later.rest, p l :=
  fun l member => each l (passes.rest ▸ List.mem_append_right ls member)

namespace Statement

/-! ## Imports and inclusions -/

theorem parseAsName_extend :
    Resumes more finish (parseAsName c) (parseAsName (c.extend more finish)) := by
  by_cases none : c.rest = []
  · have absent : parseAsName c = .ok (.none, c) := by
      unfold parseAsName
      rw [Cursor.sees, Cursor.peek?_of_nil none]
      rfl
    rw [absent]
    exact fun goesOn => absurd none goesOn
  · unfold parseAsName
    rw [Cursor.sees_extend_of_some none, Cursor.advance_extend none]
    split
    · exact Cursor.expectName_extend.bind_resumes fun _ _ _ => rfl
    · exact fun _ => rfl

/-- The report of an unknown switch points at what comes next, so it points at the first of the
added lexemes where the input ended. -/
theorem unknownSwitch_extend (some : more ≠ []) (solid : ∀ l ∈ c.rest, l.start < l.stop)
    (name : String) :
    (⟨.unknownSwitch name, (c.extend more finish).here⟩ : SyntaxError) =
      SyntaxError.extend more ⟨.unknownSwitch name, c.here⟩ := by
  obtain ⟨file, _, reached, rest⟩ := c
  obtain ⟨first, others, rfl⟩ := List.exists_cons_of_ne_nil some
  cases rest with
  | nil =>
    simp [SyntaxError.extend, SyntaxError.blamesEnd, Cursor.here, Cursor.extend, Span.isEmpty]
  | cons l rest =>
    have nonempty : l.start ≠ l.stop := Nat.ne_of_lt (solid l (List.mem_cons_self ..))
    simp [SyntaxError.extend, SyntaxError.blamesEnd, Cursor.here, Cursor.extend, Span.isEmpty,
      nonempty]

theorem parseInclude_extend :
    Foretells more (extendPair more finish) (parseInclude c)
      (parseInclude (c.extend more finish)) := by
  unfold parseInclude
  by_cases none : c.rest = []
  · rw [Cursor.peek?_of_nil none]
    exact .ofEnd (Cursor.kind_unexpected_of_nil none .includePath)
  · rw [Cursor.peek?_extend none, Cursor.advance_extend none]
    split
    · exact .ok (_, c.advance)
    · exact Cursor.foretells_unexpected .includePath

section

variable (opens : OpensWithName more)

include opens

theorem parseImport_extend :
    Resumes more finish (parseImport c) (parseImport (c.extend more finish)) := by
  unfold parseImport
  refine (Cursor.dotted_extend opens).bind_resumes ?_
  rintro ⟨path, after⟩ _
  exact parseAsName_extend.map (fun _ _ => rfl) fun _ _ => rfl

theorem parseFromImport_extend (some : more ≠ []) (solid : ∀ l ∈ c.rest, l.start < l.stop) :
    Resumes more finish (parseFromImport c) (parseFromImport (c.extend more finish)) := by
  unfold parseFromImport
  refine (Cursor.dotted_extend opens).bind_resumes ?_
  rintro ⟨parent, afterParent⟩ readParent
  refine (Cursor.expect_extend .kwImport).bind_resumes fun afterWord readWord => ?_
  refine Cursor.expectName_extend.bind_resumes ?_
  rintro ⟨name, after⟩ readName
  obtain ⟨_, parentPassed, _⟩ := Cursor.passes_of_dotted readParent
  obtain ⟨_, wordPassed, _⟩ := Cursor.passes_of_expect readWord
  obtain ⟨_, namePassed, _⟩ := Cursor.passes_of_expectName readName
  dsimp only [extendPair, Prod.map, id]
  split
  · split
    · exact fun _ => rfl
    · have solidAfter :=
        ((parentPassed.trans wordPassed).trans namePassed).forall_rest solid
      exact .inr (congrArg Except.error (unknownSwitch_extend some solidAfter name))
  · exact parseAsName_extend.map (fun _ _ => rfl) fun _ _ => rfl

/-! ## Assignments -/

theorem parseBlockEntries_extend {fuel enough : Nat} (bound : c.rest.length < fuel)
    (boundExtended : c.rest.length < enough) (seen : List String) :
    Foretells more (extendPair more finish) (parseBlockEntries fuel seen c)
      (parseBlockEntries enough seen (c.extend more finish)) := by
  induction fuel generalizing c enough seen with
  | zero => omega
  | succ fuel ih =>
    cases enough with
    | zero => omega
    | succ enough =>
      unfold parseBlockEntries
      rw [Cursor.sees_extend opens rfl]
      refine Foretells.ite (fun _ => .ok _) fun _ => ?_
      refine Cursor.expectName_extend.bind ?_
      rintro ⟨param, afterParam⟩ readParam
      obtain ⟨_, paramPassed, _⟩ := Cursor.passes_of_expectName readParam
      have size := paramPassed.length_eq
      rw [List.length_singleton] at size
      have some : c.rest ≠ [] := List.length_pos_iff.mp (by omega)
      dsimp only [extendPair, Prod.map, id]
      rw [Cursor.spanTo_extend some]
      split
      · exact .error rfl
      · refine (Cursor.expect_extend .equals).bind fun afterSign readSign => ?_
        obtain ⟨_, signPassed, _⟩ := Cursor.passes_of_expect readSign
        have sizeSign := signPassed.length_eq
        rw [List.length_singleton] at sizeSign
        refine (Expr.parseAt_extend opens).bind ?_
        rintro ⟨value, after⟩ readValue
        have consumed := Expr.length_lt_of_parseFuel readValue
        dsimp only [extendPair, Prod.map, id]
        rw [Cursor.skip_extend opens rfl]
        obtain ⟨_, commaPassed, _⟩ := passes_of_skip .comma after
        have sizeComma := commaPassed.length_eq
        exact (ih (by omega) (by omega) _).bind fun _ _ => rfl

theorem parseBlock_extend :
    Foretells more (extendPair more finish) (parseBlock c) (parseBlock (c.extend more finish)) := by
  unfold parseBlock
  refine (Cursor.expect_extend .openBrace).bind fun inner readOpening => ?_
  obtain ⟨_, openingPassed, _⟩ := Cursor.passes_of_expect readOpening
  have some : c.rest ≠ [] := by
    rw [openingPassed.rest]
    exact List.cons_ne_nil _ _
  refine (parseBlockEntries_extend opens (Nat.lt_succ_self _) ?_ []).bind ?_
  · rw [Cursor.rest_extend, List.length_append]
    omega
  rintro ⟨entries, after⟩ _
  refine (Cursor.expect_extend .closeBrace).bind fun after _ => ?_
  rw [Cursor.spanTo_extend some]
  rfl

omit opens in
theorem assign_foretells (scope : Scope) (path : DottedName) (target : Span) (value : Expr) :
    Foretells more id (assign scope path target value) (assign scope path target value) := by
  unfold assign
  split
  · exact .ok _
  · split
    · exact .ok _
    · exact .error rfl

theorem parseAssignment_extend :
    Foretells more (extendPair more finish) (parseAssignment c)
      (parseAssignment (c.extend more finish)) := by
  unfold parseAssignment
  refine (Cursor.scopedName_extend opens (fun _ => Cursor.here_extend) []).bind ?_
  rintro ⟨⟨scope, path⟩, after⟩ readTarget
  obtain ⟨ls, _, targetPassed, _, qualified⟩ := Cursor.passes_of_scopedName readTarget
  obtain ⟨l, others, _, rfl, _⟩ := qualified.exists_cons
  have some : c.rest ≠ [] := by
    rw [targetPassed.rest]
    exact List.cons_ne_nil _ _
  simp only [extendPair, Prod.map, id, Cursor.sees_extend (m := .colon) opens rfl]
  refine Foretells.ite (fun seen => ?_) fun _ => ?_
  · rw [Cursor.advance_extend (rest_ne_nil_of_sees seen)]
    exact (parseBlock_extend opens).bind fun _ _ => rfl
  · refine (Cursor.expect_extend .equals).bind fun valueStart _ => ?_
    refine (Expr.parseAt_extend opens).bind ?_
    rintro ⟨value, last⟩ _
    dsimp only [extendPair, Prod.map, id]
    rw [Cursor.spanTo_extend some]
    exact (assign_foretells scope path _ value).bind fun _ _ => rfl

/-! ## Sequences of statements -/

theorem parseBody_extend (some : more ≠ []) (solid : ∀ l ∈ c.rest, l.start < l.stop) :
    Resumes more finish (parseBody c) (parseBody (c.extend more finish)) := by
  by_cases none : c.rest = []
  · have ended : parseBody c = .error (c.unexpected .statementStart) := by
      unfold parseBody
      rw [Cursor.peek?_of_nil none]
    rw [ended]
    exact .inl (Cursor.kind_unexpected_of_nil none .statementStart)
  · unfold parseBody
    rw [Cursor.peek?_extend none, Cursor.advance_extend none]
    split
    · exact parseImport_extend opens
    · refine parseFromImport_extend opens some fun l member => solid l ?_
      rw [Cursor.rest_advance] at member
      exact List.mem_of_mem_tail member
    · exact parseInclude_extend.resumes
    · split
      · exact (parseAssignment_extend opens).resumes
      · exact (Cursor.foretells_unexpected .statementStart).resumes
    · exact (Cursor.foretells_unexpected .statementStart).resumes

theorem parseAt_extend (some : more ≠ []) (solid : ∀ l ∈ c.rest, l.start < l.stop)
    (goesOn : c.rest ≠ []) :
    Resumes more finish (parseAt c) (parseAt (c.extend more finish)) := by
  unfold parseAt
  refine (parseBody_extend opens some solid).map (fun _ _ => rfl) fun body after => ?_
  dsimp only
  rw [Cursor.spanTo_extend goesOn]
  rfl

omit opens in
theorem parseAll_of_nil (none : c.rest = []) (fuel : Nat) : parseAll fuel c = .ok [] := by
  cases fuel with
  | zero => rfl
  | succ fuel =>
    have ended : c.atEnd = true := List.isEmpty_iff.mpr none
    unfold parseAll
    rw [if_pos ended]

omit opens in
theorem rest_ne_nil_of_rejected {fuel : Nat} {error : SyntaxError}
    (rejected : parseAll fuel c = .error error) : c.rest ≠ [] := by
  intro none
  rw [parseAll_of_nil none] at rejected
  cases rejected

omit opens in
/-- A report is about the next statement, or about what is behind it. -/
theorem parseAll_rejected {fuel : Nat} {error : SyntaxError}
    (rejected : parseAll (fuel + 1) c = .error error) :
    parseAt c = .error error ∨
      ∃ statement after, parseAt c = .ok (statement, after) ∧
        parseAll fuel after = .error error := by
  unfold parseAll at rejected
  split at rejected
  · cases rejected
  · rcases error_of_bind rejected with failed | ⟨⟨statement, after⟩, read, rejected⟩
    · exact .inl failed
    · rcases error_of_bind rejected with failed | ⟨_, _, rejected⟩
      · exact .inr ⟨statement, after, read, failed⟩
      · cases rejected

/-- A report about tokens is the report with more tokens behind them. -/
theorem parseAll_extend (some : more ≠ []) {fuel enough : Nat}
    (boundExtended : c.rest.length ≤ enough) (solid : ∀ l ∈ c.rest, l.start < l.stop)
    {error : SyntaxError} (rejected : parseAll fuel c = .error error)
    (inside : error.kind ≠ .unexpectedEnd) :
    parseAll enough (c.extend more finish) = .error (error.extend more) := by
  induction fuel generalizing c enough with
  | zero => cases rejected
  | succ fuel ih =>
    have goesOn := rest_ne_nil_of_rejected rejected
    have resumes : Resumes more finish (parseAt c) (parseAt (c.extend more finish)) :=
      parseAt_extend opens some solid goesOn
    have goesOnExtended : ¬ (c.extend more finish).atEnd = true := fun ended =>
      goesOn (List.append_eq_nil_iff.mp (List.isEmpty_iff.mp ended)).1
    have size := List.length_pos_iff.mpr goesOn
    cases enough with
    | zero => omega
    | succ enough =>
      unfold parseAll
      rw [if_neg goesOnExtended]
      obtain failed | ⟨statement, after, read, failed⟩ := parseAll_rejected rejected
      · rw [failed] at resumes
        cases resumes with
        | inl ended => exact absurd ended inside
        | inr stays =>
          rw [stays]
          rfl
      · obtain ⟨ls, passed, spells, _⟩ := takes_of_parseAt read
        obtain ⟨l, others, _, rfl, _⟩ := spells.body.exists_cons
        have consumed := passed.length_eq
        rw [List.length_cons] at consumed
        -- What is reported comes behind this statement, so the input does not end here.
        rw [read] at resumes
        rw [ok_bind (resumes (rest_ne_nil_of_rejected failed))]
        dsimp only
        rw [ih (by omega) (passed.forall_rest solid) failed]
        rfl

end

/-! ## Sources -/

/-- What is accepted as statements opens with a name, wherever it stands. -/
theorem opens_ahead_of_statements {file : Nat} {lexemes : List Lexeme}
    {statements : List Statement} (derived : Grammar.Statements file lexemes statements)
    (count : Nat) : OpensWithName (lexemes.map (Lexeme.ahead count)) := by
  cases derived with
  | nil => exact nofun
  | cons spells =>
    obtain ⟨l, rest, name, rfl, named⟩ := spells.body.exists_cons
    rintro _ ⟨⟩
    exact ⟨name, named⟩

theorem ofLexemes_append_rejected {file : Nat} {lexemes : List Lexeme} (opens : OpensWithName more)
    (solid : ∀ l ∈ lexemes, l.start < l.stop) {error : SyntaxError}
    (rejected : ofLexemes file lexemes = .error error) (inside : error.kind ≠ .unexpectedEnd) :
    ofLexemes file (lexemes ++ more) = .error (error.extend more) := by
  by_cases some : more = []
  · have same : error.extend [] = error := ite_self error
    rw [some, List.append_nil, same]
    exact rejected
  · have longer : lexemes.length ≤ (lexemes ++ more).length := by simp
    exact parseAll_extend (c := Cursor.start file lexemes) opens some longer solid rejected inside

/-- A source that is rejected at one of its tokens, with accepted statements `b` behind it.
* The report stays what it is, with the same cause and so the same message, and at the same place.
* If the report is that of an unknown switch at the end of the source, its cause stays and it points
  at the first token of `b` instead. -/
theorem parseSource_append_rejected {file : Nat} {a b : String} {error : SyntaxError}
    {statements : List Statement} (rejected : parseSource file a = .error error)
    (kind : error.kind = .unexpectedToken ∨ error.kind = .invalidStatement)
    (accepted : parseSource file b = .ok statements) :
    (error.blamesEnd = false → parseSource file (a ++ "\n" ++ b) = .error error) ∧
    (error.blamesEnd = true → ∀ lexemes, tokenize b = .ok lexemes →
      parseSource file (a ++ "\n" ++ b) = .error ⟨error.cause,
        match lexemes.head? with
        | some l =>
          let shift := byteSize a.toList + 1
          ⟨error.span.file, l.start + shift, l.stop + shift⟩
        | none => error.span⟩) := by
  have inside : error.kind ≠ .unexpectedEnd := by
    rcases kind with kind | kind <;> rw [kind] <;> exact nofun
  obtain ⟨others, tokensOthers, derived⟩ := tokenize_of_parseSource accepted
  have opens := opens_ahead_of_statements (statements_of_ofLexemes derived)
    (byteSize a.toList + 1)
  have extended : parseSource file (a ++ "\n" ++ b) =
      .error (error.extend (others.map (Lexeme.ahead (byteSize a.toList + 1)))) := by
    unfold parseSource at rejected ⊢
    cases tokens : tokenize a with
    | error failure =>
      rw [tokens] at rejected
      cases rejected
      rcases kind with kind | kind <;> cases kind
    | ok lexemes =>
      rw [tokens] at rejected
      rw [Lexer.tokenize_append, tokens, tokensOthers]
      exact ofLexemes_append_rejected opens (covers_of_tokenize tokens).nonempty rejected inside
  rw [extended]
  refine ⟨fun stays => ?_, fun blames lexemes tokens => ?_⟩
  · rw [SyntaxError.extend, stays]
    rfl
  · cases tokensOthers.symm.trans tokens
    rw [SyntaxError.extend, if_pos blames, List.head?_map]
    cases others.head? <;> rfl

/-- What is reported about a source, if it is rejected. -/
def report? (file : Nat) (text : String) : Option SyntaxError :=
  match parseSource file text with
  | .error error => some error
  | .ok _ => none

theorem report?_eq_some_iff {file : Nat} {text : String} {error : SyntaxError} :
    report? file text = some error ↔ parseSource file text = .error error := by
  unfold report?
  cases parseSource file text <;> simp

theorem report?_eq_none_iff {file : Nat} {text : String} :
    report? file text = none ↔ ∃ statements, parseSource file text = .ok statements := by
  unfold report?
  cases parseSource file text <;> simp

/-- The second sign is reported, with or without an assignment behind it. -/
theorem parseSource_append_rejected_sign :
    parseSource 0 "x = = 1" = .error ⟨.unexpected (some (.mark .equals)) .value, ⟨0, 4, 5⟩⟩ ∧
      parseSource 0 ("x = = 1" ++ "\n" ++ "y = 2") =
        .error ⟨.unexpected (some (.mark .equals)) .value, ⟨0, 4, 5⟩⟩ := by
  have rejected : parseSource 0 "x = = 1" =
      .error ⟨.unexpected (some (.mark .equals)) .value, ⟨0, 4, 5⟩⟩ :=
    report?_eq_some_iff.mp (by decide +kernel)
  obtain ⟨statements, accepted⟩ : ∃ statements, parseSource 0 "y = 2" = .ok statements :=
    report?_eq_none_iff.mp (by decide +kernel)
  exact ⟨rejected, (parseSource_append_rejected rejected (.inl rfl) accepted).1 rfl⟩

/-- The report about an unknown switch points behind the name: at the end of the source, and at the
first token of an assignment that is added. -/
theorem unknownSwitch_report_moves :
    parseSource 0 "from __gin__ import other" = .error ⟨.unknownSwitch "other", ⟨0, 25, 25⟩⟩ ∧
      (∃ statements, parseSource 0 "x = 1" = .ok statements) ∧
      parseSource 0 ("from __gin__ import other" ++ "\n" ++ "x = 1") =
        .error ⟨.unknownSwitch "other", ⟨0, 26, 27⟩⟩ :=
  ⟨report?_eq_some_iff.mp (by decide +kernel), report?_eq_none_iff.mp (by decide +kernel),
    report?_eq_some_iff.mp (by decide)⟩

end Statement

end ConfigBinding
