import ConfigBinding.Proofs.Grammar.Respellings
import ConfigBinding.Proofs.Lexing.Lines
import ConfigBinding.Proofs.WrittenStatements

/-!
# Other statements in the place of one

Statements depend on each other in one point only: an import that gives no alias takes one that
comes next. Apart from this, texts that are read as statements can be put on lines below each other,
and are read as all their statements. So a binding in a text can be replaced by lines that bind
something for the same symbol. The statements around it stay what they are, only further on.

Results:
1. `Statement.parseSource_append_line`: statements on lines below others.
2. `Statement.parseSource_replace`: bindings of a symbol on lines in the place of one.
-/

namespace ConfigBinding

open Grammar

/-! ## Bytes of a text -/

namespace Text

/-- The characters up to a byte. -/
def takeBytes : Nat → List Char → List Char
  | _, [] => []
  | count, c :: cs => if count = 0 then [] else c :: takeBytes (count - c.utf8Size) cs

/-- The characters from a byte on. -/
def dropBytes : Nat → List Char → List Char
  | _, [] => []
  | count, c :: cs => if count = 0 then c :: cs else dropBytes (count - c.utf8Size) cs

theorem takeBytes_append (first rest : List Char) :
    takeBytes (byteSize first) (first ++ rest) = first := by
  induction first with
  | nil => cases rest <;> rfl
  | cons c first ih =>
    have wide := c.utf8Size_pos
    have some : ¬ byteSize (c :: first) = 0 := by
      rw [byteSize_cons]
      omega
    rw [List.cons_append, takeBytes, if_neg some, byteSize_cons, Nat.add_sub_cancel_left, ih]

theorem dropBytes_append (first rest : List Char) :
    dropBytes (byteSize first) (first ++ rest) = rest := by
  induction first with
  | nil => cases rest <;> rfl
  | cons c first ih =>
    have wide := c.utf8Size_pos
    have some : ¬ byteSize (c :: first) = 0 := by
      rw [byteSize_cons]
      omega
    rw [List.cons_append, dropBytes, if_neg some, byteSize_cons, Nat.add_sub_cancel_left, ih]

/-- The text from the byte `start` up to the byte `stop`. -/
def slice (start stop : Nat) (text : String) : String :=
  String.ofList (takeBytes (stop - start) (dropBytes start text.toList))

/-- The text with the bytes of a span replaced by lines. -/
def replaceLines (span : Span) (lines text : String) : String :=
  slice 0 span.start text ++ "\n" ++ lines ++ "\n" ++ slice span.stop (byteSize text.toList) text

theorem slice_of_cut {start stop : Nat} {text : String} {piece : List Char}
    (cut : Lexer.Cut text.toList start stop piece) :
    slice start stop text = String.ofList piece := by
  obtain ⟨before, after, whole, rfl, rfl⟩ := cut
  rw [slice, whole, dropBytes_append, Nat.add_sub_cancel_left, takeBytes_append]

end Text

section

variable {text : String} {before piece after : List Lexeme} (number : Nat)

/-- What stands before some lexemes of a text reads as the lexemes before them. -/
theorem tokenize_before (read : tokenize text = .ok (before ++ (piece ++ after)))
    (some : piece ≠ []) :
    tokenize (Text.slice 0 (cover number piece).start text) = .ok before := by
  obtain ⟨first, others, rfl⟩ := List.exists_cons_of_ne_nil some
  obtain ⟨rest, earlier, _⟩ := (tokenize_eq_ok_iff.mp read).split_before
  obtain ⟨taken, whole, place, reads⟩ := earlier.truncate
  have cut : Lexer.Cut text.toList 0 first.start taken := ⟨[], rest, whole, rfl, place⟩
  have alone := reads [] List.nil_prefix
  rw [List.append_nil, place, Nat.zero_add] at alone
  rw [show (cover number (first :: others)).start = first.start from rfl, Text.slice_of_cut cut,
    tokenize_eq_ok_iff, String.toList_ofList]
  exact alone

/-- What stands behind some lexemes of a text reads as the lexemes behind them. -/
theorem tokenize_behind (read : tokenize text = .ok (before ++ (piece ++ after)))
    (some : piece ≠ []) :
    tokenize (Text.slice (cover number piece).stop (byteSize text.toList) text) =
      .ok (after.map (Lexeme.back (cover number piece).stop)) := by
  obtain ⟨fewer, last, rfl⟩ := List.eq_nil_or_concat piece |>.resolve_left some
  have stop : (cover number (fewer.concat last)).stop = last.stop := by
    rw [cover, List.concat_eq_append, List.getLast?_concat]
    rfl
  have munches := tokenize_eq_ok_iff.mp read
  rw [List.concat_eq_append, List.append_assoc, ← List.append_assoc] at munches
  obtain ⟨rest, upToLast, behind⟩ := munches.split_behind
  obtain ⟨taken, whole, place, _⟩ := upToLast.truncate
  rw [Nat.zero_add] at place
  have cut : Lexer.Cut text.toList last.stop (byteSize text.toList) rest := by
    refine ⟨taken, [], by rw [List.append_nil, whole], place, ?_⟩
    rw [whole, byteSize_append, place]
  have alone := behind.back (Nat.le_refl _)
  rw [Nat.sub_self, whole, byteSize_append, ← place, Nat.add_sub_cancel_left] at alone
  rw [stop, Text.slice_of_cut cut, tokenize_eq_ok_iff, String.toList_ofList]
  exact alone

end

/-! ## Sequences of statements -/

/-- The last of the statements takes an alias that comes next. -/
def TakesAlias (statements : List Statement) : Prop :=
  ∃ last ∈ statements.getLast?, takesAlias last.body = true

theorem TakesAlias.cons {statements : List Statement} (takes : TakesAlias statements)
    (statement : Statement) : TakesAlias (statement :: statements) := by
  obtain ⟨last, isLast, takes⟩ := takes
  refine ⟨last, ?_, takes⟩
  rw [List.getLast?_cons, Option.mem_def.mp isLast]
  rfl

theorem TakesAlias.of_cons {statement next : Statement} {statements : List Statement}
    (takes : TakesAlias (statement :: next :: statements)) : TakesAlias (next :: statements) := by
  obtain ⟨last, isLast, takes⟩ := takes
  rw [List.getLast?_cons_cons] at isLast
  exact ⟨last, isLast, takes⟩

theorem takesAlias_congr {statements others : List Statement}
    (same : statements.map Statement.withoutSpans = others.map Statement.withoutSpans) :
    TakesAlias statements ↔ TakesAlias others := by
  have iff (statements : List Statement) : TakesAlias statements ↔
      ∃ last ∈ (statements.map Statement.withoutSpans).getLast?, takesAlias last.body = true := by
    rw [List.getLast?_map]
    unfold TakesAlias
    cases statements.getLast? with
    | none => simp
    | some last =>
      have same : takesAlias last.withoutSpans.body = takesAlias last.body :=
        takesAlias_withoutSpans last.body
      simp [same]
  rw [iff, iff, same]

namespace Grammar.Statements

variable {file : Nat} {ls ms : List Lexeme} {before after : List Statement}

theorem eq_nil (derived : Statements file [] before) : before = [] := by
  generalize none : ([] : List Lexeme) = ls at derived
  cases derived with
  | nil => rfl
  | cons spells =>
    obtain ⟨_, _, _, rfl, _⟩ := spells.body.exists_cons
    cases none

/-- Statements follow each other unless the first of the others would be an alias. -/
theorem append (derived : Statements file ls before) (others : Statements file ms after)
    (apart : TakesAlias before → ∀ l ∈ ms.head?, ¬ l.Is .kwAs) :
    Statements file (ls ++ ms) (before ++ after) := by
  induction derived with
  | nil => exact others
  | @cons piece rest statement statements spells following noAlias ih =>
    rw [List.append_assoc]
    refine .cons spells (ih fun takes => apart (takes.cons statement)) fun takes l member => ?_
    cases rest with
    | nil =>
      obtain rfl := following.eq_nil
      exact apart ⟨statement, rfl, takes⟩ l member
    | cons first rest => exact noAlias takes l member

/-- A sequence of statements in two parts. -/
theorem split (derived : Statements file ls (before ++ after)) :
    ∃ first second, ls = first ++ second ∧ Statements file first before ∧
      Statements file second after ∧ (TakesAlias before → ∀ l ∈ second.head?, ¬ l.Is .kwAs) := by
  induction before generalizing ls with
  | nil => exact ⟨[], ls, rfl, .nil, derived, nofun⟩
  | cons statement before ih =>
    cases derived with
    | @cons piece _ _ _ spells others noAlias =>
      obtain ⟨first, second, rfl, derivedFirst, derivedSecond, apart⟩ := ih others
      refine ⟨piece ++ first, second, (List.append_assoc ..).symm,
        .cons spells derivedFirst fun takes l member => noAlias takes l ?_, derivedSecond,
        fun takes l member => ?_⟩
      · rw [List.head?_append, Option.mem_def.mp member]
        rfl
      · cases before with
        | nil =>
          obtain ⟨last, isLast, takes⟩ := takes
          cases isLast
          cases derivedFirst
          exact noAlias takes l member
        | cons next before => exact apart takes.of_cons l member

end Grammar.Statements

/-! ## Statements on lines -/

namespace Statement

/-- Statements on lines below others are read like the others and then these, unless the first of
them would be an alias. -/
theorem parseSource_append_line {a b : String} {m n : Nat} {first second : List Statement}
    (read : parseSource m a = .ok first) (also : parseSource n b = .ok second)
    (apart : TakesAlias first → ∀ lexemes, tokenize b = .ok lexemes →
      ∀ l ∈ lexemes.head?, ¬ l.Is .kwAs) (number : Nat) :
    ∃ statements, parseSource number (a ++ "\n" ++ b) = .ok statements ∧
      statements.map withoutSpans = (first ++ second).map withoutSpans := by
  obtain ⟨lexemes, tokens, _, derived⟩ := lexemes_of_parseSource read
  obtain ⟨others, tokensAlso, _, derivedAlso⟩ := lexemes_of_parseSource also
  have moved : Respells (others.map (Lexeme.ahead (byteSize a.toList + 1))) others :=
    respells_map (Lexeme.ahead _) (fun _ => rfl) others
  have kept : Respells lexemes lexemes := rfl
  obtain ⟨front, derivedFront, alike⟩ := derived.respelled number kept
  obtain ⟨back, derivedBack, alikeBack⟩ := derivedAlso.respelled number moved
  refine ⟨front ++ back, ?_, by rw [List.map_append, List.map_append, alike, alikeBack]⟩
  unfold parseSource
  rw [(tokenize_append_line a b).2.1 lexemes others tokens tokensAlso]
  refine ofLexemes_of_statements (derivedFront.append derivedBack fun takes l member isAs => ?_)
  rw [List.head?_map] at member
  obtain ⟨original, isFirst, rfl⟩ := Option.map_eq_some_iff.mp member
  exact apart ((takesAlias_congr alike).mp takes) others tokensAlso original isFirst isAs

/-- Statements of which none takes an alias, each on lines of its own. -/
theorem parseSource_join {number : Nat} {texts : List String} {statements : List Statement}
    (each : List.Forall₂ (fun text statement => ∃ written,
      parseSource number text = .ok [written] ∧ written.withoutSpans = statement.withoutSpans)
      texts statements)
    (closed : ∀ statement ∈ statements, takesAlias statement.body = false) :
    ∃ written, parseSource number (Text.join "\n" texts) = .ok written ∧
      written.map withoutSpans = statements.map withoutSpans := by
  induction each with
  | nil => exact ⟨[], rfl, rfl⟩
  | @cons text statement texts statements first others ih =>
    obtain ⟨written, read, alike⟩ := first
    obtain ⟨firstClosed, othersClosed⟩ := List.forall_mem_cons.mp closed
    cases others with
    | nil => exact ⟨[written], read, congrArg ([·]) alike⟩
    | cons _ _ =>
      obtain ⟨rest, readRest, alikeRest⟩ := ih othersClosed
      have ended : ¬ TakesAlias [written] := by
        have same : [written].map withoutSpans = [statement].map withoutSpans :=
          congrArg ([·]) alike
        rw [takesAlias_congr same]
        rintro ⟨last, isLast, takes⟩
        obtain rfl : statement = last := Option.some.inj isLast
        exact Bool.false_ne_true (firstClosed.symm.trans takes)
      obtain ⟨all, readAll, alikeAll⟩ := parseSource_append_line read readRest
        (fun takes => absurd takes ended) number
      refine ⟨all, readAll, ?_⟩
      rw [alikeAll, List.map_append, alikeRest, List.map_cons, List.map_nil, alike]
      rfl

/-! ## Bindings of a symbol -/

/-- The statement binds something for the symbol in the scope. -/
def Binds (statement : Statement) (scope : Scope) (symbol : DottedName) : Prop :=
  ∃ body, statement.body = .binding ⟨scope, symbol, body⟩

theorem Binds.of_withoutSpans {statement other : Statement} {scope : Scope} {symbol : DottedName}
    (same : statement.withoutSpans = other.withoutSpans) (binds : other.Binds scope symbol) :
    statement.Binds scope symbol := by
  obtain ⟨body, span⟩ := statement
  obtain ⟨otherBody, otherSpan⟩ := other
  obtain ⟨bound, rfl⟩ := binds
  have bodies : body.withoutSpans = StatementBody.withoutSpans (.binding ⟨scope, symbol, bound⟩) :=
    congrArg Statement.body same
  cases body with
  | binding inner =>
    have parts := StatementBody.binding.inj bodies
    obtain ⟨rfl, rfl, _⟩ := Binding.mk.inj parts
    exact ⟨inner.body, rfl⟩
  | _ => cases bodies

/-- A binding begins with the first segment of its scope or its symbol. -/
theorem Binds.opens {number : Nat} {ls : List Lexeme} {statement : Statement} {scope : Scope}
    {symbol : DottedName} (binds : statement.Binds scope symbol)
    (spells : Spells number ls statement) (words : ∀ l ∈ ls, l.IsWord) :
    ∃ l ∈ ls.head?, ∃ first ∈ firstSegment? scope symbol, l.token = Lexer.nameToken first := by
  obtain ⟨body, span⟩ := statement
  obtain ⟨bound, rfl⟩ := binds
  have opens {ls : List Lexeme} {names : DottedName} (target : Target ls scope names)
      {more : List Lexeme} (words : ∀ l ∈ ls ++ more, l.IsWord) :
      ∃ l ∈ (ls ++ more).head?, ∃ first ∈ firstSegment? scope names,
        l.token = Lexer.nameToken first := by
    obtain ⟨l, rest, first, rfl, named, segment⟩ := target.path.exists_first
    exact ⟨l, rfl, first, segment, (words l List.mem_cons_self first named).2⟩
  cases spells.body with
  | @single _ _ _ _ _ param _ target nonempty =>
    have opened := opens target words
    rwa [firstSegment?_append scope nonempty param] at opened
  | block target => exact opens target words

/-- Where a binding does not begin with `as`, others of the symbol do not either. -/
theorem Binds.apart {number m : Nat} {text lines : String} {front piece back : List Lexeme}
    {statement : Statement} {written : List Statement} {scope : Scope} {symbol : DottedName}
    (binds : statement.Binds scope symbol) (spells : Spells number piece statement)
    (tokens : tokenize text = .ok (front ++ (piece ++ back)))
    (noAlias : ∀ l ∈ (piece ++ back).head?, ¬ l.Is .kwAs)
    (also : parseSource m lines = .ok written) (some : written ≠ [])
    (each : ∀ other ∈ written, other.Binds scope symbol) :
    ∀ lexemes, tokenize lines = .ok lexemes → ∀ l ∈ lexemes.head?, ¬ l.Is .kwAs := by
  have words := Lexer.isName_of_tokenize tokens
  obtain ⟨l, isFirst, first, segment, token⟩ := binds.opens spells fun l member =>
    words l (List.mem_append_right _ (List.mem_append_left _ member))
  obtain ⟨next, others, rfl⟩ := List.exists_cons_of_ne_nil some
  intro lexemes tokensLines other isOther isAs
  obtain ⟨_, tokensAlso, _, derived⟩ := lexemes_of_parseSource also
  cases tokensLines.symm.trans tokensAlso
  cases derived with
  | @cons start _ _ _ spellsNext =>
    have wordsNext := Lexer.isName_of_tokenize tokensLines
    obtain ⟨opening, isOpening, same, segmentToo, tokenToo⟩ :=
      (each next List.mem_cons_self).opens spellsNext fun l member =>
        wordsNext l (List.mem_append_left _ member)
    obtain rfl : first = same := Option.some.inj (segment.symm.trans segmentToo)
    rw [List.head?_append, Option.mem_def.mp isOpening] at isOther
    cases isOther
    refine noAlias l ?_ (token.trans (tokenToo.symm.trans isAs))
    rw [List.head?_append, Option.mem_def.mp isFirst]
    rfl

theorem not_takesAlias_append {scope : Scope} {symbol : DottedName} (before : List Statement)
    {written : List Statement} (some : written ≠ [])
    (each : ∀ other ∈ written, other.Binds scope symbol) : ¬ TakesAlias (before ++ written) := by
  rintro ⟨last, isLast, takes⟩
  rw [List.getLast?_append_of_ne_nil _ some] at isLast
  obtain ⟨body, binds⟩ := each last (List.mem_of_getLast? isLast)
  rw [binds] at takes
  cases takes

/-- Lines that bind something for a symbol can stand in the place of a binding of the symbol. -/
theorem parseSource_replace {number m : Nat} {text lines : String}
    {before after written : List Statement} {statement : Statement} {scope : Scope}
    {symbol : DottedName} (read : parseSource number text = .ok (before ++ statement :: after))
    (also : parseSource m lines = .ok written) (some : written ≠ [])
    (binds : statement.Binds scope symbol) (each : ∀ other ∈ written, other.Binds scope symbol) :
    ∃ statements, parseSource number (Text.replaceLines statement.span lines text) =
        .ok statements ∧
      statements.map withoutSpans = (before ++ (written ++ after)).map withoutSpans := by
  obtain ⟨lexemes, tokens, _, derived⟩ := lexemes_of_parseSource read
  obtain ⟨front, following, rfl, derivedBefore, derivedFollowing, noAlias⟩ := derived.split
  cases derivedFollowing with
  | @cons piece back _ _ spells derivedAfter =>
    have readFront : parseSource number (Text.slice 0 statement.span.start text) = .ok before := by
      unfold parseSource
      rw [spells.span, tokenize_before number tokens spells.ne_nil]
      exact ofLexemes_of_statements derivedBefore
    obtain ⟨others, derivedOthers, alikeAfter⟩ := derivedAfter.respelled number
      (respells_map (Lexeme.back (cover number piece).stop) (fun _ => rfl) back)
    have readBack : parseSource number
        (Text.slice statement.span.stop (byteSize text.toList) text) = .ok others := by
      unfold parseSource
      rw [spells.span, tokenize_behind number tokens spells.ne_nil]
      exact ofLexemes_of_statements derivedOthers
    obtain ⟨upper, readUpper, alikeUpper⟩ := parseSource_append_line readFront also
      (fun takes => binds.apart spells tokens (noAlias takes) also some each) number
    have ended : ¬ TakesAlias upper := fun takes =>
      not_takesAlias_append before some each ((takesAlias_congr alikeUpper).mp takes)
    obtain ⟨statements, readAll, alike⟩ := parseSource_append_line readUpper readBack
      (fun takes => absurd takes ended) number
    refine ⟨statements, readAll, ?_⟩
    rw [alike, List.map_append, alikeUpper, alikeAfter, ← List.map_append, List.append_assoc]

end Statement

end ConfigBinding
