import ConfigBinding.Proofs.Grammar.Statements
import ConfigBinding.Proofs.Reading.Statements

/-!
# Statements are read back

A statement that was read from a text, whatever its spelling there, is read again from what is
written for it. By the grammar, the names of such a statement are names that the lexer reads, no
keyword of another statement begins it, and its parameters come once. That is all that reading it
back takes, but for its floating point numbers: a number that is written has to be read as itself.

Results:
1. `Lexer.isName_of_tokenize`: a token that stands for a name is a name of the language.
2. `Grammar.Body.writable`: what the grammar derives can be read as it is written.
3. `Statement.readBack_of_parseSource`: a statement that was read is read back, up to spans.
-/

namespace ConfigBinding

open Grammar Lexer

/-! ## Floating point numbers -/

namespace Expr

mutual

/-- The floating point numbers in an expression, in order. -/
def floats : Expr → List Binary64
  | .literal (.float x) _ => [x]
  | .literal _ _ => []
  | .list items _ => floatsOfItems items
  | .tuple items _ => floatsOfItems items
  | .map entries _ => floatsOfEntries entries
  | .macroRef _ _ => []
  | .reference _ _ => []

def floatsOfItems : List Expr → List Binary64
  | [] => []
  | item :: items => item.floats ++ floatsOfItems items

def floatsOfEntries : List (String × Expr) → List Binary64
  | [] => []
  | (_, value) :: entries => value.floats ++ floatsOfEntries entries

end

theorem floatsOfItems_eq (items : List Expr) : floatsOfItems items = items.flatMap floats := by
  induction items with
  | nil => rfl
  | cons item items ih => rw [floatsOfItems, ih, List.flatMap_cons]

theorem floatsOfEntries_eq (entries : List (String × Expr)) :
    floatsOfEntries entries = entries.flatMap fun entry => entry.2.floats := by
  induction entries with
  | nil => rfl
  | cons entry entries ih => rw [floatsOfEntries, ih, List.flatMap_cons]

/-- The expression names macros and configurables by names of the language. -/
inductive OfNames : Expr → Prop
  | literal (value : Literal) (span : Span) : OfNames (.literal value span)
  | list {items : List Expr} (span : Span) :
      (∀ item ∈ items, OfNames item) → OfNames (.list items span)
  | tuple {items : List Expr} (span : Span) :
      (∀ item ∈ items, OfNames item) → OfNames (.tuple items span)
  | map {entries : List (String × Expr)} (span : Span) :
      (∀ entry ∈ entries, OfNames entry.2) → OfNames (.map entries span)
  | macroRef {name : DottedName} (span : Span) :
      name.OfNames → OfNames (.macroRef name span)
  | reference {target : Reference} (span : Span) :
      target.scope.OfNames → target.symbol.OfNames → OfNames (.reference target span)

namespace OfNames

/-- The same expression under another span has the same names. -/
theorem withSpan {e : Expr} (named : e.OfNames) (span : Span) : (e.withSpan span).OfNames := by
  cases named with
  | literal value _ => exact .literal value span
  | list _ items => exact .list span items
  | tuple _ items => exact .tuple span items
  | map _ entries => exact .map span entries
  | macroRef _ named => exact .macroRef span named
  | reference _ inner named => exact .reference span inner named

/-- Besides the names, only the numbers have to be read back. -/
theorem writable {e : Expr} (named : e.OfNames) (back : ∀ x ∈ e.floats, x.ReadsBack) :
    e.Writable := by
  induction named with
  | literal value span =>
    refine .literal span fun x same => back x ?_
    rw [same]
    exact List.mem_cons_self
  | list span _ ih =>
    rw [floats, floatsOfItems_eq] at back
    exact .list span fun item member => ih item member fun x inside =>
      back x (List.mem_flatMap_of_mem member inside)
  | tuple span _ ih =>
    rw [floats, floatsOfItems_eq] at back
    exact .tuple span fun item member => ih item member fun x inside =>
      back x (List.mem_flatMap_of_mem member inside)
  | map span _ ih =>
    rw [floats, floatsOfEntries_eq] at back
    exact .map span fun entry member => ih entry member fun x inside =>
      back x (List.mem_flatMap_of_mem member inside)
  | macroRef span named => exact .macroRef span named
  | reference span inner named => exact .reference span inner named

end OfNames

end Expr

/-- The floating point numbers in a statement. -/
def StatementBody.floats : StatementBody → List Binary64
  | .macroDef _ value => value.floats
  | .binding bound => bound.parameters.flatMap fun entry => entry.2.floats
  | _ => []

/-! ## Names that the lexer reads -/

/-- If the lexeme stands for a name, it is that of a name of the language. -/
def Lexeme.IsWord (l : Lexeme) : Prop :=
  ∀ name, l.Names name → isName name = true ∧ l.token = nameToken name

namespace Lexer

theorem isName_of_wordToken {c : Char} {cs : List Char} (start : isNameStart c = true)
    (inside : ∀ d ∈ cs, isNameChar d = true) {name : String}
    (named : (wordToken (c :: cs)).name? = some name) :
    isName name = true ∧ wordToken (c :: cs) = nameToken name := by
  have some : (wordToken (c :: cs)).name?.isSome = true := by
    rw [named]
    rfl
  have same : name.toList = c :: cs := by
    rw [Option.some.inj (named.symm.trans (name?_wordToken some)), String.toList_ofList]
  refine ⟨isName_iff.mpr ⟨c, cs, same, start, inside, ?_⟩, ?_⟩
  · rw [nameToken, same, some]
  · rw [nameToken, same]

theorem isName_of_scan {c : Char} {cs taken rest : List Char} {token : Token}
    (scanned : scan c cs = .token token taken rest) {name : String}
    (named : token.name? = some name) : isName name = true ∧ token = nameToken name := by
  unfold scan at scanned
  split at scanned
  · cases scanned
  split at scanned
  · cases scanned
  split at scanned
  · rename_i start
    cases scanned
    exact isName_of_wordToken start (fun d member => List.mem_takeWhile_imp member) named
  split at scanned
  · -- A string is no name.
    unfold scanString at scanned
    dsimp only at scanned
    split at scanned
    · cases scanned
    · split at scanned
      · cases scanned
      · cases scanned
        cases named
  split at scanned
  · -- Nor is a number.
    obtain ⟨numeral, _, value, _⟩ := scanNumber_eq_token.mp scanned
    unfold Numeral.token? at value
    split at value
    · split at value
      · cases value
        cases named
      · cases value
    · cases value
      cases named
  · split at scanned
    · rename_i m spelled
      cases scanned
      unfold Mark.ofChar? at spelled
      split at spelled <;> cases spelled <;> cases named
    · cases scanned

theorem isName_of_tokenize {text : String} {lexemes : List Lexeme}
    (read : tokenize text = .ok lexemes) : ∀ l ∈ lexemes, l.IsWord := by
  have each {cs : List Char} {tokens : List Token} (reads : Reads cs tokens) :
      ∀ token ∈ tokens, ∀ name, token.name? = some name →
        isName name = true ∧ token = nameToken name := by
    induction reads with
    | nil => exact List.forall_mem_nil _
    | skip _ _ ih => exact ih
    | token scanned _ ih => exact List.forall_mem_cons.mpr ⟨fun _ => isName_of_scan scanned, ih⟩
  exact fun l member => each (reads_of_tokenize read) l.token (List.mem_map_of_mem member)

end Lexer

/-! ## What the grammar derives is writable -/

namespace Grammar

theorem Segments.isName {ls : List Lexeme} {names : List String} (segments : Segments ls names)
    (words : ∀ l ∈ ls, l.IsWord) : ∀ name ∈ names, isName name = true := by
  induction segments with
  | nil => exact List.forall_mem_nil _
  | cons _ named _ ih =>
    obtain ⟨_, following⟩ := List.forall_mem_cons.mp words
    obtain ⟨l, others⟩ := List.forall_mem_cons.mp following
    exact List.forall_mem_cons.mpr ⟨(l _ named).1, ih others⟩

theorem Dotted.ofNames {ls : List Lexeme} {name : DottedName} (named : Dotted ls name)
    (words : ∀ l ∈ ls, l.IsWord) : name.OfNames := by
  cases named with
  | mk first segments =>
    obtain ⟨l, others⟩ := List.forall_mem_cons.mp words
    exact ⟨List.cons_ne_nil _ _,
      List.forall_mem_cons.mpr ⟨(l _ first).1, segments.isName others⟩⟩

theorem Path.isName {ls : List Lexeme} {names : List String} (path : Path ls names)
    (words : ∀ l ∈ ls, l.IsWord) : ∀ name ∈ names, isName name = true := by
  induction path with
  | nil => exact List.forall_mem_nil _
  | cons named _ _ ih =>
    obtain ⟨l, following⟩ := List.forall_mem_cons.mp words
    obtain ⟨_, others⟩ := List.forall_mem_cons.mp following
    exact List.forall_mem_cons.mpr ⟨(l _ named).1, ih others⟩

theorem Scoped.ofNames {ls : List Lexeme} {names : List String} {symbol : DottedName}
    (qualified : Scoped ls names symbol) (words : ∀ l ∈ ls, l.IsWord) :
    (∀ name ∈ names, isName name = true) ∧ symbol.OfNames := by
  induction qualified with
  | name named => exact ⟨List.forall_mem_nil _, named.ofNames words⟩
  | scope named _ _ ih =>
    obtain ⟨l, following⟩ := List.forall_mem_cons.mp words
    obtain ⟨_, others⟩ := List.forall_mem_cons.mp following
    obtain ⟨inner, symbol⟩ := ih others
    exact ⟨List.forall_mem_cons.mpr ⟨(l _ named).1, inner⟩, symbol⟩

theorem ReferenceTo.ofNames {ls : List Lexeme} {target : Reference} (refers : ReferenceTo ls target)
    (words : ∀ l ∈ ls, l.IsWord) : target.scope.OfNames ∧ target.symbol.OfNames := by
  obtain ⟨path, _, qualified, _⟩ := refers
  obtain ⟨outer, behind⟩ := List.forall_mem_append.mp words
  obtain ⟨_, following⟩ := List.forall_mem_cons.mp behind
  obtain ⟨inner, _⟩ := List.forall_mem_append.mp following
  obtain ⟨below, symbol⟩ := qualified.ofNames inner
  exact ⟨List.forall_mem_append.mpr ⟨path.isName outer, below⟩, symbol⟩

theorem words_inside {opening closing : Lexeme} {ls : List Lexeme}
    (words : ∀ l ∈ opening :: (ls ++ [closing]), l.IsWord) : ∀ l ∈ ls, l.IsWord :=
  fun l member => words l (List.mem_cons_of_mem _ (List.mem_append_left _ member))

variable {file : Nat}

mutual

/-- The recursion is on the derivation; its parts have the lexemes of the whole. -/
theorem Value.ofNames : ∀ {ls : List Lexeme} {e : Expr}, Value file ls e →
    (∀ l ∈ ls, l.IsWord) → e.OfNames
  | _, _, .constant _ _, _ => .literal _ _
  | _, _, .text _, _ => .literal _ _
  | _, _, .list _ items _, words => .list _ (items.ofNames (words_inside words))
  | _, _, .tuple _ items _ _, words => .tuple _ (items.ofNames (words_inside words))
  | _, _, .parentheses _ value _, words => (value.ofNames (words_inside words)).withSpan _
  | _, _, .map _ entries _, words => .map _ (entries.ofNames (words_inside words))
  | _, _, .macroRef _ named, words =>
    .macroRef _ (named.ofNames (List.forall_mem_cons.mp words).2)
  | _, _, .reference refers, words =>
    .reference _ (refers.ofNames words).1 (refers.ofNames words).2

theorem Items.ofNames : ∀ {before behind : Bool} {ls : List Lexeme} {items : List Expr},
    Items file before ls items behind → (∀ l ∈ ls, l.IsWord) → ∀ item ∈ items, item.OfNames
  | _, _, _, _, .none, _ => List.forall_mem_nil _
  | _, _, _, _, .last value, words => List.forall_mem_singleton.mpr (value.ofNames words)
  | _, _, _, _, .more value _ others, words => by
    obtain ⟨here, behind⟩ := List.forall_mem_append.mp words
    exact List.forall_mem_cons.mpr ⟨value.ofNames here,
      others.ofNames (List.forall_mem_cons.mp behind).2⟩

theorem Entries.ofNames : ∀ {ls : List Lexeme} {entries : List (String × Expr)},
    Entries file ls entries → (∀ l ∈ ls, l.IsWord) → ∀ entry ∈ entries, entry.2.OfNames
  | _, _, .none, _ => List.forall_mem_nil _
  | _, _, .last _ _ value, words => by
    obtain ⟨_, behind⟩ := List.forall_mem_append.mp words
    exact List.forall_mem_singleton.mpr (value.ofNames (List.forall_mem_cons.mp behind).2)
  | _, _, .more _ _ value _ others, words => by
    obtain ⟨_, behind⟩ := List.forall_mem_append.mp words
    obtain ⟨here, following⟩ := List.forall_mem_append.mp (List.forall_mem_cons.mp behind).2
    exact List.forall_mem_cons.mpr ⟨value.ofNames here,
      others.ofNames (List.forall_mem_cons.mp following).2⟩

end

/-- A target begins with the first segment of its scope or name. -/
theorem Scoped.exists_first {ls : List Lexeme} {names : List String} {symbol : DottedName}
    (qualified : Scoped ls names symbol) :
    ∃ l rest first, ls = l :: rest ∧ l.Names first ∧ firstSegment? ⟨names⟩ symbol = some first := by
  cases qualified with
  | name named =>
    cases named with
    | mk first => exact ⟨_, _, _, rfl, first, rfl⟩
  | scope first => exact ⟨_, _, _, rfl, first, rfl⟩

theorem Target.plain_first {ls : List Lexeme} {scope : Scope} {name : DottedName}
    (target : Target ls scope name) (words : ∀ l ∈ ls, l.IsWord) :
    ∀ first ∈ firstSegment? scope name, first ∉ Statement.openingWords := by
  obtain ⟨l, rest, first, rfl, named, segment⟩ := target.path.exists_first
  have apart : opensOther l.token = false := target.plain l rfl
  have token := ((List.forall_mem_cons.mp words).1 first named).2
  intro other member opening
  obtain rfl : first = other := Option.some.inj (segment.symm.trans member)
  rw [token] at apart
  rw [Statement.openingWords, List.mem_map] at opening
  obtain ⟨m, keyword, rfl⟩ := opening
  simp only [List.mem_cons, List.not_mem_nil, or_false] at keyword
  rcases keyword with rfl | rfl | rfl <;> cases apart

theorem Target.ofNames {ls : List Lexeme} {scope : Scope} {name : DottedName}
    (target : Target ls scope name) (words : ∀ l ∈ ls, l.IsWord) :
    scope.OfNames ∧ name.OfNames :=
  target.path.ofNames words

theorem Alias.isName {ls : List Lexeme} {asName : Option String} (named : Alias ls asName)
    (words : ∀ l ∈ ls, l.IsWord) : ∀ name ∈ asName, isName name = true := by
  cases named with
  | none => exact fun _ member => nomatch member
  | some _ isName =>
    intro other member
    cases member
    exact (words _ (List.mem_cons_of_mem _ List.mem_cons_self) _ isName).1

theorem Parameters.ofNames {ls : List Lexeme} {entries : List (String × Expr)}
    (parameters : Parameters file ls entries) (words : ∀ l ∈ ls, l.IsWord) :
    ∀ entry ∈ entries, Lexer.isName entry.1 = true ∧ entry.2.OfNames := by
  induction parameters with
  | nil => exact List.forall_mem_nil _
  | cons named _ value _ _ ih =>
    obtain ⟨l, behindName⟩ := List.forall_mem_cons.mp words
    obtain ⟨_, behindEquals⟩ := List.forall_mem_cons.mp behindName
    obtain ⟨here, behindValue⟩ := List.forall_mem_append.mp behindEquals
    obtain ⟨_, following⟩ := List.forall_mem_append.mp behindValue
    exact List.forall_mem_cons.mpr ⟨⟨(l _ named).1, value.ofNames here⟩, ih following⟩

/-- A statement of lexemes of a text can be read as it is written. -/
theorem Body.writable {ls : List Lexeme} {body : StatementBody} (derived : Body file ls body)
    (words : ∀ l ∈ ls, l.IsWord) (back : ∀ x ∈ body.floats, x.ReadsBack) : body.Writable := by
  cases derived with
  | importPath _ named aliased =>
    obtain ⟨_, following⟩ := List.forall_mem_cons.mp words
    obtain ⟨path, as⟩ := List.forall_mem_append.mp following
    exact .importPath (named.ofNames path) (aliased.isName as)
  | importFrom _ named apart _ isName aliased =>
    obtain ⟨_, following⟩ := List.forall_mem_cons.mp words
    obtain ⟨path, behind⟩ := List.forall_mem_append.mp following
    obtain ⟨_, behindMiddle⟩ := List.forall_mem_cons.mp behind
    obtain ⟨l, as⟩ := List.forall_mem_cons.mp behindMiddle
    have other := mt (DottedName.toText_eq_iff named.segments_ne_nil (by decide)).mp apart
    exact .importFrom (named.ofNames path) other (l _ isName).1 (aliased.isName as)
  | dynamicRegistration => exact .dynamicRegistration
  | includeFile => exact .includeFile _
  | macroDef target _ value =>
    obtain ⟨here, behind⟩ := List.forall_mem_append.mp words
    obtain ⟨_, values⟩ := List.forall_mem_cons.mp behind
    exact .macroDef ((target.ofNames here).2.segments _ List.mem_cons_self)
      (target.plain_first here _ rfl) ((value.ofNames values).writable back)
  | @single _ _ _ scope symbol param value target nonempty _ derived =>
    obtain ⟨here, behind⟩ := List.forall_mem_append.mp words
    obtain ⟨_, values⟩ := List.forall_mem_cons.mp behind
    obtain ⟨inner, path⟩ := target.ofNames here
    obtain ⟨segments, last⟩ := List.forall_mem_append.mp path.segments
    have plain := target.plain_first here
    rw [firstSegment?_append scope nonempty] at plain
    have readable : Statement.Readable (⟨scope, symbol, param⟩, value) :=
      ⟨⟨inner, ⟨nonempty, segments⟩, last param List.mem_cons_self⟩, plain,
        (derived.ofNames values).writable (List.forall_mem_append.mp back).1⟩
    exact .single readable
  | block target _ _ parameters once _ =>
    obtain ⟨here, behind⟩ := List.forall_mem_append.mp words
    obtain ⟨_, behindColon⟩ := List.forall_mem_cons.mp behind
    obtain ⟨inner, path⟩ := target.ofNames here
    refine .block _ inner path (target.plain_first here) (fun entry member => ?_) once
    obtain ⟨isName, value⟩ := parameters.ofNames (words_inside behindColon) entry member
    exact ⟨isName, value.writable fun x inside => back x (List.mem_flatMap_of_mem member inside)⟩

theorem Statements.spells {lexemes : List Lexeme} {statements : List Statement}
    (derived : Statements file lexemes statements) {statement : Statement}
    (member : statement ∈ statements) :
    ∃ ls, Spells file ls statement ∧ ∀ l ∈ ls, l ∈ lexemes := by
  obtain ⟨before, ls, after, rfl, spelled⟩ := derived.of_mem member
  exact ⟨ls, spelled, fun l here => List.mem_append_right _ (List.mem_append_left _ here)⟩

end Grammar

namespace Statement

/-- A statement that was read from a text is read again from what is written for it, whatever the
number of the source, as one statement and up to spans. Its floating point numbers have to be read
back as they are written. -/
theorem readBack_of_parseSource {file : Nat} {text : String} {statements : List Statement}
    (read : parseSource file text = .ok statements) {statement : Statement}
    (member : statement ∈ statements) (back : ∀ x ∈ statement.body.floats, x.ReadsBack)
    (other : Nat) : ∃ again, parseSource other statement.toText = .ok [again] ∧
      again.withoutSpans = statement.withoutSpans := by
  obtain ⟨lexemes, tokens, readLexemes⟩ := tokenize_of_parseSource read
  obtain ⟨ls, spelled, inside⟩ := (statements_of_ofLexemes readLexemes).spells member
  have words : ∀ l ∈ ls, l.IsWord := fun l here => isName_of_tokenize tokens l (inside l here)
  exact parseSource_toText (spelled.body.writable words back) other

/-- A block with adjacent strings between parentheses, a tuple of one item, a key that comes twice,
segments that are keywords, and a scope on both sides of the sign of a reference. -/
def blockText : String :=
  "a/as.T: \x7bk = (('a' \x22\\n\x22),) m = \x7b'k': 2.5, 'k': [x/@y/from.M()]\x7d, \x7d"

def blockWritten : String :=
  "a/as.T: \x7b\n    k = ('a\\n',),\n    m = \x7b'k': 2.5, 'k': [@x/y/from.M()]\x7d,\n\x7d"

theorem readBack_of_parseSource_block :
    ∃ statement, parseSource 0 blockText = .ok [statement] ∧ statement.toText = blockWritten ∧
      (∀ x ∈ statement.body.floats, x.ReadsBack) ∧
      ∃ again, parseSource 5 blockWritten = .ok [again] ∧
        again.withoutSpans = statement.withoutSpans := by
  have shape : (parseSource 0 blockText).toOption.map
      (List.map fun statement => (statement.toText, statement.body.floats)) =
        some [(blockWritten, [⟨0x4004000000000000⟩])] := by
    decide +kernel
  cases read : parseSource 0 blockText with
  | error error =>
    rw [read] at shape
    cases shape
  | ok statements =>
    rw [read] at shape
    obtain ⟨statement, rfl, same⟩ := List.map_eq_singleton_iff.mp (Option.some.inj shape)
    obtain ⟨written, floats⟩ := Prod.mk.inj same
    have back : ∀ x ∈ statement.body.floats, x.ReadsBack := by
      rw [floats]
      decide
    refine ⟨statement, rfl, written, back, ?_⟩
    rw [← written]
    exact readBack_of_parseSource read (List.mem_singleton.mpr rfl) back 5

end Statement

end ConfigBinding
