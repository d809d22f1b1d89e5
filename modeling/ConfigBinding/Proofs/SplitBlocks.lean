import ConfigBinding.Proofs.AlikeLogs
import ConfigBinding.Proofs.Inclusions
import ConfigBinding.Proofs.ReplacedStatements

/-!
# Blocks and single bindings

A block binds several parameters of one symbol. It means what single bindings of these parameters
mean that stand in its place on lines of their own: the imports ahead rename the symbol and its
values in the one way and in the other, and an assignment that is not possible ends both, behind the
same entries. So whatever stands around the block in its file, both texts end alike when they are
loaded, and what is loaded is alike.

Results:
1. `Statement.parseSource_lines`: the single bindings of a block can be written line by line.
2. `Log.parallel_runStatements_singles`: a block is carried out like its single bindings.
3. `Loading.block_split`: a text with the single bindings is loaded like the one with the block.
-/

namespace ConfigBinding

open Grammar

/-- The bindings of one parameter each that a binding stands for, in order. -/
def Binding.singles (bound : Binding) : List Statement :=
  bound.parameters.map fun (param, value) =>
    ⟨.binding ⟨bound.scope, bound.symbol, .single param value⟩, value.span⟩

/-- The single binding of a parameter as a line, with its value as it is written in the text. -/
def Binding.line (bound : Binding) (text : String) (param : String) (value : Expr) : String :=
  (BindingKey.mk bound.scope bound.symbol param).toText ++ " = " ++
    Text.slice value.span.start value.span.stop text

/-- The single bindings line by line. -/
def Binding.lines (bound : Binding) (text : String) : String :=
  Text.join "\n" (bound.parameters.map fun (param, value) => bound.line text param value)

/-! ## Targets of single bindings -/

namespace Grammar

variable {ls : List Lexeme} {dot l : Lexeme} {param : String}

theorem Segments.append_name {names : List String} (segments : Segments ls names)
    (isDot : dot.Is .dot) (named : l.Names param) :
    Segments (ls ++ [dot, l]) (names ++ [param]) := by
  induction segments with
  | nil => exact .cons isDot named .nil
  | cons isDotToo namedToo _ ih => exact .cons isDotToo namedToo ih

theorem Dotted.append_name {name : DottedName} (dotted : Dotted ls name) (isDot : dot.Is .dot)
    (named : l.Names param) : Dotted (ls ++ [dot, l]) (name.append param) := by
  cases dotted with
  | mk first segments => exact .mk first (segments.append_name isDot named)

theorem Scoped.append_name {names : List String} {symbol : DottedName}
    (qualified : Scoped ls names symbol) (isDot : dot.Is .dot) (named : l.Names param) :
    Scoped (ls ++ [dot, l]) names (symbol.append param) := by
  induction qualified with
  | name dotted => exact .name (dotted.append_name isDot named)
  | scope namedToo isSlash _ ih => exact .scope namedToo isSlash ih

/-- The name of a parameter behind a target gives the target of a single binding. -/
theorem Target.append_name {scope : Scope} {symbol : DottedName} (target : Target ls scope symbol)
    (isDot : dot.Is .dot) (named : l.Names param) :
    Target (ls ++ [dot, l]) scope (symbol.append param) where
  path := target.path.append_name isDot named
  plain := by
    obtain ⟨first, others, _, rfl, _⟩ := target.path.exists_cons
    exact target.plain

/-! ## Tokens of targets -/

theorem Segments.tokens_eq {names : List String} (segments : Segments ls names)
    (words : ∀ l ∈ ls, l.IsWord) :
    ls.map Lexeme.token =
      Lexer.behind [.mark .dot] (names.map fun name => [Lexer.nameToken name]) := by
  induction segments with
  | nil => rfl
  | @cons dot l _ _ _ isDot named _ ih =>
    obtain ⟨_, following⟩ := List.forall_mem_cons.mp words
    obtain ⟨word, others⟩ := List.forall_mem_cons.mp following
    rw [List.map_cons, List.map_cons, ih others, isDot, (word _ named).2]
    rfl

theorem Dotted.tokens_eq {name : DottedName} (dotted : Dotted ls name)
    (words : ∀ l ∈ ls, l.IsWord) : ls.map Lexeme.token = name.tokens := by
  cases dotted with
  | mk first segments =>
    obtain ⟨word, others⟩ := List.forall_mem_cons.mp words
    rw [List.map_cons, segments.tokens_eq others, (word _ first).2]
    rfl

theorem Scoped.tokens_eq {names : List String} {symbol : DottedName}
    (qualified : Scoped ls names symbol) (words : ∀ l ∈ ls, l.IsWord) :
    ls.map Lexeme.token = Scope.tokens ⟨names⟩ ++ symbol.tokens := by
  induction qualified with
  | name dotted => exact dotted.tokens_eq words
  | scope named isSlash _ ih =>
    obtain ⟨word, following⟩ := List.forall_mem_cons.mp words
    obtain ⟨_, others⟩ := List.forall_mem_cons.mp following
    rw [List.map_cons, List.map_cons, ih others, (word _ named).2, isSlash]
    rfl

/-- Each parameter of a block has a name and a value. -/
theorem Parameters.of_mem {file : Nat} {entries : List (String × Expr)}
    (parameters : Parameters file ls entries) {entry : String × Expr} (member : entry ∈ entries) :
    ∃ before l equals values after, ls = before ++ ([l, equals] ++ (values ++ after)) ∧
      l.Names entry.1 ∧ equals.Is .equals ∧ Value file values entry.2 := by
  induction parameters with
  | nil => cases member
  | @cons l equals _ _ values comma rest _ named isEquals said _ _ ih =>
    rcases List.mem_cons.mp member with rfl | later
    · exact ⟨[], l, equals, values, comma ++ rest, rfl, named, isEquals, said⟩
    · obtain ⟨before, m, equalsToo, others, after, rfl, namedToo, isEqualsToo, saidToo⟩ := ih later
      exact ⟨l :: equals :: (values ++ (comma ++ before)), m, equalsToo, others, after, by
        simp only [List.cons_append, List.append_assoc], namedToo, isEqualsToo, saidToo⟩

end Grammar

/-! ## Lines -/

namespace Statement

/-- A text that reads as the target of a parameter and a value is the single binding. -/
theorem parseSource_single {number : Nat} {line : String} {scope : Scope} {symbol : DottedName}
    {param : String} {value : Expr} {target values : List Lexeme} {equals : Lexeme}
    (named : Target target scope (symbol.append param)) (nonempty : symbol.segments ≠ [])
    (isEquals : equals.Is .equals) (said : Grammar.Value number values value)
    (reads : Lexer.Reads line.toList ((target ++ equals :: values).map Lexeme.token)) :
    ∃ written, parseSource number line = .ok [written] ∧ written.withoutSpans =
      Statement.withoutSpans ⟨.binding ⟨scope, symbol, .single param value⟩, value.span⟩ := by
  obtain ⟨lexemes, tokens, same⟩ := tokenize_of_reads reads
  have spells : Spells number (target ++ equals :: values)
      ⟨.binding ⟨scope, symbol, .single param value⟩, cover number (target ++ equals :: values)⟩ :=
    ⟨.single named nonempty isEquals said, rfl⟩
  obtain ⟨written, spellsToo, alike⟩ := spells.respelled number same
  refine ⟨written, ?_, alike⟩
  have alone := Statements.cons spellsToo .nil fun _ _ member => nomatch member
  rw [List.append_nil] at alone
  unfold parseSource
  rw [tokens]
  exact ofLexemes_of_statements alone

/-- A dot, wherever it stands. -/
def dot : Lexeme := ⟨.mark .dot, 0, 0⟩

theorem isDot_dot : dot.Is .dot := rfl

theorem isWord_dot : dot.IsWord := fun _ isName => by cases isName

/-- The key of a parameter, an equals sign and what reads as some lexemes. -/
theorem reads_line {target values : List Lexeme} {l equals : Lexeme} {scope : Scope}
    {symbol : DottedName} {param slice : String} (named : Target target scope symbol)
    (words : ∀ l ∈ target, l.IsWord) (isParam : l.Names param) (word : l.IsWord)
    (isEquals : equals.Is .equals) (reads : Lexer.Reads slice.toList (values.map Lexeme.token)) :
    Lexer.Reads ((BindingKey.mk scope symbol param).toText ++ " = " ++ slice).toList
      ((target ++ [dot, l] ++ equals :: values).map Lexeme.token) := by
  have key : BindingKey.OfNames ⟨scope, symbol, param⟩ :=
    ⟨(named.ofNames words).1, (named.ofNames words).2, (word param isParam).1⟩
  have more : ∀ m ∈ target ++ [dot, l], m.IsWord := List.forall_mem_append.mpr
    ⟨words, List.forall_mem_cons.mpr ⟨isWord_dot, List.forall_mem_singleton.mpr word⟩⟩
  rw [List.map_append, (named.append_name isDot_dot isParam).path.tokens_eq more,
    List.map_cons, isEquals, String.toList_append, String.toList_append, List.append_assoc]
  exact key.lexes _ _ (Lexer.stops_cons (c := ' ') rfl _)
    (Lexer.lexes_equals _ _ (Lexer.stops_nothing _) reads)

/-- The line of a parameter of a block is the single binding of the parameter. -/
theorem parseSource_line {number : Nat} {text : String} {front piece back : List Lexeme}
    {scope : Scope} {symbol : DottedName} {entries : List (String × Expr)} {span : Span}
    (tokens : tokenize text = .ok (front ++ (piece ++ back)))
    (said : Body number piece (.binding ⟨scope, symbol, .block entries span⟩)) :
    ∀ entry ∈ entries, ∃ written,
      parseSource number (Binding.line ⟨scope, symbol, .block entries span⟩ text entry.1 entry.2) =
        .ok [written] ∧
      written.withoutSpans = Statement.withoutSpans
        ⟨.binding ⟨scope, symbol, .single entry.1 entry.2⟩, entry.2.span⟩ := by
  have words := Lexer.isName_of_tokenize tokens
  cases said with
  | @block colon opening closing target _ _ _ _ named isColon opens parameters once closes =>
    intro entry member
    obtain ⟨before, l, equals, values, after, rfl, isParam, isEquals, said⟩ :=
      parameters.of_mem member
    have inTarget : ∀ l ∈ target, l.IsWord := fun l member =>
      words l (by simp only [List.mem_append]; exact .inr (.inl (.inl member)))
    have word : l.IsWord := words l (by simp)
    have whole : tokenize text = .ok ((front ++ (target ++ colon :: opening ::
        (before ++ [l, equals]))) ++ (values ++ (after ++ closing :: back))) := by
      rw [tokens]
      simp only [List.append_assoc, List.cons_append, List.nil_append]
    obtain ⟨slice, cut, lexemes⟩ := tokenize_cover number whole said.ne_nil
    have reads := reads_of_tokenize lexemes
    rw [respells_map (Lexeme.back _) (fun _ => rfl) values] at reads
    rw [Binding.line, said.span_eq, Text.slice_of_cut cut]
    exact parseSource_single (named.append_name isDot_dot isParam)
      named.path.segments_ne_nil isEquals said
      (reads_line named inTarget isParam word isEquals reads)

/-- The lines of a block are its single bindings. -/
theorem parseSource_lines {number : Nat} {text : String} {statements : List Statement}
    (read : parseSource number text = .ok statements) {statement : Statement}
    (member : statement ∈ statements) {bound : Binding} {entries : List (String × Expr)}
    {span : Span} (binds : statement.body = .binding bound)
    (isBlock : bound.body = .block entries span) :
    ∃ written, parseSource number (bound.lines text) = .ok written ∧
      written.map withoutSpans = bound.singles.map withoutSpans := by
  obtain ⟨scope, symbol, body⟩ := bound
  obtain rfl : body = .block entries span := isBlock
  obtain ⟨lexemes, tokens, _, derived⟩ := lexemes_of_parseSource read
  obtain ⟨front, piece, back, rfl, spells⟩ := derived.of_mem member
  refine parseSource_join ?_ (List.forall_mem_map.mpr fun _ _ => rfl)
  rw [List.forall₂_map_left_iff, Binding.singles, List.forall₂_map_right_iff]
  exact List.forall₂_same.mpr (parseSource_line tokens (binds ▸ spells.body))

/-- What says the same as the single bindings of a block binds something for its symbol. -/
theorem binds_of_singles {bound : Binding} {written : List Statement}
    (alike : written.map withoutSpans = bound.singles.map withoutSpans) :
    ∀ statement ∈ written, statement.Binds bound.scope bound.symbol := by
  intro statement member
  obtain ⟨single, isSingle, same⟩ := List.mem_map.mp (alike ▸ List.mem_map_of_mem member)
  obtain ⟨entry, _, rfl⟩ := List.mem_map.mp isSingle
  exact .of_withoutSpans same.symm ⟨_, rfl⟩

end Statement

/-! ## Loading -/

namespace Log

variable {registry : Registry} {load : SourceLoader}

/-- Assignments are made one after the other. -/
theorem assignAll_cons_bind (span : Span) (assignment : Assignment)
    (assignments : List Assignment) (next : Attempt Log Unit) :
    (assignAll span (assignment :: assignments) >>= fun _ => next) =
      assignAll span [assignment] >>= fun _ => assignAll span assignments >>= fun _ => next := by
  have whole : assignAll span (assignment :: assignments) =
      assignAll span [assignment] >>= fun _ => assignAll span assignments :=
    Attempt.forEach_append _ [assignment] assignments
  rw [whole, Attempt.bind_assoc]

variable {includeFile includeOther : String → Location → Attempt Log Unit}

/-- The assignments of a block are made like those of single bindings. -/
theorem parallel_singles (span : Span) {scope : Scope} {symbol : DottedName}
    {file : FileScope} {entries : List (String × Expr)} {written after others : List Statement}
    (alike : written.map Statement.withoutSpans = (entries.map fun (param, value) =>
      Statement.mk (.binding ⟨scope, symbol, .single param value⟩) value.span).map
        Statement.withoutSpans)
    (rest : Parallel (runStatements registry includeFile file after)
      (runStatements registry includeOther file others)) :
    Parallel
      (assignAll span ((entries.map fun (param, value) => Assignment.binding ⟨scope, symbol, param⟩
        value).map (·.canonical file registry)) >>= fun _ =>
          runStatements registry includeFile file after)
      (runStatements registry includeOther file (written ++ others)) := by
  induction entries generalizing written with
  | nil =>
    obtain rfl := List.map_eq_nil_iff.mp alike
    exact rest
  | cons entry entries ih =>
    obtain ⟨param, value⟩ := entry
    obtain ⟨first, following, rfl, same, alike⟩ := List.map_eq_cons_iff.mp alike
    have body : first.body.withoutSpans =
        .binding ⟨scope, symbol, .single param value.withoutSpans⟩ :=
      congrArg Statement.body same
    have own : first.included? = none := by
      rw [← first.included?_withoutSpans, same]
      rfl
    have stays : file.next first = file := by
      rw [← file.next_withoutSpans, same]
      rfl
    rw [List.map_cons, List.map_cons, assignAll_cons_bind, List.cons_append, runStatements_own own,
      stays]
    refine parallel_bind (parallel_assignAll _ _ ?_) (ih alike)
    rw [StatementBody.canonical_assignments, body]
    exact congrArg ([·]) (Assignment.canonical_withoutSpans file registry (.binding _ value)).symm

end Log

theorem Statement.withoutSpans_inFile (statement : Statement) (n : Nat) :
    (statement.inFile n).withoutSpans = statement.withoutSpans := by
  obtain ⟨body, span⟩ := statement
  cases body with
  | importPath imported => rfl
  | dynamicRegistration => rfl
  | includeFile path => rfl
  | macroDef name value =>
    exact congrArg (fun e => Statement.mk (.macroDef name e) (Span.zero 0))
      (value.withoutSpans_inFile n)
  | binding bound =>
    obtain ⟨scope, symbol, body⟩ := bound
    cases body with
    | single param value =>
      exact congrArg
        (fun e => Statement.mk (.binding ⟨scope, symbol, .single param e⟩) (Span.zero 0))
        (value.withoutSpans_inFile n)
    | block entries span =>
      have same : (entries.map (Prod.map id (Expr.inFile n))).map (Prod.map id Expr.withoutSpans) =
          entries.map (Prod.map id Expr.withoutSpans) := by
        rw [List.map_map]
        exact List.map_congr_left fun entry _ =>
          congrArg (Prod.mk entry.1) (entry.2.withoutSpans_inFile n)
      exact congrArg (fun es => Statement.mk (.binding ⟨scope, symbol, .block es _⟩) (Span.zero 0))
        same

/-- Bindings that say the same stand for single bindings that say the same. -/
theorem Binding.singles_congr {bound other : Binding}
    (same : (StatementBody.binding bound).withoutSpans =
      (StatementBody.binding other).withoutSpans) :
    bound.singles.map Statement.withoutSpans = other.singles.map Statement.withoutSpans := by
  let ofContent (bound : Binding) : List Statement := bound.parameters.map fun (param, value) =>
    ⟨.binding ⟨bound.scope, bound.symbol, .single param value⟩, Span.zero 0⟩
  have content (bound : Binding) : bound.singles.map Statement.withoutSpans =
      ofContent { bound with body := bound.body.withoutSpans } := by
    obtain ⟨scope, symbol, body⟩ := bound
    cases body with
    | single param value => rfl
    | block entries span =>
      show (List.map _ entries).map _ = (List.map _ entries).map _
      rw [List.map_map, List.map_map]
      rfl
  rw [content, content]
  exact congrArg ofContent (StatementBody.binding.inj same)

/-! ## Files -/

namespace Log

variable {registry : Registry} {load : SourceLoader}

/-- Statements of which one is a binding are carried out like those with its single bindings in its
place. -/
theorem parallel_runStatements_singles
    {includeFile includeOther : String → Location → Attempt Log Unit}
    (files : ∀ path place other, Parallel (includeFile path place) (includeOther path other))
    {scope : FileScope} {statement : Statement} {bound : Binding}
    (binds : statement.body = .binding bound) {statements others before after : List Statement}
    (whole : statements.map Statement.withoutSpans =
      (before ++ statement :: after).map Statement.withoutSpans)
    (inPlace : others.map Statement.withoutSpans =
      (before ++ (bound.singles ++ after)).map Statement.withoutSpans) :
    Parallel (runStatements registry includeFile scope statements)
      (runStatements registry includeOther scope others) := by
  rw [List.map_append] at whole inPlace
  obtain ⟨front, following, rfl, alikeFront, alike⟩ := List.map_eq_append_iff.mp whole
  obtain ⟨block, back, rfl, alikeBlock, alikeBack⟩ := List.map_eq_cons_iff.mp alike
  obtain ⟨frontToo, following, rfl, alikeFrontToo, alikeToo⟩ := List.map_eq_append_iff.mp inPlace
  rw [List.map_append] at alikeToo
  obtain ⟨written, backToo, rfl, alikeWritten, alikeBackToo⟩ := List.map_eq_append_iff.mp alikeToo
  refine parallel_runStatements_append files (alikeFront.trans alikeFrontToo.symm) fun scope => ?_
  have rest : Parallel (runStatements registry includeFile scope back)
      (runStatements registry includeOther scope backToo) :=
    parallel_runStatements files (alikeBack.trans alikeBackToo.symm)
  obtain ⟨body, span⟩ := block
  have bodies : body.withoutSpans = (StatementBody.binding bound).withoutSpans :=
    binds ▸ congrArg Statement.body alikeBlock
  cases body with
  | binding inner =>
    rw [runStatements_own rfl]
    exact parallel_singles span (alikeWritten.trans (Binding.singles_congr bodies).symm) rest
  | _ => cases bodies

/-- A text that has single bindings in the place of a binding is read like the one without. -/
theorem parallel_readSource_singles {id text other : String} {number : Nat}
    {before after others : List Statement} {statement : Statement} {bound : Binding}
    (read : Statement.parseSource number text = .ok (before ++ statement :: after))
    (binds : statement.body = .binding bound)
    (readOther : Statement.parseSource number other = .ok others)
    (inPlace : others.map Statement.withoutSpans =
      (before ++ (bound.singles ++ after)).map Statement.withoutSpans)
    (fuel : Nat) (chain : IncludeChain) (site : Option Location) :
    Parallel (readSource registry load fuel ⟨id, text⟩ chain site)
      (readSource registry load fuel ⟨id, other⟩ chain site) := by
  have renumbered (n : Nat) (statements : List Statement) :
      (statements.map (Statement.inFile n)).map Statement.withoutSpans =
        statements.map Statement.withoutSpans := by
    rw [List.map_map]
    exact List.map_congr_left fun statement _ => statement.withoutSpans_inFile n
  cases fuel with
  | zero =>
    unfold readSource
    split <;> exact parallel_fail ⟨rfl, rfl⟩
  | succ fuel =>
    rw [readSource_succ, readSource_succ]
    split
    · exact parallel_fail ⟨rfl, rfl⟩
    refine parallel_openSource _ _ _ _ fun n => ?_
    dsimp only
    rw [Statement.parseSource_inFile n number text, Statement.parseSource_inFile n number other,
      read, readOther]
    refine parallel_runStatements_singles ?_ binds (renumbered n _)
      ((renumbered n _).trans inPlace)
    exact parallel_readInclusion (parallel_readSource registry load fuel · _)

end Log

/-! ## Calls -/

namespace Loading

variable {registry : Registry} {load : SourceLoader}

theorem exists_added_of_loadText {loading next : Loading} {id text : String}
    (run : loading.loadText registry load id text = (.ok (), next)) :
    ∃ added, next.log.events = loading.log.events ++ added := by
  have appends := (LoadCall.loadText id text).keeps_attempt registry load
    (Log.stepwise_events loading.log) loading loading.log (List.prefix_refl _)
  have read : LoadCall.attempt registry load loading (.loadText id text) loading.log =
    (.ok (), next.log) := Log.of_keepSize_eq_ok (of_attempt_eq_ok run)
  rw [read] at appends
  obtain ⟨added, events⟩ := appends
  exact ⟨added, events.symm⟩

/-- A block with parameters means the same as its single bindings, wherever it stands.
* The single bindings can be written line by line, with the values as they are in the text.
* Lines that read as these bindings, up to spans, can stand in the place of the block: the text is
  read as the statements around it and the single bindings, up to spans.
* From each state of a loader, both texts end alike when they are loaded. If they are loaded, both
  append entries that say the same, and whatever calls follow, the logs, the tables and the nodes in
  the end are alike. -/
theorem block_split {loading : Loading} (reachable : Reachable registry loading)
    (load : SourceLoader) (id : String) {number : Nat} {text : String}
    {before after : List Statement} {statement : Statement} {bound : Binding}
    {entries : List (String × Expr)} {span : Span}
    (read : Statement.parseSource number text = .ok (before ++ statement :: after))
    (binds : statement.body = .binding bound) (isBlock : bound.body = .block entries span)
    (some : entries ≠ []) :
    (∃ written, Statement.parseSource number (bound.lines text) = .ok written ∧
      written.map Statement.withoutSpans = bound.singles.map Statement.withoutSpans) ∧
    ∀ lines written, Statement.parseSource number lines = .ok written →
      written.map Statement.withoutSpans = bound.singles.map Statement.withoutSpans →
      (∃ others, Statement.parseSource number (Text.replaceLines statement.span lines text) =
          .ok others ∧
        others.map Statement.withoutSpans =
          (before ++ (bound.singles ++ after)).map Statement.withoutSpans) ∧
      SameEnd Eq (loading.loadText registry load id text).1 (loading.loadText registry load id
        (Text.replaceLines statement.span lines text)).1 ∧
      ∀ next last, loading.loadText registry load id text = (.ok (), next) →
        loading.loadText registry load id (Text.replaceLines statement.span lines text) =
          (.ok (), last) →
        (∃ added others, next.log.events = loading.log.events ++ added ∧
          last.log.events = loading.log.events ++ others ∧
          added.map Event.content = others.map Event.content) ∧
        ∀ (later : SourceLoader) (calls : List LoadCall),
          (LoadCall.after registry later calls next).Alike registry
            (LoadCall.after registry later calls last) := by
  refine ⟨Statement.parseSource_lines read List.mem_append_cons_self binds isBlock,
    fun lines written also alike => ?_⟩
  have nonempty : written ≠ [] := by
    rintro rfl
    have parameters : bound.parameters = [] :=
      List.map_eq_nil_iff.mp (List.map_eq_nil_iff.mp alike.symm)
    rw [Binding.parameters, isBlock] at parameters
    exact some parameters
  obtain ⟨others, readOther, split⟩ := Statement.parseSource_replace read also nonempty
    ⟨_, binds⟩ (Statement.binds_of_singles alike)
  have inPlace : others.map Statement.withoutSpans =
      (before ++ (bound.singles ++ after)).map Statement.withoutSpans := by
    rw [split, List.map_append, List.map_append, alike, ← List.map_append, ← List.map_append]
  have alikeFiles : Log.Parallel
      (Log.readSource registry load SourceMap.capacity ⟨id, text⟩ .empty none)
      (Log.readSource registry load SourceMap.capacity
        ⟨id, Text.replaceLines statement.span lines text⟩ .empty none) :=
    Log.parallel_readSource_singles read binds readOther inPlace _ _ _
  have parallel := Log.parallel_keepSize alikeFiles loading.log loading.log (Log.saysSame_refl _)
  refine ⟨⟨others, readOther, inPlace⟩, parallel.1, fun next last run runOther => ?_⟩
  have nextReachable := (LoadCall.loadText id text).reachable_of_run registry load reachable run
  have lastReachable := (LoadCall.loadText id _).reachable_of_run registry load reachable runOther
  have same := parallel.2
  rw [of_attempt_eq_ok run, of_attempt_eq_ok runOther] at same
  constructor
  · obtain ⟨added, events⟩ := exists_added_of_loadText run
    obtain ⟨more, eventsOther⟩ := exists_added_of_loadText runOther
    refine ⟨added, more, events, eventsOther, ?_⟩
    have contents := same.events
    rw [events, eventsOther, List.map_append, List.map_append] at contents
    exact List.append_cancel_left contents
  · exact same.alike_after nextReachable lastReachable

/-- The text with its first block that has parameters split into lines. -/
def splitBlock? (text : String) : Option String :=
  match Statement.parseSource 0 text with
  | .error _ => none
  | .ok statements => statements.findSome? fun statement =>
    match statement.body with
    | .binding ⟨scope, symbol, .block (entry :: entries) span⟩ =>
      some (Text.replaceLines statement.span
        (Binding.lines ⟨scope, symbol, .block (entry :: entries) span⟩ text) text)
    | _ => none

theorem exists_of_splitBlock? {text other : String} (split : splitBlock? text = some other) :
    ∃ before statement after bound entries span,
      Statement.parseSource 0 text = .ok (before ++ statement :: after) ∧
      statement.body = .binding bound ∧ bound.body = .block entries span ∧ entries ≠ [] ∧
      Text.replaceLines statement.span (bound.lines text) text = other := by
  unfold splitBlock? at split
  split at split
  · cases split
  · rename_i statements read
    obtain ⟨before, statement, after, rfl, found, _⟩ := List.findSome?_eq_some_iff.mp split
    split at found
    · rename_i scope symbol entry entries span body
      exact ⟨before, statement, after, ⟨scope, symbol, .block (entry :: entries) span⟩,
        entry :: entries, span, read, body, rfl, List.cons_ne_nil _ _, Option.some.inj found⟩
    · cases found

/-- A configurable with two parameters. -/
def pairs : Registry where
  entries := [⟨⟨["m", "Pair"]⟩,
    [⟨"first", none, .any⟩, ⟨"second", none, .any⟩], none⟩]

/-- Behind the switch that renames and an import that would take an alias, a block with a comma
behind one of its values and none behind the other. -/
def blockText : String :=
  "n = 1\nfrom __gin__ import dynamic_registration\nimport m as k import m\n" ++
    "a/k.Pair: \x7b first = [%n, (2)] second = @k.Pair(), \x7d b/Pair.first = 2"

def splitText : String :=
  "n = 1\nfrom __gin__ import dynamic_registration\nimport m as k import m\n\n" ++
    "a/k.Pair.first = [%n, (2)]\na/k.Pair.second = @k.Pair()\n b/Pair.first = 2"

theorem block_split_pairs :
    splitBlock? blockText = some splitText ∧
    ∃ next last,
      start.loadText pairs (MemorySources.load ⟨[]⟩) "file" blockText = (.ok (), next) ∧
      start.loadText pairs (MemorySources.load ⟨[]⟩) "file" splitText = (.ok (), last) ∧
      next.log.size = 4 ∧ (Config.ofLoading pairs next).isOk = true ∧ next.Alike pairs last := by
  have split : splitBlock? blockText = some splitText := by
    decide +kernel
  have ends :
      (start.loadText pairs (MemorySources.load ⟨[]⟩) "file" blockText).1.isOk = true ∧
      (start.loadText pairs (MemorySources.load ⟨[]⟩) "file" blockText).2.log.size = 4 ∧
      (Config.ofLoading pairs
        (start.loadText pairs (MemorySources.load ⟨[]⟩) "file" blockText).2).isOk = true := by
    decide +kernel
  obtain ⟨succeeds, size, finishes⟩ := ends
  obtain ⟨next, run⟩ := exists_of_isOk succeeds
  rw [run] at size finishes
  obtain ⟨_, _, _, _, _, _, read, binds, isBlock, some, replaced⟩ := exists_of_splitBlock? split
  have reachable : Reachable pairs start := .start
  obtain ⟨⟨written, also, alike⟩, same⟩ := block_split reachable
    (MemorySources.load ⟨[]⟩) "file" read binds isBlock some
  obtain ⟨_, sameEnd, after⟩ := same _ written also alike
  rw [replaced] at sameEnd after
  rw [run] at sameEnd
  have succeedsToo := (sameEnd.eq_ok_iff ()).mp rfl
  obtain ⟨last, runOther⟩ := exists_of_isOk (congrArg Except.isOk succeedsToo)
  exact ⟨split, next, last, run, runOther, size, finishes,
    (after next last run runOther).2 (MemorySources.load ⟨[]⟩) []⟩

end Loading

end ConfigBinding
