import ConfigBinding.Proofs.Contributions
import ConfigBinding.Proofs.Governing
import ConfigBinding.Proofs.WrittenStatements
import ConfigBinding.Resolver

/-!
# Where the scopes of nodes come from

A node is constructed because a call asks for it or because a reference stands for it, and all
expressions that are evaluated stand in the log. So the scope of a node is that of a call or is
written in the log, whatever is cached and whichever calls fail. And what is written in the log was
read from a text, where scopes are made of names.

Results:
1. `Config.Loaded.scopesIn_log`: the references of a loaded configuration have scopes of names.
2. `Resolver.keeps_evaluate`: evaluation adds no nodes in other scopes than those in the log.
3. `Resolver.scopesIn_after`: after any calls, nodes have scopes of calls or scopes in the log.
-/

namespace ConfigBinding

open Attempt

/-- All references in the expression have scopes with the property. -/
def Expr.ScopesIn (allowed : Scope → Prop) (e : Expr) : Prop :=
  ∀ target ∈ e.references, allowed target.scope

/-- All references in the log have scopes with the property. -/
def Log.ScopesIn (allowed : Scope → Prop) (log : Log) : Prop :=
  ∀ e ∈ log.values, e.ScopesIn allowed

/-- All nodes that are constructed have scopes with the property. -/
def Progress.ScopesIn (allowed : Scope → Prop) (progress : Progress) : Prop :=
  ∀ node ∈ progress.cache, allowed node.key.scope

/-! ## What is read -/

namespace Expr

variable {allowed : Scope → Prop} {e : Expr}

theorem OfNames.scopesIn (named : e.OfNames) : e.ScopesIn Scope.OfNames := by
  unfold ScopesIn
  induction named with
  | literal | macroRef => exact nofun
  | list _ _ ih =>
    rw [references, referencesOfItems_eq]
    exact List.forall_mem_flatMap.mpr ih
  | tuple _ _ ih =>
    rw [references, referencesOfItems_eq]
    exact List.forall_mem_flatMap.mpr ih
  | map _ _ ih =>
    rw [references, referencesOfEntries_eq]
    exact List.forall_mem_flatMap.mpr ih
  | reference _ inner _ => exact List.forall_mem_singleton.mpr inner

theorem scopesIn_mapSpans (move : Span → Span) :
    (e.mapSpans move).ScopesIn allowed ↔ e.ScopesIn allowed := by
  unfold ScopesIn
  rw [references_mapSpans]

/-- Aliases change symbols but no scopes. -/
theorem scopes_mapReferences (rename : DottedName → DottedName) (e : Expr) :
    (e.mapReferences rename).references.map Reference.scope =
      e.references.map Reference.scope := by
  induction e using Expr.induction with
  | literal | macroRef | reference => rfl
  | list items span ih =>
    simp only [mapReferences, references, mapReferencesInItems_eq, referencesOfItems_eq,
      List.map_flatMap, List.flatMap_map]
    exact List.flatMap_congr ih
  | tuple items span ih =>
    simp only [mapReferences, references, mapReferencesInItems_eq, referencesOfItems_eq,
      List.map_flatMap, List.flatMap_map]
    exact List.flatMap_congr ih
  | map entries span ih =>
    simp only [mapReferences, references, mapReferencesInEntries_eq, referencesOfEntries_eq,
      List.map_flatMap, List.flatMap_map]
    exact List.flatMap_congr ih

theorem ScopesIn.mapReferences (within : e.ScopesIn allowed) (rename : DottedName → DottedName) :
    (e.mapReferences rename).ScopesIn allowed := by
  have scopes : ∀ scope ∈ (e.mapReferences rename).references.map Reference.scope,
      allowed scope := by
    rw [scopes_mapReferences]
    exact List.forall_mem_map.mpr within
  exact List.forall_mem_map.mp scopes

end Expr

/-- The values that are assigned have names of the language in them. -/
theorem Grammar.Body.ofNames {file : Nat} {ls : List Lexeme} {body : StatementBody}
    (derived : Body file ls body) (words : ∀ l ∈ ls, l.IsWord) :
    ∀ assignment ∈ body.assignments, assignment.value.OfNames := by
  cases derived with
  | importPath | importFrom | dynamicRegistration | includeFile => exact nofun
  | macroDef _ _ value =>
    obtain ⟨_, values⟩ := List.forall_mem_append.mp words
    exact List.forall_mem_singleton.mpr (value.ofNames (List.forall_mem_cons.mp values).2)
  | single _ _ _ value =>
    obtain ⟨_, values⟩ := List.forall_mem_append.mp words
    exact List.forall_mem_singleton.mpr (value.ofNames (List.forall_mem_cons.mp values).2)
  | block _ _ _ parameters =>
    obtain ⟨_, behind⟩ := List.forall_mem_append.mp words
    refine List.forall_mem_map.mpr fun entry member => ?_
    exact (parameters.ofNames (words_inside (List.forall_mem_cons.mp behind).2) entry member).2

namespace Statement

variable {file : Nat} {text : String}

theorem ofNames_of_parseSource {statements : List Statement}
    (read : parseSource file text = .ok statements) {statement : Statement}
    (member : statement ∈ statements) :
    ∀ assignment ∈ statement.body.assignments, assignment.value.OfNames := by
  obtain ⟨lexemes, tokens, readLexemes⟩ := tokenize_of_parseSource read
  obtain ⟨ls, spelled, inside⟩ := (statements_of_ofLexemes readLexemes).spells member
  exact spelled.body.ofNames fun l here => Lexer.isName_of_tokenize tokens l (inside l here)

theorem ofNames_of_parseAssignmentText {statement : Statement}
    (read : parseAssignmentText file text = .ok statement) :
    ∀ assignment ∈ statement.body.assignments, assignment.value.OfNames :=
  ofNames_of_parseSource (parseSource_of_parseAssignmentText read) List.mem_cons_self

/-- The entries of a statement have the scopes that its assignments have. -/
theorem scopesIn_entries {allowed : Scope → Prop} {statement : Statement}
    (within : ∀ assignment ∈ statement.body.assignments, assignment.value.ScopesIn allowed)
    (registry : Registry) (source : LoadedSource) (scope : FileScope) :
    ∀ event ∈ statement.entries registry source scope, event.value.ScopesIn allowed := by
  refine List.forall_mem_map.mpr fun assignment member => ?_
  have inside := within assignment member
  rw [Assignment.value_event, assignment.value_canonical, FileScope.canonicalValue]
  split
  · exact inside.mapReferences _
  · exact inside

end Statement

/-! ## What is loaded -/

theorem Event.scopesIn_inFile {allowed : Scope → Prop} (number : Nat) (event : Event) :
    (event.inFile number).value.ScopesIn allowed ↔ event.value.ScopesIn allowed := by
  cases event <;> exact Expr.scopesIn_mapSpans _

theorem Pieces.scopesIn {registry : Registry} {load : SourceLoader} {source : LoadedSource}
    {chain : IncludeChain} {scope : FileScope} {statements : List Statement} {count : Nat}
    {pieces : List (List Event)}
    (contributed : Pieces registry load source chain scope statements count pieces)
    (named : ∀ statement ∈ statements, ∀ assignment ∈ statement.body.assignments,
      assignment.value.OfNames) :
    ∀ event ∈ pieces.flatten, event.value.ScopesIn Scope.OfNames := by
  induction contributed with
  | nil => exact nofun
  | own _ _ ih =>
    obtain ⟨first, others⟩ := List.forall_mem_cons.mp named
    rw [List.flatten_cons]
    exact List.forall_mem_append.mpr ⟨Statement.scopesIn_entries
      (fun assignment member => (first assignment member).scopesIn) _ _ _, ih others⟩
  | inclusion _ _ _ parsed _ _ ihWithin ih =>
    rw [List.flatten_cons]
    exact List.forall_mem_append.mpr
      ⟨ihWithin fun _ => Statement.ofNames_of_parseSource parsed,
        ih (List.forall_mem_cons.mp named).2⟩

namespace Log

variable {allowed : Scope → Prop} {log after : Log}

theorem ScopesIn.gains {entries : List Event} (holds : log.ScopesIn allowed)
    (gains : log.Gains entries after)
    (within : ∀ event ∈ entries, event.value.ScopesIn allowed) : after.ScopesIn allowed := by
  obtain ⟨added, events, same⟩ := gains
  unfold ScopesIn values at holds ⊢
  rw [events, List.map_append]
  refine List.forall_mem_append.mpr ⟨holds, List.forall_mem_map.mpr fun event member => ?_⟩
  have renumbered : event.inFile 0 ∈ entries.map (Event.inFile 0) := by
    rw [← same]
    exact List.mem_map_of_mem member
  obtain ⟨entry, inside, alike⟩ := List.mem_map.mp renumbered
  rw [← event.scopesIn_inFile 0, ← alike, entry.scopesIn_inFile]
  exact within entry inside

variable {registry : Registry} {load : SourceLoader}

theorem ScopesIn.readSource {fuel : Nat} {source : LoadedSource} {chain : IncludeChain}
    {site : Option Location} (holds : log.ScopesIn Scope.OfNames)
    (run : Log.readSource registry load fuel source chain site log = (.ok (), after)) :
    after.ScopesIn Scope.OfNames := by
  obtain ⟨statements, count, pieces, contributed⟩ := exists_contribution run
  have ends := contributed.outcome fuel site log
  rw [run] at ends
  cases ends with
  | ok grows =>
    exact holds.gains grows.events (contributed.pieces.scopesIn fun _ =>
      Statement.ofNames_of_parseSource contributed.parsed)

theorem ScopesIn.readFile {path : String} {chain : IncludeChain}
    (holds : log.ScopesIn Scope.OfNames)
    (run : Log.readFile registry load path chain log = (.ok (), after)) :
    after.ScopesIn Scope.OfNames := by
  unfold Log.readFile at run
  cases loaded : load path chain.current? with
  | error failure =>
    rw [loaded] at run
    cases run
  | ok source =>
    rw [loaded] at run
    exact holds.readSource run

theorem ScopesIn.assigned (holds : log.ScopesIn allowed) (span : Span) {assignment : Assignment}
    (within : assignment.value.ScopesIn allowed) :
    (log.assigned span assignment).ScopesIn allowed := by
  unfold ScopesIn values Log.assigned
  rw [List.map_append, List.map_singleton, assignment.value_event]
  exact List.forall_mem_append.mpr ⟨holds, List.forall_mem_singleton.mpr within⟩

theorem ScopesIn.readBinding {id text : String} (holds : log.ScopesIn Scope.OfNames)
    (run : Log.readBinding id text log = (.ok (), after)) : after.ScopesIn Scope.OfNames := by
  obtain ⟨number, middle, opened, run⟩ := ok_of_bind_run run
  have before : middle.ScopesIn Scope.OfNames := by
    unfold openSource at opened
    split at opened <;> cases opened
    exact holds
  cases read : Statement.parseAssignmentText number text with
  | error error =>
    rw [read] at run
    cases run
  | ok statement =>
    rw [read] at run
    have keeps : Keeps (Log.ScopesIn Scope.OfNames)
        (assignAll statement.span statement.body.assignments) := by
      refine keeps_assignAll_of_each fun assignment member log next holds possible => ?_
      obtain ⟨_, rfl⟩ := assign_eq_ok.mp possible
      exact holds.assigned _
        (Statement.ofNames_of_parseAssignmentText read assignment member).scopesIn
    have kept := keeps middle before
    rw [show assignAll _ _ middle = (.ok (), after) from run] at kept
    exact kept

end Log

/-- A call leaves no references in other scopes behind, since what it read is taken back if it
fails. -/
theorem LoadCall.scopesIn_run {registry : Registry} (load : SourceLoader) (call : LoadCall)
    {loading : Loading} (reachable : Loading.Reachable registry loading)
    (holds : loading.log.ScopesIn Scope.OfNames) :
    (call.run registry load loading).2.log.ScopesIn Scope.OfNames := by
  cases ended : call.run registry load loading with
  | mk result next =>
    cases result with
    | error error =>
      unfold Log.ScopesIn Log.values
      rw [(run_error reachable ended).1]
      exact holds
    | ok _ =>
      have result := call.run_fst registry load loading
      have log := call.run_log registry load loading
      rw [ended] at result log
      have run := Log.of_keepSize_eq_ok (Prod.ext result.symm log.symm)
      cases call with
      | loadFile path => exact holds.readFile run
      | loadText id text => exact holds.readSource run
      | process path chain => exact holds.readFile run
      | applyBinding text => exact holds.readBinding run

/-- References in a log have scopes of names of the language. -/
theorem Loading.Reachable.scopesIn_log {registry : Registry} {loading : Loading}
    (reachable : Loading.Reachable registry loading) : loading.log.ScopesIn Scope.OfNames := by
  induction reachable with
  | start => exact nofun
  | process load path chain reachable ih =>
    exact LoadCall.scopesIn_run load (.process path chain) reachable ih
  | loadText load id text reachable ih =>
    exact LoadCall.scopesIn_run load (.loadText id text) reachable ih
  | applyBinding text reachable ih =>
    exact LoadCall.scopesIn_run (fun _ _ => .error .notInMemory) (.applyBinding text) reachable ih

theorem Config.Loaded.scopesIn_log {config : Config} (loaded : config.Loaded) :
    config.log.ScopesIn Scope.OfNames := by
  obtain ⟨loading, reachable, finished⟩ := loaded
  rw [(Config.ofLoading_ok finished).2.1]
  exact reachable.scopesIn_log

/-! ## What is evaluated -/

namespace Resolver

variable {config : Config} {allowed : Scope → Prop}

theorem composes_keeps (I : Progress → Prop) :
    Expr.Composes fun (α : Type) (act : Attempt Progress α) => Keeps I act :=
  ⟨keeps_pure, keeps_bind⟩

theorem keeps_expandMacro (loaded : config.Loaded) {evaluate : Expr → Attempt Progress Value}
    (inner : ∀ e ∈ config.log.values, Keeps (Progress.ScopesIn allowed) (evaluate e))
    (absent : ConfigError) (name : DottedName) (span : Span) :
    Keeps (Progress.ScopesIn allowed) (expandMacro config evaluate absent name span) := by
  unfold expandMacro
  dsimp only
  split
  · exact keeps_fail absent
  · refine keeps_bind (fun _ holds => holds) fun progress => ?_
    split
    · exact keeps_fail _
    · split
      · rename_i definition found
        have defined := loaded.replayed.macro?_value name.toText
        rw [found] at defined
        exact keeps_within (fun _ holds => holds) (fun _ holds => holds)
          (inner _ (Log.mem_values_of_definition? defined.symm))
      · exact keeps_fail _

theorem keeps_construct {key : NodeKey} (inside : allowed key.scope) (registration : Registration)
    (params : Params) :
    Keeps (Progress.ScopesIn allowed) (construct registration key params) := by
  intro progress holds
  have called : (progress.withCall registration key params).ScopesIn allowed := by
    unfold Progress.ScopesIn
    rw [progress.withCall_cache]
    exact holds
  cases built : build registration key params with
  | error error =>
    rw [construct_error built]
    exact called
  | ok node =>
    rw [construct_ok built]
    refine List.forall_mem_append.mpr ⟨called, List.forall_mem_singleton.mpr ?_⟩
    rw [key_of_build built]
    exact inside

section

variable {evaluate : ConfigError → Expr → Attempt Progress Value} (loaded : config.Loaded)
  (inner : ∀ absent, ∀ e ∈ config.log.values,
    Keeps (Progress.ScopesIn allowed) (evaluate absent e))

include loaded inner

theorem keeps_parameterValue (key : NodeKey) (param : Param) :
    Keeps (Progress.ScopesIn allowed) (parameterValue config evaluate key param) := by
  unfold parameterValue
  split
  · rename_i event found
    have governed := loaded.replayed.getScoped?_value key param.name
    rw [found] at governed
    exact inner _ _ (Log.mem_values_of_governing? governed.symm)
  · split
    · exact keeps_pure _
    · exact keeps_fail _

theorem keeps_parameterValues (key : NodeKey) (params : List Param) :
    Keeps (Progress.ScopesIn allowed) (parameterValues config evaluate key params) := by
  induction params with
  | nil => exact keeps_pure _
  | cons param params ih =>
    refine keeps_bind (keeps_parameterValue loaded inner key param) fun value => ?_
    split
    · exact keeps_bind ih fun _ => keeps_pure _
    · exact keeps_fail _

/-- Only here a node is added, the one of the key. -/
theorem keeps_resolveKey {key : NodeKey} (inside : allowed key.scope) :
    Keeps (Progress.ScopesIn allowed) (resolveKey config evaluate key) := by
  refine keeps_bind (fun _ holds => holds) fun progress => ?_
  split
  · exact keeps_pure _
  · split
    · exact keeps_fail _
    · refine keeps_ofExcept_bind fun registration _ => ?_
      refine keeps_bind (fun _ holds => holds) fun _ => ?_
      refine keeps_bind (keeps_parameterValues loaded inner key _) fun values => ?_
      exact keeps_construct inside registration ⟨values⟩

end

theorem scope_of_targetKey {target : Reference} {span : Span} {key : NodeKey}
    (named : targetKey config target span = .ok key) : key.scope = target.scope := by
  unfold targetKey at named
  split at named <;> cases named
  rfl

/-- Evaluation adds no node with another scope, if the expression and the log refer to no other. The
induction is on how deep macros and references may go. -/
theorem keeps_evaluate (loaded : config.Loaded) (written : config.log.ScopesIn allowed)
    (exhausted : ConfigError) (bound : Nat) (absent : ConfigError) {e : Expr}
    (within : e.ScopesIn allowed) :
    Keeps (Progress.ScopesIn allowed) (Resolver.evaluate config exhausted bound absent e) := by
  induction bound generalizing absent e with
  | zero => exact keeps_fail exhausted
  | succ bound ih =>
    refine (composes_keeps _).evaluate
      (keeps_expandMacro loaded (fun e member => ih absent (written e member)) absent)
      fun target member span => ?_
    refine keeps_ofExcept_bind fun key named => ?_
    have inside : allowed key.scope := by
      rw [scope_of_targetKey named]
      exact within target member
    exact keeps_bind (keeps_resolveKey loaded (fun absent e stands => ih absent (written e stands))
      inside) fun _ => keeps_pure _

theorem keeps_resolveNode (loaded : config.Loaded) (written : config.log.ScopesIn allowed)
    {key : NodeKey} (inside : allowed key.scope) :
    Keeps (Progress.ScopesIn allowed) (resolveNode config key) :=
  keeps_resolveKey loaded
    (fun absent e member => keeps_evaluate loaded written _ _ absent (written e member)) inside

/-! ## Calls -/

theorem scopesIn_resolve (loaded : config.Loaded) (written : config.log.ScopesIn allowed)
    {resolver : Resolver} {scope : Scope} (inside : allowed scope) (symbol : DottedName)
    (holds : ∀ node ∈ resolver.cache, allowed node.key.scope) :
    ∀ node ∈ (resolver.resolve config scope symbol).resolver.cache, allowed node.key.scope := by
  unfold resolve
  split
  · exact holds
  · rename_i registration _
    have keeps : Keeps (Progress.ScopesIn allowed)
        (resolveNode config ⟨scope, registration.name⟩) :=
      keeps_resolveNode loaded written inside
    have kept := keeps resolver.progress holds
    dsimp only
    split <;> rename_i run <;> rw [run] at kept
    · exact kept
    · exact fun node member => kept node (List.mem_of_mem_take member)

/-- After any calls, the nodes have scopes of calls or scopes in the log: a property that these have
is one of all. -/
theorem scopesIn_after (loaded : config.Loaded) (written : config.log.ScopesIn allowed)
    {calls : List (Scope × DottedName)} (asked : ∀ call ∈ calls, allowed call.1) :
    ∀ node ∈ (after config calls).graph.nodes, allowed node.key.scope := by
  have run : ∀ resolver : Resolver, (∀ node ∈ resolver.cache, allowed node.key.scope) →
      ∀ node ∈ (calls.foldl (fun resolver call =>
        (resolver.resolve config call.1 call.2).resolver) resolver).cache,
          allowed node.key.scope := by
    induction calls with
    | nil => exact fun _ => id
    | cons call calls ih =>
      obtain ⟨first, others⟩ := List.forall_mem_cons.mp asked
      exact fun resolver holds => ih others _ (scopesIn_resolve loaded written first call.2 holds)
  exact run start nofun

end Resolver

end ConfigBinding
