import ConfigBinding.Proofs.Governing
import ConfigBinding.Proofs.SourceSpans
import ConfigBinding.Resolver

/-!
# Sources that are looked up

Where a place is told for a span, the source with the number of the span is looked up, and in it
the line. A map of sources gives an empty source for a number that it never gave out, so nothing
shows whether this happens. Here every lookup is checked (`SourceMap.locate`): where the source or
the line is missing, the run fails with an error of its own, `lost`, which may be any.

A checked run does just what the run does that is not checked, whatever `lost` is. So nothing that
is looked up is ever missing. For loading this is because each span comes from a text that was read
under the number of its source, and sources are never taken away. For resolving it is because all
values that are evaluated stand in the log.

Results:
1. `LoadCall.checkedRun_eq`: calls of a loader find every source.
2. `Resolver.checkedResolve_eq`: resolving finds every source, if the spans in the log have sources.
-/

namespace ConfigBinding

/-- The line and column of an offset, where the line has to be found among those of the source and
must not start behind the offset. -/
def SourceFile.lineCol? (source : SourceFile) (offset : Nat) : Option (UInt32 × UInt32) :=
  let offset := min offset source.byteSize
  let passed := source.lineStarts.takeWhile (· ≤ offset)
  match passed.getLast? with
  | some start =>
    if start ≤ offset then
      some (UInt32.ofNat passed.length, UInt32.ofNat (offset - start) + 1)
    else none
  | none => none

/-- The first line is found for every offset, so there is a last one. -/
theorem SourceFile.lineCol?_eq (source : SourceFile) (offset : Nat) :
    source.lineCol? offset = some (source.lineCol offset) := by
  have passed : source.lineStarts.takeWhile (· ≤ min offset source.byteSize) ≠ [] := by
    simp [lineStarts]
  have last := List.getLast?_eq_some_getLast passed
  have before := List.mem_takeWhile_imp (List.getLast_mem passed)
  simp only [decide_eq_true_eq] at before
  simp only [lineCol?, lineCol, last, if_pos before, List.getLastD_eq_getLast?, Option.getD_some]

/-- The place at which a span starts, if its source and its line are there. -/
def SourceMap.locate (lost : ConfigError) (sources : SourceMap) (span : Span) :
    Except ConfigError Location :=
  match sources.files[span.file]? with
  | none => .error lost
  | some source =>
    match source.lineCol? span.start with
    | none => .error lost
    | some (line, column) => .ok ⟨source.name, line, column⟩

theorem SourceMap.locate_eq (lost : ConfigError) {sources : SourceMap} {span : Span}
    (inside : span.file < sources.size) :
    sources.locate lost span = .ok (sources.location span) := by
  have found := List.getElem?_eq_getElem inside
  rw [locate, found]
  dsimp only
  rw [SourceFile.lineCol?_eq]
  exact congrArg Except.ok (location_inFile found span).symm

/-- The spans of a value at every depth are those of sources that the map has. -/
def SourceMap.Knows (sources : SourceMap) (e : Expr) : Prop :=
  ∀ part : Expr, part.PartOf e → part.span.file < sources.size

theorem Expr.exists_part_of_macroRef {e : Expr} {mention : DottedName × Span}
    (member : mention ∈ e.macroRefs) : (Expr.macroRef mention.1 mention.2).PartOf e := by
  induction e using Expr.induction with
  | literal | reference => cases member
  | macroRef name span =>
    unfold macroRefs at member
    split at member
    · cases member
    · rw [List.mem_singleton.mp member]
      exact .refl _
  | list items span ih =>
    rw [macroRefs, macroRefsOfItems_eq] at member
    obtain ⟨item, inside, mentioned⟩ := List.mem_flatMap.mp member
    exact .child inside (ih item inside mentioned)
  | tuple items span ih =>
    rw [macroRefs, macroRefsOfItems_eq] at member
    obtain ⟨item, inside, mentioned⟩ := List.mem_flatMap.mp member
    exact .child inside (ih item inside mentioned)
  | map entries span ih =>
    rw [macroRefs, macroRefsOfEntries_eq] at member
    obtain ⟨entry, inside, mentioned⟩ := List.mem_flatMap.mp member
    exact .child (List.mem_map_of_mem inside) (ih entry inside mentioned)

/-! ## Checked loading -/

namespace Log

variable (lost : ConfigError)

/-- Fails if a value names a macro that is not defined. -/
def checkedMacros (log : Log) (value : Expr) : Except ConfigError Unit :=
  match value.macroRefs.find? fun (name, _) => !Entries.contains name.toText log.macroIndex with
  | none => .ok ()
  | some (name, span) => do
    let place ← log.sources.locate lost span
    throw (.undefinedMacro name.toText place)

/-- Appends an assignment that stands at the given span. -/
def checkedAssign (log : Log) (span : Span) (assignment : Assignment) : Except ConfigError Log := do
  checkedMacros lost log assignment.value
  let origin ← log.sources.locate lost span
  return {
    sources := log.sources
    events := log.events ++ [assignment.event origin]
    macroIndex := assignment.index log.events.length log.macroIndex }

def checkedAssignAll (span : Span) (assignments : List Assignment) : Attempt Log Unit :=
  Attempt.forEach
    (fun assignment => Attempt.tryModify fun log => checkedAssign lost log span assignment)
    assignments

def checkedReject {α : Type} (error : SyntaxError) : Attempt Log α := fun log =>
  match log.sources.locate lost error.span with
  | .ok place => (.error (.badStatement place error.message), log)
  | .error missing => (.error missing, log)

def checkedStatements (registry : Registry) (includeFile : String → Location → Attempt Log Unit) :
    FileScope → List Statement → Attempt Log Unit
  | _, [] => pure ()
  | scope, ⟨.importPath imported, _⟩ :: statements =>
    checkedStatements registry includeFile
      { scope with aliases := scope.aliases.insert imported.localName imported.path } statements
  | scope, ⟨.dynamicRegistration, _⟩ :: statements =>
    checkedStatements registry includeFile { scope with dynamic := true } statements
  | scope, ⟨.includeFile path, span⟩ :: statements => do
    let log ← Attempt.get
    let place ← Attempt.ofExcept (log.sources.locate lost span)
    includeFile path place
    checkedStatements registry includeFile scope statements
  | scope, ⟨body, span⟩ :: statements => do
    checkedAssignAll lost span (body.assignments.map (Assignment.canonical scope registry))
    checkedStatements registry includeFile scope statements

def checkedSource (registry : Registry) (load : SourceLoader) :
    Nat → LoadedSource → IncludeChain → Option Location → Attempt Log Unit
  | 0, source, chain, site =>
    Attempt.fail (if chain.contains source.id then
      .circularInclude (chain.extend source.id).files site else .tooManySources)
  | fuel + 1, source, chain, site =>
    let inner := chain.extend source.id
    if chain.contains source.id then Attempt.fail (.circularInclude inner.files site)
    else do
      let number ← openSource source.id source.text
      match Statement.parseSource number source.text with
      | .error error => checkedReject lost error
      | .ok statements =>
        checkedStatements lost registry
          (fun path place =>
            match load path inner.current? with
            | .error failure => Attempt.fail (.unloadable path failure.message (some place))
            | .ok included => checkedSource registry load fuel included inner (some place))
          .start statements

def checkedFile (registry : Registry) (load : SourceLoader) (path : String) (chain : IncludeChain) :
    Attempt Log Unit :=
  match load path chain.current? with
  | .error failure => Attempt.fail (.unloadable path failure.message none)
  | .ok source => checkedSource lost registry load SourceMap.capacity source chain none

def checkedBinding (id text : String) : Attempt Log Unit := do
  let number ← openSource id text
  match Statement.parseAssignmentText number text with
  | .error error => checkedReject lost error
  | .ok statement => checkedAssignAll lost statement.span statement.body.assignments

end Log

/-- Makes the call and checks each lookup of a source. -/
def LoadCall.checkedRun (lost : ConfigError) (registry : Registry) (load : SourceLoader)
    (call : LoadCall) (loading : Loading) : Except ConfigError Unit × Loading :=
  match call with
  | .loadFile path => loading.attempt (Log.checkedFile lost registry load path .empty)
  | .loadText id text =>
    loading.attempt (Log.checkedSource lost registry load SourceMap.capacity ⟨id, text⟩ .empty none)
  | .process path chain => loading.attempt (Log.checkedFile lost registry load path chain)
  | .applyBinding text =>
    { loading with directBindings := loading.directBindings + 1 }.attempt
      (Log.checkedBinding lost (Loading.directId loading.directBindings) text)


/-! ## Loading finds its sources -/

namespace Log

open Attempt (Agree Keeps agree_bind agree_refl keeps_tryModify)

variable (lost : ConfigError)

theorem checkedMacros_eq {log : Log} {value : Expr} (known : log.sources.Knows value) :
    checkedMacros lost log value =
      match log.undefinedMacro? value with
      | some error => .error error
      | none => .ok () := by
  unfold checkedMacros undefinedMacro?
  cases found : value.macroRefs.find? fun (name, _) =>
      !Entries.contains name.toText log.macroIndex with
  | none => rfl
  | some mention =>
    have placed : mention.2.file < log.sources.size :=
      known _ (Expr.exists_part_of_macroRef (List.mem_of_find?_eq_some found))
    dsimp only
    rw [SourceMap.locate_eq lost placed]
    rfl

theorem checkedAssign_eq {log : Log} {span : Span} {assignment : Assignment}
    (placed : span.file < log.sources.size) (known : log.sources.Knows assignment.value) :
    checkedAssign lost log span assignment = log.assign span assignment := by
  unfold checkedAssign
  rw [checkedMacros_eq lost known, SourceMap.locate_eq lost placed]
  cases assignment with
  | macroDef name value =>
    simp only [assign, addMacro, Assignment.value]
    cases log.undefinedMacro? value <;> rfl
  | binding key value =>
    simp only [assign, addBinding, Assignment.value]
    cases log.undefinedMacro? value <;> rfl

variable {number : Nat} {text : String}

/-- The log has a source with the number. Sources are not taken away. -/
theorem stepwise_number (number : Nat) : Stepwise fun log => number < log.sources.size :=
  (kept_sources (number + 1)).toStepwise

theorem knows_of_liesIn {log : Log} {e : Expr} (room : number < log.sources.size)
    (lies : e.LiesIn number text) : log.sources.Knows e :=
  fun part within => (lies part within).file ▸ room

theorem agree_assignAll {span : Span} {assignments : List Assignment}
    (placed : span.LiesIn number text)
    (each : ∀ assignment ∈ assignments, assignment.value.LiesIn number text) :
    Agree (fun log => number < log.sources.size) (checkedAssignAll lost span assignments)
      (assignAll span assignments) := by
  induction assignments with
  | nil => exact agree_refl _
  | cons assignment assignments ih =>
    obtain ⟨first, others⟩ := List.forall_mem_cons.mp each
    refine agree_bind (fun log room => ?_) ?_ fun _ => ih others
    · have same : checkedAssign lost log span assignment = log.assign span assignment :=
        checkedAssign_eq lost (placed.file ▸ room) (knows_of_liesIn room first)
      simp only [Attempt.tryModify, same]
    · exact keeps_tryModify fun _ _ holds assigned =>
        (stepwise_number number).assign holds assigned

theorem checkedReject_eq {α : Type} {log : Log} {error : SyntaxError}
    (placed : error.span.file < log.sources.size) :
    (checkedReject lost error : Attempt Log α) log = reject error log := by
  unfold checkedReject
  rw [SourceMap.locate_eq lost placed]
  rfl

/-- Statements of a source find it. -/
theorem agree_runStatements (registry : Registry)
    {includeFile : String → Location → Attempt Log Unit}
    (keeps : ∀ path place, Keeps (fun log => number < log.sources.size) (includeFile path place))
    (scope : FileScope) {statements : List Statement}
    (each : ∀ statement ∈ statements, statement.LiesIn number text) :
    Agree (fun log => number < log.sources.size)
      (checkedStatements lost registry includeFile scope statements)
      (runStatements registry includeFile scope statements) := by
  induction statements generalizing scope with
  | nil => exact agree_refl _
  | cons statement statements ih =>
    obtain ⟨first, others⟩ := List.forall_mem_cons.mp each
    have assigns := agree_bind (agree_assignAll lost first.span (first.assigns scope registry))
      (keeps_assignAll (stepwise_number number) _ _) fun _ => ih scope others
    obtain ⟨body, span⟩ := statement
    cases body with
    | importPath imported => exact ih _ others
    | dynamicRegistration => exact ih _ others
    | includeFile path =>
      intro log room
      have placed : log.sources.locate lost span = .ok (log.location span) :=
        SourceMap.locate_eq lost (first.span.file ▸ room)
      have goesOn := agree_bind (agree_refl (includeFile path (log.location span)))
        (keeps path (log.location span)) fun _ => ih scope others
      unfold checkedStatements runStatements
      rw [Attempt.get_bind, Attempt.get_bind, placed]
      exact goesOn log room
    | macroDef name value => exact assigns
    | binding bound => exact assigns

theorem checkedSource_eq (registry : Registry) (load : SourceLoader) (fuel : Nat) :
    checkedSource lost registry load fuel = readSource registry load fuel := by
  induction fuel with
  | zero => rfl
  | succ fuel ih =>
    funext source chain site log
    unfold checkedSource readSource
    dsimp only
    rw [ih]
    split
    · rfl
    rw [openSource_bind, openSource_bind]
    split
    · have added : log.sources.size < (log.addSource source.id source.text).1.sources.size :=
        Nat.lt_of_lt_of_eq (Nat.lt_succ_self _) (log.size_addSource ..).symm
      cases read : Statement.parseSource log.sources.size source.text with
      | error error =>
        exact checkedReject_eq lost (Statement.file_of_parseSource_error read ▸ added)
      | ok statements =>
        refine agree_runStatements lost registry (fun path place => ?_) .start
          (Statement.liesIn_of_parseSource read) _ added
        split
        · exact Attempt.keeps_fail _
        · exact keeps_readSource (stepwise_number _) registry load fuel _ _ _
    · rfl

theorem checkedFile_eq (registry : Registry) (load : SourceLoader) (path : String)
    (chain : IncludeChain) :
    checkedFile lost registry load path chain = readFile registry load path chain := by
  unfold checkedFile readFile
  cases load path chain.current? with
  | error failure => rfl
  | ok source =>
    dsimp only
    rw [checkedSource_eq]

theorem checkedBinding_eq (id text : String) :
    checkedBinding lost id text = readBinding id text := by
  funext log
  unfold checkedBinding readBinding
  rw [openSource_bind, openSource_bind]
  split
  · have added : log.sources.size < (log.addSource id text).1.sources.size :=
      Nat.lt_of_lt_of_eq (Nat.lt_succ_self _) (log.size_addSource ..).symm
    cases read : Statement.parseAssignmentText log.sources.size text with
    | error error =>
      exact checkedReject_eq lost (Statement.file_of_parseAssignmentText_error read ▸ added)
    | ok statement =>
      have lies := Statement.liesIn_of_parseSource
        (Statement.parseSource_of_parseAssignmentText read) statement List.mem_cons_self
      refine agree_assignAll lost lies.span (fun assignment member => ?_) _ added
      exact lies.written _ (statement.body.written_eq ▸ List.mem_map_of_mem member)
  · rfl

end Log

/-- A call of a loader finds all that it looks up. -/
theorem LoadCall.checkedRun_eq (lost : ConfigError) (registry : Registry) (load : SourceLoader)
    (call : LoadCall) (loading : Loading) :
    call.checkedRun lost registry load loading = call.run registry load loading := by
  cases call <;>
    simp only [checkedRun, Log.checkedFile_eq, Log.checkedSource_eq, Log.checkedBinding_eq] <;> rfl

/-! ## Checked resolving -/

namespace Resolver

variable (lost : ConfigError)

/-- The value of a macro. -/
def checkedMacro (config : Config) (evaluate : Expr → Attempt Progress Value)
    (absent : ConfigError) (name : DottedName) (span : Span) : Attempt Progress Value :=
  let text := name.toText
  if name = Expr.requiredMacro then Attempt.fail absent
  else do
    let progress ← Attempt.get
    if text ∈ progress.macros then
      Attempt.fail (.cyclicReference ((cycle text progress.macros).map ("%" ++ ·)))
    else match config.log.macro? text with
      | some definition =>
        Attempt.within (Progress.enterMacro text) Progress.leaveMacro (evaluate definition.value)
      | none => do
        let place ← Attempt.ofExcept (config.log.sources.locate lost span)
        Attempt.fail (.undefinedMacro text place)

/-- The key of the node that a reference stands for. -/
def checkedTarget (config : Config) (target : Reference) (span : Span) :
    Except ConfigError NodeKey :=
  match config.registry.lookup target.symbol with
  | .ok registration => .ok ⟨target.scope, registration.name⟩
  | .error error => do
    let place ← config.log.sources.locate lost span
    throw (error.at? place)

def checkedEvaluate (config : Config) (exhausted : ConfigError) :
    (bound : Nat) → ConfigError → Expr → Attempt Progress Value
  | 0, _, _ => Attempt.fail exhausted
  | bound + 1, absent, e =>
    e.evaluate
      (checkedMacro lost config (checkedEvaluate config exhausted bound absent) absent)
      (fun target span => do
        let key ← Attempt.ofExcept (checkedTarget lost config target span)
        let node ← resolveKey config (checkedEvaluate config exhausted bound) key
        return node.toValue)

def checkedNode (config : Config) (key : NodeKey) : Attempt Progress Node :=
  resolveKey config (checkedEvaluate lost config (.cyclicReference []) (depthLimit config.log)) key

/-- Resolves a symbol and checks each lookup of a source. -/
def checkedResolve (config : Config) (scope : Scope) (symbol : DottedName) (resolver : Resolver) :
    Resolution :=
  match config.registry.lookup symbol with
  | .error error => ⟨.error error, [], resolver⟩
  | .ok registration =>
    let key : NodeKey := ⟨scope, registration.name⟩
    match checkedNode lost config key resolver.progress with
    | (.ok node, progress) => ⟨.ok node, progress.calls, resolver.accept key progress⟩
    | (.error error, progress) => ⟨.error error, progress.calls, resolver.rollBack progress⟩

end Resolver

/-! ## Resolving finds its sources -/

namespace Expr

section

variable {m : Type → Type} [Monad m] {onMacro onMacroToo : DottedName → Span → m Value}
  {onReference onReferenceToo : Reference → Span → m Value}

/-- An expression means the same if the macros and references in it do. -/
theorem evaluate_congr {e : Expr}
    (macros : ∀ name span, (Expr.macroRef name span).PartOf e →
      onMacro name span = onMacroToo name span)
    (references : ∀ target span, (Expr.reference target span).PartOf e →
      onReference target span = onReferenceToo target span) :
    e.evaluate onMacro onReference = e.evaluate onMacroToo onReferenceToo := by
  have ofItems {items : List Expr}
      (each : ∀ item ∈ items,
        item.evaluate onMacro onReference = item.evaluate onMacroToo onReferenceToo) :
      evaluateItems onMacro onReference items = evaluateItems onMacroToo onReferenceToo items := by
    induction items with
    | nil => rfl
    | cons item items ih =>
      obtain ⟨first, others⟩ := List.forall_mem_cons.mp each
      rw [evaluateItems, evaluateItems, first, ih others]
  have ofEntries {entries : List (String × Expr)}
      (each : ∀ entry ∈ entries,
        entry.2.evaluate onMacro onReference = entry.2.evaluate onMacroToo onReferenceToo) :
      evaluateEntries onMacro onReference entries =
        evaluateEntries onMacroToo onReferenceToo entries := by
    induction entries with
    | nil => rfl
    | cons entry entries ih =>
      obtain ⟨first, others⟩ := List.forall_mem_cons.mp each
      rw [evaluateEntries, evaluateEntries, first, ih others]
  induction e using Expr.induction with
  | literal => rfl
  | macroRef name span => exact macros name span (.refl _)
  | reference target span => exact references target span (.refl _)
  | list items span ih =>
    rw [evaluate, evaluate, ofItems fun item member => ih item member
      (fun name span part => macros name span (.child member part))
      (fun target span part => references target span (.child member part))]
  | tuple items span ih =>
    rw [evaluate, evaluate, ofItems fun item member => ih item member
      (fun name span part => macros name span (.child member part))
      (fun target span part => references target span (.child member part))]
  | map entries span ih =>
    rw [evaluate, evaluate, ofEntries fun entry member => ih entry member
      (fun name span part => macros name span (.child (List.mem_map_of_mem member) part))
      (fun target span part => references target span (.child (List.mem_map_of_mem member) part))]

end

end Expr

namespace Resolver

section

variable {m : Type → Type} [Monad m] [MonadExceptOf ConfigError m] {config : Config}
  {evaluate evaluateToo : ConfigError → Expr → m Value}

/-- Parameters only take values of the log. -/
theorem parameterValues_congr (loaded : config.Loaded)
    (same : ∀ value ∈ config.log.values, ∀ absent, evaluate absent value = evaluateToo absent value)
    (key : NodeKey) (params : List Param) :
    parameterValues config evaluate key params = parameterValues config evaluateToo key params := by
  have each (param : Param) :
      parameterValue config evaluate key param = parameterValue config evaluateToo key param := by
    unfold parameterValue
    split
    · rename_i event found
      have governs := loaded.replayed.getScoped?_value key param.name
      rw [found] at governs
      exact same event.value (Log.mem_values_of_governing? governs.symm) _
    · rfl
  induction params with
  | nil => rfl
  | cons param params ih =>
    rw [parameterValues, parameterValues, each, ih]

end

theorem resolveKey_congr {config : Config}
    {evaluate evaluateToo : ConfigError → Expr → Attempt Progress Value} (loaded : config.Loaded)
    (same : ∀ value ∈ config.log.values, ∀ absent,
      evaluate absent value = evaluateToo absent value) :
    resolveKey config evaluate = resolveKey config evaluateToo := by
  funext key
  unfold resolveKey
  simp only [parameterValues_congr loaded same]

variable {config : Config} {lost : ConfigError} {span : Span}

theorem checkedMacro_eq {evaluate evaluateToo : Expr → Attempt Progress Value}
    (loaded : config.Loaded) (placed : span.file < config.log.sources.size)
    (same : ∀ value ∈ config.log.values, evaluate value = evaluateToo value) (absent : ConfigError)
    (name : DottedName) :
    checkedMacro lost config evaluate absent name span =
      expandMacro config evaluateToo absent name span := by
  have defined := loaded.replayed.macro?_value name.toText
  unfold checkedMacro expandMacro
  rw [SourceMap.locate_eq lost placed]
  dsimp only
  cases found : config.log.macro? name.toText with
  | none => rfl
  | some definition =>
    rw [found] at defined
    simp only [same definition.value (Log.mem_values_of_definition? defined.symm)]

theorem checkedTarget_eq (placed : span.file < config.log.sources.size) (target : Reference) :
    checkedTarget lost config target span = targetKey config target span := by
  unfold checkedTarget targetKey
  rw [SourceMap.locate_eq lost placed]
  rfl

theorem checkedEvaluate_eq (loaded : config.Loaded)
    (known : ∀ value ∈ config.log.values, config.log.sources.Knows value) (exhausted : ConfigError)
    (bound : Nat) {e : Expr} (knows : config.log.sources.Knows e) (absent : ConfigError) :
    checkedEvaluate lost config exhausted bound absent e =
      evaluate config exhausted bound absent e := by
  induction bound generalizing absent e with
  | zero => rfl
  | succ bound ih =>
    -- Below a macro or a reference only values of the log are evaluated.
    have deeper (value : Expr) (member : value ∈ config.log.values) (absent : ConfigError) :
        checkedEvaluate lost config exhausted bound absent value =
          evaluate config exhausted bound absent value := ih (known value member) absent
    refine Expr.evaluate_congr (fun name span part => ?_) fun target span part => ?_
    · exact checkedMacro_eq loaded (knows _ part) (fun value member => deeper value member absent)
        absent name
    · have found : checkedTarget lost config target span = targetKey config target span :=
        checkedTarget_eq (knows _ part) target
      rw [found, resolveKey_congr loaded deeper]

/-- Resolving in a loaded configuration finds all that it looks up. -/
theorem checkedResolve_eq (loaded : config.Loaded)
    (known : ∀ value ∈ config.log.values, config.log.sources.Knows value) (scope : Scope)
    (symbol : DottedName) (resolver : Resolver) :
    resolver.checkedResolve lost config scope symbol = resolver.resolve config scope symbol := by
  have node : checkedNode lost config = resolveNode config :=
    resolveKey_congr loaded fun value member absent =>
      checkedEvaluate_eq loaded known _ _ (known value member) absent
  unfold checkedResolve resolve
  exact node ▸ rfl

end Resolver

end ConfigBinding
