import ConfigBinding.Proofs.AgreeingConfigs
import ConfigBinding.Proofs.FailedCalls
import ConfigBinding.Proofs.Reading.Statements

/-!
# Logs that say the same

Two logs may say the same, entry by entry, though it stands in other sources or is written in other
statements. Nothing that is done with them tells them apart but by places: what is read into the
one ends like what is read into the other, for the same reason if it fails, and the two logs say the
same again. And they have the same table and the same nodes, if any.

Results:
1. `Log.parallel_runStatements`, `Log.parallel_readSource`: what says the same is read alike.
2. `LoadCall.sameEnd_run`: each call of a loader ends alike.
3. `Log.SaysSame.alike_after`: whatever follows, the same values and nodes are there in the end.
-/

namespace ConfigBinding

/-! ## What is said -/

/-- What is assigned, wherever it stands. -/
def Assignment.withoutSpans : Assignment → Assignment
  | .macroDef name value => .macroDef name value.withoutSpans
  | .binding key value => .binding key value.withoutSpans

/-- What an entry says, wherever it stands. -/
def Event.content : Event → Assignment
  | .binding event => .binding event.key event.value.withoutSpans
  | .macroDef event => .macroDef event.name event.value.withoutSpans

namespace Assignment

theorem content_event (assignment : Assignment) (place : Location) :
    (assignment.event place).content = assignment.withoutSpans := by
  cases assignment <;> rfl

theorem value_withoutSpans (assignment : Assignment) :
    assignment.withoutSpans.value = assignment.value.withoutSpans := by
  cases assignment <;> rfl

theorem index_withoutSpans (number : Nat) (index : List (String × Nat)) (assignment : Assignment) :
    assignment.withoutSpans.index number index = assignment.index number index := by
  cases assignment <;> rfl

theorem canonical_withoutSpans (scope : FileScope) (registry : Registry)
    (assignment : Assignment) :
    assignment.withoutSpans.canonical scope registry =
      (assignment.canonical scope registry).withoutSpans := by
  have value (e : Expr) : scope.canonicalValue registry e.withoutSpans =
      (scope.canonicalValue registry e).withoutSpans := by
    unfold FileScope.canonicalValue
    split
    · exact Expr.mapReferences_mapSpans _ _ e
    · rfl
  cases assignment <;> simp only [withoutSpans, canonical, value]

end Assignment

theorem StatementBody.assignments_withoutSpans (body : StatementBody) :
    body.withoutSpans.assignments = body.assignments.map Assignment.withoutSpans := by
  cases body with
  | importPath imported => rfl
  | dynamicRegistration => rfl
  | includeFile path => rfl
  | macroDef name value => rfl
  | binding bound =>
    obtain ⟨scope, symbol, body⟩ := bound
    cases body with
    | single param value => rfl
    | block entries span =>
      simp only [withoutSpans, assignments, Binding.parameters, BindingBody.withoutSpans,
        List.map_map]
      rfl

/-- The assignments of a statement as they are meant in a file, wherever they stand. -/
theorem StatementBody.canonical_assignments (body : StatementBody) (scope : FileScope)
    (registry : Registry) :
    (body.assignments.map (·.canonical scope registry)).map Assignment.withoutSpans =
      body.withoutSpans.assignments.map (·.canonical scope registry) := by
  rw [assignments_withoutSpans, List.map_map, List.map_map]
  exact List.map_congr_left fun assignment _ =>
    (assignment.canonical_withoutSpans scope registry).symm

theorem Statement.included?_withoutSpans (statement : Statement) :
    statement.withoutSpans.included? = statement.included? := by
  obtain ⟨body, span⟩ := statement
  cases body <;> rfl

theorem FileScope.next_withoutSpans (scope : FileScope) (statement : Statement) :
    scope.next statement.withoutSpans = scope.next statement := by
  obtain ⟨body, span⟩ := statement
  cases body <;> rfl

/-! ## How attempts end -/

/-- The macro that is missing. -/
def ConfigError.missingMacro? : ConfigError → Option String
  | .undefinedMacro name _ => some name
  | _ => none

/-- Two errors of one kind. If a macro is missing, it is the same one. -/
structure ConfigError.SameKind (first second : ConfigError) : Prop where
  kind : first.kindName = second.kindName
  missing : first.missingMacro? = second.missingMacro?

theorem ConfigError.sameKind_at (error : ConfigError) (place other : Location) :
    (error.at? place).SameKind (error.at? other) := by
  unfold at?
  split <;> exact ⟨rfl, rfl⟩

/-- Two ways to end: with results that are related, or with errors of one kind. -/
inductive SameEnd {α β : Type} (R : α → β → Prop) :
    Except ConfigError α → Except ConfigError β → Prop
  | ok {a : α} {b : β} : R a b → SameEnd R (.ok a) (.ok b)
  | error {error other : ConfigError} :
      error.SameKind other → SameEnd R (.error error) (.error other)

theorem SameEnd.eq_ok_iff {α : Type} {first second : Except ConfigError α}
    (ends : SameEnd Eq first second) (a : α) : first = .ok a ↔ second = .ok a := by
  cases ends with
  | ok same => rw [same]
  | error _ => exact ⟨nofun, nofun⟩

namespace Log

/-- The logs say the same, entry by entry. -/
structure SaysSame (log other : Log) : Prop where
  events : log.events.map Event.content = other.events.map Event.content
  macroIndex : log.macroIndex = other.macroIndex
  sources : log.sources.size = other.sources.size

theorem SaysSame.size {log other : Log} (same : log.SaysSame other) : log.size = other.size := by
  have lengths := congrArg List.length same.events
  rwa [List.length_map, List.length_map] at lengths

theorem SaysSame.symm {log other : Log} (same : log.SaysSame other) : other.SaysSame log :=
  ⟨same.events.symm, same.macroIndex.symm, same.sources.symm⟩

theorem saysSame_refl (log : Log) : log.SaysSame log := ⟨rfl, rfl, rfl⟩

/-- From logs that say the same, the attempts end alike and leave logs that say the same. -/
def Parallel (act second : Attempt Log Unit) : Prop :=
  ∀ log other, log.SaysSame other →
    SameEnd Eq (act log).1 (second other).1 ∧ (act log).2.SaysSame (second other).2

theorem parallel_pure : Parallel (pure ()) (pure ()) := fun _ _ same => ⟨.ok rfl, same⟩

theorem parallel_fail {error other : ConfigError} (kinds : error.SameKind other) :
    Parallel (Attempt.fail error) (Attempt.fail other) :=
  fun _ _ same => ⟨.error kinds, same⟩

theorem parallel_reject (error other : SyntaxError) : Parallel (reject error) (reject other) :=
  fun _ _ same => ⟨.error ⟨rfl, rfl⟩, same⟩

theorem parallel_bind {act second actNext secondNext : Attempt Log Unit}
    (first : Parallel act second) (next : Parallel actNext secondNext) :
    Parallel (act >>= fun _ => actNext) (second >>= fun _ => secondNext) := by
  intro log other same
  have begun := first log other same
  cases run : act log with
  | mk result middle =>
    cases runOther : second other with
    | mk otherResult otherMiddle =>
      rw [run, runOther] at begun
      obtain ⟨ends, same⟩ := begun
      cases ends with
      | ok _ =>
        rw [Attempt.bind_ok run, Attempt.bind_ok runOther]
        exact next middle otherMiddle same
      | error kinds =>
        rw [Attempt.bind_error run, Attempt.bind_error runOther]
        exact ⟨.error kinds, same⟩

/-- Each log has a source more, under one number. -/
theorem parallel_openSource (name other text written : String)
    {next second : Nat → Attempt Log Unit}
    (each : ∀ number, Parallel (next number) (second number)) :
    Parallel (openSource name text >>= next) (openSource other written >>= second) := by
  intro log mirror same
  rw [openSource_bind, openSource_bind, ← same.sources]
  split
  · refine each log.sources.size _ _ ⟨same.events, same.macroIndex, ?_⟩
    rw [size_addSource, size_addSource, same.sources]
  · exact ⟨.error ⟨rfl, rfl⟩, same⟩

/-! ## Assignments -/

/-- What is missing for a value in one log is missing for it in the other. -/
theorem SaysSame.undefinedMacro? {log other : Log} (same : log.SaysSame other)
    {value written : Expr} (alike : value.withoutSpans = written.withoutSpans) :
    (log.undefinedMacro? value = none ∧ other.undefinedMacro? written = none) ∨
      ∃ name place otherPlace, log.undefinedMacro? value = some (.undefinedMacro name place) ∧
        other.undefinedMacro? written = some (.undefinedMacro name otherPlace) := by
  have found : (value.macroRefs.find? fun mention =>
        !Entries.contains mention.1.toText log.macroIndex).map Prod.fst =
      (written.macroRefs.find? fun mention =>
        !Entries.contains mention.1.toText other.macroIndex).map Prod.fst := by
    have names : value.macroRefs.map Prod.fst = written.macroRefs.map Prod.fst := by
      rw [← value.macroRefs_withoutSpans, alike, written.macroRefs_withoutSpans]
    have first := congrArg (List.find? fun name =>
      !Entries.contains name.toText log.macroIndex) names
    rw [List.find?_map, List.find?_map] at first
    rw [← same.macroIndex]
    exact first
  unfold Log.undefinedMacro?
  cases here : value.macroRefs.find? fun mention =>
      !Entries.contains mention.1.toText log.macroIndex with
  | none =>
    rw [here] at found
    rw [Option.map_eq_none_iff.mp found.symm]
    exact .inl ⟨rfl, rfl⟩
  | some mention =>
    rw [here] at found
    obtain ⟨mirror, there, name⟩ := Option.map_eq_some_iff.mp found.symm
    rw [there]
    refine .inr ⟨mention.1.toText, log.location mention.2, other.location mirror.2, rfl, ?_⟩
    rw [← name]
    rfl

theorem assign_eq (log : Log) (span : Span) (assignment : Assignment) :
    log.assign span assignment =
      match log.undefinedMacro? assignment.value with
      | some error => .error error
      | none => .ok (log.assigned span assignment) := by
  cases assignment <;> rfl

variable {registry : Registry} {load : SourceLoader}

theorem parallel_assign (span place : Span) {assignment written : Assignment}
    (alike : assignment.withoutSpans = written.withoutSpans) :
    Parallel (Attempt.tryModify fun log => log.assign span assignment)
      (Attempt.tryModify fun log => log.assign place written) := by
  have values : assignment.value.withoutSpans = written.value.withoutSpans := by
    rw [← assignment.value_withoutSpans, alike, written.value_withoutSpans]
  intro log other same
  simp only [Attempt.tryModify, assign_eq]
  obtain ⟨defined, otherDefined⟩ | ⟨name, here, there, missing, otherMissing⟩ :=
    same.undefinedMacro? values
  · rw [defined, otherDefined]
    refine ⟨.ok rfl, ?_, ?_, same.sources⟩
    · simp only [assigned, List.map_append, List.map_singleton, Assignment.content_event, alike,
        same.events]
    · rw [assigned, assigned, ← assignment.index_withoutSpans, alike, written.index_withoutSpans,
        same.macroIndex]
      exact congrArg (written.index · other.macroIndex) same.size
  · rw [missing, otherMissing]
    exact ⟨.error ⟨rfl, rfl⟩, same⟩

theorem parallel_assignAll (span place : Span) {assignments written : List Assignment}
    (alike : assignments.map Assignment.withoutSpans = written.map Assignment.withoutSpans) :
    Parallel (assignAll span assignments) (assignAll place written) := by
  induction assignments generalizing written with
  | nil =>
    obtain rfl := List.map_eq_nil_iff.mp alike.symm
    exact parallel_pure
  | cons assignment assignments ih =>
    obtain ⟨first, others, rfl, same, rest⟩ := List.map_eq_cons_iff.mp alike.symm
    exact parallel_bind (parallel_assign span place same.symm) (ih rest.symm)

/-! ## Files -/

/-- Statements that say the same are carried out alike if what stands behind them is. -/
theorem parallel_runStatements_append
    {includeFile includeOther : String → Location → Attempt Log Unit}
    (files : ∀ path place other, Parallel (includeFile path place) (includeOther path other))
    {scope : FileScope} {statements written after others : List Statement}
    (alike : statements.map Statement.withoutSpans = written.map Statement.withoutSpans)
    (rest : ∀ scope, Parallel (runStatements registry includeFile scope after)
      (runStatements registry includeOther scope others)) :
    Parallel (runStatements registry includeFile scope (statements ++ after))
      (runStatements registry includeOther scope (written ++ others)) := by
  induction statements generalizing scope written with
  | nil =>
    obtain rfl := List.map_eq_nil_iff.mp alike.symm
    exact rest scope
  | cons statement statements ih =>
    obtain ⟨first, following, rfl, same, alike⟩ := List.map_eq_cons_iff.mp alike.symm
    have next : scope.next statement = scope.next first := by
      rw [← scope.next_withoutSpans, ← same, scope.next_withoutSpans]
    have kind : first.included? = statement.included? := by
      rw [← first.included?_withoutSpans, same, statement.included?_withoutSpans]
    rw [List.cons_append, List.cons_append]
    cases included : statement.included? with
    | none =>
      rw [runStatements_own included, runStatements_own (kind.trans included), ← next]
      refine parallel_bind (parallel_assignAll _ _ ?_) (ih alike.symm)
      have bodies : statement.body.withoutSpans = first.body.withoutSpans :=
        congrArg Statement.body same.symm
      rw [StatementBody.canonical_assignments, StatementBody.canonical_assignments, bodies]
    | some path =>
      intro log other logs
      rw [runStatements_inclusion included, runStatements_inclusion (kind.trans included)]
      exact parallel_bind (files path _ _) (ih alike.symm) log other logs

theorem parallel_runStatements {includeFile includeOther : String → Location → Attempt Log Unit}
    (files : ∀ path place other, Parallel (includeFile path place) (includeOther path other))
    {scope : FileScope} {statements written : List Statement}
    (alike : statements.map Statement.withoutSpans = written.map Statement.withoutSpans) :
    Parallel (runStatements registry includeFile scope statements)
      (runStatements registry includeOther scope written) := by
  have whole : Parallel (runStatements registry includeFile scope (statements ++ []))
      (runStatements registry includeOther scope (written ++ [])) :=
    parallel_runStatements_append files alike fun _ => parallel_pure
  rwa [List.append_nil, List.append_nil] at whole

theorem parallel_readInclusion {fuel : Nat} {chain : IncludeChain}
    (each : ∀ source site other, Parallel (readSource registry load fuel source chain site)
      (readSource registry load fuel source chain other))
    (path : String) (place other : Location) :
    Parallel (readInclusion registry load fuel chain path place)
      (readInclusion registry load fuel chain path other) := by
  unfold readInclusion
  split
  · exact parallel_fail ⟨rfl, rfl⟩
  · exact each _ _ _

/-- The induction is on the fuel: a file that is included has less of it. -/
theorem parallel_readSource (registry : Registry) (load : SourceLoader) (fuel : Nat)
    (source : LoadedSource) (chain : IncludeChain) (site other : Option Location) :
    Parallel (readSource registry load fuel source chain site)
      (readSource registry load fuel source chain other) := by
  induction fuel generalizing source chain site other with
  | zero =>
    unfold readSource
    split <;> exact parallel_fail ⟨rfl, rfl⟩
  | succ fuel ih =>
    rw [readSource_succ, readSource_succ]
    split
    · exact parallel_fail ⟨rfl, rfl⟩
    refine parallel_openSource _ _ _ _ fun number => ?_
    split
    · exact parallel_reject _ _
    · exact parallel_runStatements (parallel_readInclusion fun source site other =>
        ih source (chain.extend _) site other) rfl

theorem parallel_readFile (registry : Registry) (load : SourceLoader) (path : String)
    (chain : IncludeChain) :
    Parallel (readFile registry load path chain) (readFile registry load path chain) := by
  unfold readFile
  split
  · exact parallel_fail ⟨rfl, rfl⟩
  · exact parallel_readSource registry load _ _ chain none none

theorem parallel_readBinding (id other text : String) :
    Parallel (readBinding id text) (readBinding other text) := by
  refine parallel_openSource _ _ _ _ fun number => ?_
  split
  · exact parallel_reject _ _
  · exact parallel_assignAll _ _ rfl

/-! ## Attempts that are taken back -/

theorem macroIndexFrom_congr {events others : List Event}
    (same : events.map Event.content = others.map Event.content) (number : Nat)
    (index : List (String × Nat)) :
    macroIndexFrom number events index = macroIndexFrom number others index := by
  induction events generalizing others number index with
  | nil =>
    obtain rfl := List.map_eq_nil_iff.mp same.symm
    rfl
  | cons event events ih =>
    obtain ⟨first, rest, rfl, same, others⟩ := List.map_eq_cons_iff.mp same.symm
    cases event with
    | binding event =>
      cases first with
      | binding other => exact ih others.symm _ _
      | macroDef other => cases same
    | macroDef event =>
      cases first with
      | binding other => cases same
      | macroDef other =>
        injection same with names
        rw [macroIndexFrom, macroIndexFrom, names]
        exact ih others.symm _ _

theorem SaysSame.truncate {log other : Log} (same : log.SaysSame other) (size : Nat) :
    (log.truncate size).SaysSame (other.truncate size) := by
  unfold Log.truncate
  rw [same.size]
  split
  · exact same
  · have events : (log.events.take size).map Event.content =
        (other.events.take size).map Event.content := by
      rw [List.map_take, List.map_take, same.events]
    exact ⟨events, macroIndexFrom_congr events 0 [], same.sources⟩

theorem parallel_keepSize {act second : Attempt Log Unit} (parallel : Parallel act second) :
    Parallel (keepSize act) (keepSize second) := by
  intro log other same
  have ends := parallel log other same
  unfold keepSize
  rw [same.size]
  generalize act log = result, second other = otherResult at ends ⊢
  obtain ⟨result, after⟩ := result
  obtain ⟨otherResult, otherAfter⟩ := otherResult
  obtain ⟨ends, same⟩ := ends
  cases ends with
  | ok _ => exact ⟨.ok rfl, same⟩
  | error kinds => exact ⟨.error kinds, same.truncate _⟩

end Log

/-! ## Calls -/

namespace LoadCall

variable {registry : Registry} {load : SourceLoader}

/-- Loaders whose logs say the same take a call alike. -/
theorem sameEnd_run {loading other : Loading} (same : loading.log.SaysSame other.log)
    (call : LoadCall) :
    SameEnd Eq (call.run registry load loading).1 (call.run registry load other).1 ∧
      (call.run registry load loading).2.log.SaysSame (call.run registry load other).2.log := by
  have parallel : Log.Parallel (call.attempt registry load loading)
      (call.attempt registry load other) := by
    cases call with
    | loadFile path => exact Log.parallel_readFile registry load path .empty
    | loadText id text => exact Log.parallel_readSource registry load _ _ _ none none
    | process path chain => exact Log.parallel_readFile registry load path chain
    | applyBinding text => exact Log.parallel_readBinding _ _ text
  rw [run_fst, run_fst, run_log, run_log]
  exact Log.parallel_keepSize parallel _ _ same

theorem saysSame_after (calls : List LoadCall) {loading other : Loading}
    (same : loading.log.SaysSame other.log) :
    (after registry load calls loading).log.SaysSame (after registry load calls other).log := by
  induction calls generalizing loading other with
  | nil => exact same
  | cons call calls ih => exact ih (sameEnd_run same call).2

end LoadCall

/-! ## Tables -/

namespace Entries

variable {κ α β : Type} [DecidableEq κ]

theorem get?_map (f : α → β) (key : κ) (entries : List (κ × α)) :
    get? key (entries.map (Prod.map id f)) = (get? key entries).map f := by
  induction entries with
  | nil => rfl
  | cons entry entries ih =>
    rw [List.map_cons, get?, get?]
    change (if entry.1 = key then _ else _) = _
    split
    · rfl
    · exact ih

theorem insert_map (f : α → β) (key : κ) (a : α) (entries : List (κ × α)) :
    insert key (f a) (entries.map (Prod.map id f)) =
      (insert key a entries).map (Prod.map id f) := by
  induction entries with
  | nil => rfl
  | cons entry entries ih =>
    rw [List.map_cons, insert, insert]
    change (if entry.1 = key then _ else _) = _
    split
    · rfl
    · rw [ih]
      rfl

end Entries

namespace BindingTable

/-- What a table says, wherever it stands: the values of each parameter. -/
def content (table : BindingTable) : List (BindingKey × List Expr) :=
  table.entries.map (Prod.map id (List.map fun event => event.value.withoutSpans))

theorem content_insert (table : BindingTable) (event : BindingEvent) :
    (table.insert event).content =
      Entries.update event.key (fun values? => values?.getD [] ++ [event.value.withoutSpans])
        table.content := by
  unfold insert content Entries.update
  rw [Entries.get?_map, ← Entries.insert_map, List.map_append]
  congr 2
  cases Entries.get? event.key table.entries <;> rfl

end BindingTable

/-- What a binding says, wherever it stands. -/
def BindingEvent.content (event : BindingEvent) : BindingKey × Expr :=
  (event.key, event.value.withoutSpans)

/-- Bindings that say the same bind one parameter to one value, or fail to for one reason. -/
theorem BindingEvent.sameEnd_canonical (registry : Registry) {event other : BindingEvent}
    (same : event.content = other.content) :
    SameEnd (fun renamed mirror => renamed.content = mirror.content) (event.canonical registry)
      (other.canonical registry) := by
  obtain ⟨key, value, origin⟩ := event
  obtain ⟨otherKey, otherValue, otherOrigin⟩ := other
  obtain ⟨rfl, values⟩ := Prod.mk.inj same
  unfold BindingEvent.canonical
  dsimp only
  cases registry.lookup key.symbol with
  | error error => exact .error (error.sameKind_at origin otherOrigin)
  | ok registration =>
    dsimp only
    split
    · exact .ok (Prod.ext rfl values)
    · exact .error ⟨rfl, rfl⟩

namespace Log

theorem SaysSame.bindings {log other : Log} (same : log.SaysSame other) :
    log.bindings.map BindingEvent.content = other.bindings.map BindingEvent.content := by
  have ofContent (log : Log) : log.bindings.map BindingEvent.content =
      (log.events.map Event.content).filterMap fun
        | .binding key value => some (key, value)
        | .macroDef _ _ => none := by
    rw [Log.bindings, List.map_filterMap, List.filterMap_map]
    refine List.filterMap_congr fun event _ => ?_
    cases event <;> rfl
  rw [ofContent, ofContent, same.events]

/-- The induction is on the bindings: each is added to tables that say the same. -/
theorem foldlM_content (registry : Registry) {events others : List BindingEvent}
    (same : events.map BindingEvent.content = others.map BindingEvent.content)
    {table start : BindingTable} (tables : table.content = start.content) :
    SameEnd (fun table other => table.content = other.content)
      (events.foldlM (fun table event => (event.canonical registry).map table.insert) table)
      (others.foldlM (fun table event => (event.canonical registry).map table.insert) start) := by
  induction events generalizing others table start with
  | nil =>
    obtain rfl := List.map_eq_nil_iff.mp same.symm
    exact .ok tables
  | cons event events ih =>
    obtain ⟨first, rest, rfl, same, others⟩ := List.map_eq_cons_iff.mp same.symm
    rw [List.foldlM_cons, List.foldlM_cons]
    have ends := BindingEvent.sameEnd_canonical registry same.symm
    generalize event.canonical registry = renamed, first.canonical registry = mirror at ends ⊢
    cases ends with
    | error kinds => exact .error kinds
    | ok same =>
      refine ih others.symm ?_
      obtain ⟨keys, values⟩ := Prod.mk.inj same
      rw [BindingTable.content_insert, BindingTable.content_insert, tables, keys, values]

theorem SaysSame.replay {log other : Log} (same : log.SaysSame other) (registry : Registry) :
    SameEnd (fun table other => table.content = other.content) (log.replay registry)
      (other.replay registry) :=
  foldlM_content registry same.bindings rfl

end Log

/-! ## Nodes -/

theorem Log.SaysSame.bindingsOf {log other : Log} (same : log.SaysSame other) (registry : Registry)
    (key : BindingKey) :
    (log.bindingsOf registry key).map (fun event => event.value.withoutSpans) =
      (other.bindingsOf registry key).map fun event => event.value.withoutSpans := by
  have ofContent (log : Log) :
      (log.bindingsOf registry key).map (fun event => event.value.withoutSpans) =
        ((log.bindings.map BindingEvent.content).filter fun bound =>
          decide (BindingEvent.Binds registry key ⟨bound.1, bound.2, ⟨"", 0, 0⟩⟩)).map
            Prod.snd := by
    rw [List.filter_map, List.map_map]
    rfl
  rw [ofContent, ofContent, same.bindings]

theorem Log.SaysSame.definition? {log other : Log} (same : log.SaysSame other) (name : String) :
    (log.definition? name).map Expr.withoutSpans =
      (other.definition? name).map Expr.withoutSpans := by
  have ofContent (log : Log) : (log.macroHistory name).map (fun event => event.value.withoutSpans) =
      (log.events.map Event.content).filterMap fun
        | .macroDef defined value => if defined = name then some value else none
        | .binding _ _ => none := by
    rw [Log.macroHistory, List.map_filterMap, List.filterMap_map]
    refine List.filterMap_congr fun event _ => ?_
    cases event with
    | binding event => rfl
    | macroDef event =>
      simp only [Function.comp_apply, Event.content]
      split <;> rfl
  unfold Log.definition?
  rw [Option.map_map, Option.map_map, ← List.getLast?_map, ← List.getLast?_map]
  exact congrArg List.getLast? ((ofContent log).trans ((same.events ▸ ofContent other).symm))

/-- Configurations over one registry whose logs say the same agree about everything. -/
theorem Log.SaysSame.agree {config other : Config} (same : config.log.SaysSame other.log)
    (registry : other.registry = config.registry) : Config.Agree (fun _ => True) config other where
  registry := registry
  governing := by
    intro key param _
    unfold Config.governing? Log.governing?
    rw [registry, List.map_findSome?, List.map_findSome?]
    congr 1
    funext scope
    simp only [Function.comp_apply, ← List.getLast?_map, List.map_map]
    exact congrArg List.getLast? (same.bindingsOf config.registry _).symm
  definition := fun name _ => (same.definition? name).symm
  closed := fun _ _ _ _ => trivial

/-- Loaders whose logs say the same, and that end with the same values and the same nodes, if with
any: they have a table both or none, and a call for a node succeeds in both or in none, whatever
calls were made before. -/
structure Loading.Alike (registry : Registry) (loading other : Loading) : Prop where
  events : loading.log.events.map Event.content = other.log.events.map Event.content
  finishes : SameEnd (fun config other => config.table.content = other.table.content)
    (Config.ofLoading registry loading) (Config.ofLoading registry other)
  resolves : ∀ config further, Config.ofLoading registry loading = .ok config →
    Config.ofLoading registry other = .ok further →
    ∀ calls otherCalls scope symbol node,
      ((Resolver.after config calls).resolve config scope symbol).result = .ok node ↔
        ((Resolver.after further otherCalls).resolve further scope symbol).result = .ok node

theorem Log.SaysSame.alike {registry : Registry} {loading other : Loading}
    (same : loading.log.SaysSame other.log) (reachable : Loading.Reachable registry loading)
    (otherReachable : Loading.Reachable registry other) : loading.Alike registry other where
  events := same.events
  finishes := by
    have ends := same.replay registry
    unfold Config.ofLoading
    generalize loading.log.replay registry = table, other.log.replay registry = otherTable
      at ends ⊢
    cases ends with
    | ok tables => exact .ok tables
    | error kinds => exact .error kinds
  resolves := by
    intro config further finished otherFinished calls otherCalls scope symbol node
    obtain ⟨rfl, log, _⟩ := Config.ofLoading_ok finished
    obtain ⟨sameRegistry, otherLog, _⟩ := Config.ofLoading_ok otherFinished
    have replayed : config.Replayed := Config.Loaded.replayed ⟨loading, reachable, finished⟩
    have otherReplayed : further.Replayed :=
      Config.Loaded.replayed ⟨other, sameRegistry ▸ otherReachable, sameRegistry ▸ otherFinished⟩
    have logs : config.log.SaysSame further.log := log ▸ otherLog ▸ same
    exact ⟨(logs.agree sameRegistry).result replayed otherReplayed trivial,
      (logs.symm.agree sameRegistry.symm).result otherReplayed replayed trivial⟩

/-- Whatever is loaded afterwards, loaders whose logs say the same end alike. -/
theorem Log.SaysSame.alike_after {registry : Registry} {loading other : Loading}
    (same : loading.log.SaysSame other.log) (reachable : Loading.Reachable registry loading)
    (otherReachable : Loading.Reachable registry other) (load : SourceLoader)
    (calls : List LoadCall) :
    (LoadCall.after registry load calls loading).Alike registry
      (LoadCall.after registry load calls other) :=
  (LoadCall.saysSame_after calls same).alike (LoadCall.reachable_after calls reachable)
    (LoadCall.reachable_after calls otherReachable)

end ConfigBinding
