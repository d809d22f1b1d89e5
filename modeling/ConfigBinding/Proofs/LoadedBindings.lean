import ConfigBinding.Proofs.Denotation
import ConfigBinding.Proofs.LoadCalls
import ConfigBinding.Proofs.Reading.Bindings
import ConfigBinding.Proofs.SourceNumbers

/-!
# A file of bindings

A file that only binds single parameters of registered configurables, each under the registered
name, and names no macros, can be loaded as the only file. What it says about a parameter is what
its binding says, if it binds no parameter in two ways.

Results:
1. `Log.runStatements_bindings`: bindings are appended to the log in order.
2. `Loading.exists_config_of_bindings`: the file is loaded, and each binding governs its parameter.
-/

namespace ConfigBinding

/-- The entry binds the parameter to the expression, up to spans. -/
def BindingEvent.Gives (event : BindingEvent) (binding : BindingKey × Expr) : Prop :=
  event.key = binding.1 ∧ event.value.withoutSpans = binding.2.withoutSpans

/-! ## Loading -/

namespace Log

variable {registry : Registry}

theorem assignAll_single {log : Log} {assignment : Assignment} (span : Span)
    (possible : log.undefinedMacro? assignment.value = none) :
    assignAll span [assignment] log = (.ok (), log.assigned span assignment) := by
  have assigned : Attempt.tryModify (fun log => log.assign span assignment) log =
      (.ok (), log.assigned span assignment) :=
    Attempt.tryModify_eq_ok.mpr (assign_eq_ok.mpr ⟨possible, rfl⟩)
  exact Attempt.bind_ok assigned

/-- An expression that names no macro can be assigned at any time. -/
theorem undefinedMacro?_of_nil {e value : Expr} (alike : value.withoutSpans = e.withoutSpans)
    (plain : e.macroRefs = []) (log : Log) : log.undefinedMacro? value = none := by
  rw [undefinedMacro?_eq_none, ← value.macroRefs_withoutSpans, alike, e.macroRefs_withoutSpans,
    plain]
  exact fun name member => nomatch member

theorem bindings_assigned (log : Log) (span : Span) (key : BindingKey) (value : Expr) :
    (log.assigned span (.binding key value)).bindings =
      log.bindings ++ [⟨key, value, log.location span⟩] := by
  simp [bindings, assigned, Assignment.event]

theorem runStatements_bindings {includeFile : String → Location → Attempt Log Unit}
    {statements : List Statement} {bindings : List (BindingKey × Expr)}
    (each : List.Forall₂ Statement.Gives statements bindings)
    (plain : ∀ binding ∈ bindings, binding.2.macroRefs = []) (log : Log) :
    ∃ after events, runStatements registry includeFile .start statements log = (.ok (), after) ∧
      after.bindings = log.bindings ++ events ∧
      List.Forall₂ BindingEvent.Gives events bindings := by
  induction each generalizing log with
  | nil => exact ⟨log, [], rfl, (List.append_nil _).symm, .nil⟩
  | @cons statement binding statements bindings gives _ ih =>
    obtain ⟨first, others⟩ := List.forall_mem_cons.mp plain
    obtain ⟨body, span⟩ := statement
    obtain ⟨value, sameBody, alike⟩ := gives
    obtain rfl : body = _ := sameBody
    obtain ⟨after, events, run, grown, rest⟩ :=
      ih others (log.assigned span (.binding binding.1 value))
    have assigned : assignAll span [.binding binding.1 value] log =
        (.ok (), log.assigned span (.binding binding.1 value)) :=
      assignAll_single span (undefinedMacro?_of_nil alike first log)
    refine ⟨after, ⟨binding.1, value, log.location span⟩ :: events, ?_, ?_, ?_⟩
    · exact (Attempt.bind_ok assigned).trans run
    · rw [grown, bindings_assigned, List.append_assoc, List.singleton_append]
    · exact .cons ⟨rfl, alike⟩ rest

/-- A source that is not being read already is loaded if it only has bindings without macros. -/
theorem readSource_bindings (load : SourceLoader) (fuel : Nat) (source : LoadedSource)
    {chain : IncludeChain} (site : Option Location) {bindings : List (BindingKey × Expr)}
    (outside : chain.contains source.id = false)
    (parsed : ∀ number, ∃ statements, Statement.parseSource number source.text = .ok statements ∧
      List.Forall₂ Statement.Gives statements bindings)
    (plain : ∀ binding ∈ bindings, binding.2.macroRefs = []) {log : Log}
    (room : log.sources.size < SourceMap.capacity) :
    ∃ after events, readSource registry load (fuel + 1) source chain site log = (.ok (), after) ∧
      after.bindings = log.bindings ++ events ∧
      List.Forall₂ BindingEvent.Gives events bindings := by
  obtain ⟨statements, read, each⟩ := parsed log.sources.size
  have opened : openSource source.id source.text log =
      (.ok log.sources.size, (log.addSource source.id source.text).1) := by
    rw [openSource, if_pos room]
    rfl
  unfold readSource
  dsimp only
  rw [outside, if_neg Bool.false_ne_true, Attempt.bind_ok opened, read]
  exact runStatements_bindings each plain (log.addSource source.id source.text).1

end Log

namespace Loading

variable {registry : Registry} {load : SourceLoader} {path id text : String}

/-- Such a source is loaded as the only file. -/
theorem loadFile_bindings {bindings : List (BindingKey × Expr)}
    (found : load path none = .ok ⟨id, text⟩)
    (parsed : ∀ number, ∃ statements, Statement.parseSource number text = .ok statements ∧
      List.Forall₂ Statement.Gives statements bindings)
    (plain : ∀ binding ∈ bindings, binding.2.macroRefs = []) :
    ∃ loading, start.loadFile registry load path = (.ok (), loading) ∧
      List.Forall₂ BindingEvent.Gives loading.log.bindings bindings := by
  have outside : IncludeChain.empty.contains id = false := rfl
  have room : Log.empty.sources.size < SourceMap.capacity := by decide
  obtain ⟨after, events, run, grown, each⟩ :=
    Log.readSource_bindings load 65534 ⟨id, text⟩ none outside parsed plain room
  have read : Log.readFile registry load path .empty .empty = (.ok (), after) := by
    unfold Log.readFile
    rw [show IncludeChain.empty.current? = none from rfl, found]
    exact run
  refine ⟨⟨after, 0⟩, ?_, ?_⟩
  · show start.attempt (Log.readFile registry load path .empty) = _
    unfold attempt Log.keepSize
    rw [show start.log = .empty from rfl, read]
    rfl
  · rw [show after.bindings = events from grown]
    exact each

end Loading

/-! ## The configuration -/

theorem BindingEvent.canonical_of_declared {registry : Registry} {event : BindingEvent}
    {owner : Registration} (owned : registry.get? event.key.symbol = some owner)
    (declared : owner.hasParam event.key.param = true) :
    ∃ canonical, event.canonical registry = .ok canonical := by
  unfold BindingEvent.canonical
  rw [Registry.lookup_exact owned]
  exact ⟨_, if_pos declared⟩

/-- An event whose symbol is a registered name binds what its key says. -/
theorem BindingEvent.binds_iff_of_registered {registry : Registry} {event : BindingEvent}
    {owner : Registration} (owned : registry.get? event.key.symbol = some owner)
    {key : BindingKey} : event.Binds registry key ↔ event.key = key := by
  have named := Registry.canonical?_of_get? owned
  obtain ⟨⟨scope, symbol, param⟩, value, origin⟩ := event
  obtain ⟨otherScope, otherSymbol, otherParam⟩ := key
  unfold Binds
  rw [named]
  simp only [Option.some.injEq, BindingKey.mk.injEq]
  tauto

theorem Log.replay_of_canonical {log : Log} {registry : Registry}
    (each : ∀ event ∈ log.bindings, ∃ canonical, event.canonical registry = .ok canonical) :
    ∃ table, log.replay registry = .ok table := by
  unfold replay
  generalize log.bindings = events at each ⊢
  generalize BindingTable.empty = table
  induction events generalizing table with
  | nil => exact ⟨table, rfl⟩
  | cons event events ih =>
    obtain ⟨first, others⟩ := List.forall_mem_cons.mp each
    obtain ⟨canonical, renamed⟩ := first
    obtain ⟨last, rest⟩ := ih others (table.insert canonical)
    refine ⟨last, ?_⟩
    rw [List.foldlM_cons, renamed]
    exact rest

theorem Scope.ancestors_eq_cons (scope : Scope) : ∃ others, scope.ancestors = scope :: others := by
  have own (segments : List String) : ∃ others, prefixesDown segments = segments :: others := by
    induction segments with
    | nil => exact ⟨[], rfl⟩
    | cons segment segments ih =>
      obtain ⟨others, same⟩ := ih
      rw [prefixesDown, same]
      exact ⟨_, rfl⟩
  obtain ⟨others, same⟩ := own scope.segments
  rw [ancestors, same]
  exact ⟨_, rfl⟩

/-- What is bound in a scope under a registered name is governed by its last binding there. -/
theorem Log.governing?_of_binds {log : Log} {registry : Registry} {key : BindingKey}
    {event : BindingEvent} (member : event ∈ log.bindings) (binds : event.Binds registry key) :
    ∃ last ∈ log.bindings, last.Binds registry key ∧
      log.governing? registry key = some last.value := by
  have inside : event ∈ log.bindingsOf registry key :=
    List.mem_filter.mpr ⟨member, decide_eq_true binds⟩
  obtain ⟨last, isLast⟩ : ∃ last, (log.bindingsOf registry key).getLast? = some last :=
    Option.isSome_iff_exists.mp (List.getLast?_isSome.mpr (List.ne_nil_of_mem inside))
  obtain ⟨inLog, lastBinds⟩ := List.mem_filter.mp (List.mem_of_getLast? isLast)
  -- The scope is the first of those that are searched.
  obtain ⟨others, ancestors⟩ := key.scope.ancestors_eq_cons
  refine ⟨last, inLog, of_decide_eq_true lastBinds, ?_⟩
  unfold governing?
  rw [ancestors, List.findSome?_cons, isLast]
  rfl

/-- A file of bindings without macros is loaded as the only file, if each binding is one of a
declared parameter under the registered name. If no parameter is bound in two ways, each is governed
by its binding. -/
theorem Loading.exists_config_of_bindings {registry : Registry} {load : SourceLoader}
    {path id text : String} {bindings : List (BindingKey × Expr)}
    (found : load path none = .ok ⟨id, text⟩)
    (parsed : ∀ number, ∃ statements, Statement.parseSource number text = .ok statements ∧
      List.Forall₂ Statement.Gives statements bindings)
    (plain : ∀ binding ∈ bindings, binding.2.macroRefs = [])
    (declared : ∀ binding ∈ bindings, ∃ owner, registry.get? binding.1.symbol = some owner ∧
      owner.hasParam binding.1.param = true)
    (oneWay : ∀ first ∈ bindings, ∀ second ∈ bindings, first.1 = second.1 → first = second) :
    ∃ loading config, start.loadFile registry load path = (.ok (), loading) ∧
      Config.ofLoading registry loading = .ok config ∧ config.registry = registry ∧
      config.Loaded ∧ ∀ binding ∈ bindings, ∃ e,
        config.log.governing? registry binding.1 = some e ∧
          e.withoutSpans = binding.2.withoutSpans := by
  obtain ⟨loading, loaded, each⟩ := loadFile_bindings found parsed plain
  have canonical : ∀ event ∈ loading.log.bindings, ∃ canonical,
      event.canonical registry = .ok canonical := by
    intro event member
    obtain ⟨binding, inside, sameKey, _⟩ := exists_right_of_forall₂ each member
    obtain ⟨owner, owned, declared⟩ := declared binding inside
    rw [← sameKey] at owned declared
    exact BindingEvent.canonical_of_declared owned declared
  obtain ⟨table, replayed⟩ := Log.replay_of_canonical canonical
  have finished : Config.ofLoading registry loading = .ok ⟨registry, loading.log, table⟩ := by
    rw [Config.ofLoading, replayed]
    rfl
  refine ⟨loading, ⟨registry, loading.log, table⟩, loaded, finished, rfl, ?_, ?_⟩
  · have atStart : Reachable registry .start := .start
    have reachable := Reachable.process load path .empty atStart
    rw [show start.process registry load path .empty = (.ok (), loading) from loaded] at reachable
    exact ⟨loading, reachable, finished⟩
  · have binds {event : BindingEvent} {binding : BindingKey × Expr} (inside : binding ∈ bindings)
        (gives : event.Gives binding) (key : BindingKey) :
        event.Binds registry key ↔ binding.1 = key := by
      obtain ⟨owner, owned, _⟩ := declared binding inside
      rw [← gives.1] at owned ⊢
      exact BindingEvent.binds_iff_of_registered owned
    intro binding member
    obtain ⟨event, inLog, gives⟩ := exists_left_of_forall₂ each member
    -- The last binding of the parameter governs it: not always the given one, but it says the same.
    obtain ⟨last, lastInLog, lastBinds, governs⟩ :=
      Log.governing?_of_binds inLog ((binds member gives binding.1).mpr rfl)
    obtain ⟨other, inside, lastGives⟩ := exists_right_of_forall₂ each lastInLog
    have same := oneWay other inside binding member ((binds inside lastGives _).mp lastBinds)
    exact ⟨last.value, governs, same ▸ lastGives.2⟩

end ConfigBinding
