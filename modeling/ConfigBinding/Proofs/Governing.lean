import ConfigBinding.Proofs.LoadedLog

/-!
# What a log says about a parameter

The log alone decides what a parameter and a macro stand for. Of the bindings whose symbol stands
for the configurable, however it is spelled, those in the innermost scope count, and of these the
last. Of a macro the last definition counts, wherever it is used.

Results:
1. `Config.Replayed.getScoped?_value`: the table of a configuration gives what the log says.
2. `Config.Replayed.macro?_value`: the index of macros gives what the log says.
-/

namespace ConfigBinding

/-- The registered name that a symbol stands for. -/
def Registry.canonical? (registry : Registry) (symbol : DottedName) : Option DottedName :=
  match registry.lookup symbol with
  | .ok registration => some registration.name
  | .error _ => none

theorem Registry.canonical?_of_get? {registry : Registry} {symbol : DottedName}
    {owner : Registration} (owned : registry.get? symbol = some owner) :
    registry.canonical? symbol = some symbol := by
  rw [canonical?, lookup_exact owned]
  exact congrArg some (get?_eq_some owned).1

/-- The binding is one of the parameter that `key` names, in exactly this scope. The symbol of `key`
is a registered name. -/
def BindingEvent.Binds (registry : Registry) (key : BindingKey) (event : BindingEvent) : Prop :=
  event.key.scope = key.scope ∧ event.key.param = key.param ∧
    registry.canonical? event.key.symbol = some key.symbol

instance (registry : Registry) (key : BindingKey) (event : BindingEvent) :
    Decidable (event.Binds registry key) := by
  unfold BindingEvent.Binds
  infer_instance

namespace Log

/-- The bindings of a parameter in exactly one scope, in order. -/
def bindingsOf (log : Log) (registry : Registry) (key : BindingKey) : List BindingEvent :=
  log.bindings.filter fun event => decide (event.Binds registry key)

/-- The value that a parameter is bound to: that of the last binding in the innermost scope around
the parameter that has one. -/
def governing? (log : Log) (registry : Registry) (key : BindingKey) : Option Expr :=
  key.scope.ancestors.findSome? fun scope =>
    (log.bindingsOf registry { key with scope := scope }).getLast?.map BindingEvent.value

/-- The value of the last definition of a macro. -/
def definition? (log : Log) (name : String) : Option Expr :=
  (log.macroHistory name).getLast?.map MacroEvent.value

end Log

/-! ## The table -/

theorem BindingEvent.canonical_ok {registry : Registry} {event canonical : BindingEvent}
    (renamed : event.canonical registry = .ok canonical) (key : BindingKey) :
    canonical.value = event.value ∧ (canonical.key = key ↔ event.Binds registry key) := by
  unfold BindingEvent.canonical at renamed
  unfold BindingEvent.Binds Registry.canonical?
  cases found : registry.lookup event.key.symbol with
  | error error =>
    rw [found] at renamed
    cases renamed
  | ok registration =>
    rw [found] at renamed
    dsimp only at renamed
    split at renamed
    · injection renamed with same
      subst same
      refine ⟨rfl, ?_⟩
      obtain ⟨scope, symbol, param⟩ := key
      simp only [BindingKey.mk.injEq, Option.some.injEq]
      tauto
    · cases renamed

theorem replay_fold {registry : Registry} {events : List BindingEvent} {start table : BindingTable}
    (replayed : events.foldlM
      (fun table event => (event.canonical registry).map table.insert) start = .ok table)
    (key : BindingKey) :
    (table.history key).map BindingEvent.value = (start.history key).map BindingEvent.value ++
      (events.filter fun event => decide (event.Binds registry key)).map BindingEvent.value := by
  induction events generalizing start with
  | nil =>
    cases replayed
    simp
  | cons event events ih =>
    rw [List.foldlM_cons] at replayed
    cases renamed : event.canonical registry with
    | error error =>
      rw [renamed] at replayed
      cases replayed
    | ok canonical =>
      rw [renamed] at replayed
      obtain ⟨sameValue, sameKey⟩ := event.canonical_ok renamed key
      have rest := ih replayed
      rw [BindingTable.history_insert] at rest
      by_cases binds : event.Binds registry key
      · rw [if_pos (sameKey.mpr binds)] at rest
        rw [rest]
        simp [binds, sameValue]
      · rw [if_neg (mt sameKey.mp binds)] at rest
        rw [rest]
        simp [binds]

theorem Log.replay_history {log : Log} {registry : Registry} {table : BindingTable}
    (replayed : log.replay registry = .ok table) (key : BindingKey) :
    (table.history key).map BindingEvent.value =
      (log.bindingsOf registry key).map BindingEvent.value :=
  replay_fold replayed key

theorem Log.replay_getScoped? {log : Log} {registry : Registry} {table : BindingTable}
    (replayed : log.replay registry = .ok table) (key : BindingKey) :
    (table.getScoped? key).map BindingEvent.value = log.governing? registry key := by
  unfold BindingTable.getScoped? Log.governing?
  rw [List.map_findSome?]
  congr 1
  funext scope
  rw [Function.comp_apply, BindingTable.get?, ← List.getLast?_map, ← List.getLast?_map,
    replay_history replayed]

/-! ## What is found stands in the log -/

theorem Log.mem_values_of_binding {log : Log} {event : BindingEvent}
    (member : event ∈ log.bindings) : event.value ∈ log.values := by
  obtain ⟨entry, inLog, isBinding⟩ := List.mem_filterMap.mp member
  refine List.mem_map.mpr ⟨entry, inLog, ?_⟩
  cases entry with
  | binding bound =>
    cases isBinding
    rfl
  | macroDef defined => cases isBinding

theorem Log.mem_values_of_governing? {log : Log} {registry : Registry} {key : BindingKey} {e : Expr}
    (found : log.governing? registry key = some e) : e ∈ log.values := by
  obtain ⟨scope, _, found⟩ := List.exists_of_findSome?_eq_some found
  obtain ⟨event, last, rfl⟩ := Option.map_eq_some_iff.mp found
  exact mem_values_of_binding (List.mem_filter.mp (List.mem_of_getLast? last)).1

theorem Log.mem_values_of_definition? {log : Log} {name : String} {e : Expr}
    (found : log.definition? name = some e) : e ∈ log.values := by
  obtain ⟨event, last, rfl⟩ := Option.map_eq_some_iff.mp found
  have member : event ∈ log.macroHistory name := List.mem_of_getLast? last
  obtain ⟨entry, inLog, isDefinition⟩ := List.mem_filterMap.mp member
  refine List.mem_map.mpr ⟨entry, inLog, ?_⟩
  cases entry with
  | binding bound => cases isDefinition
  | macroDef defined =>
    dsimp only at isDefinition
    split at isDefinition
    · cases isDefinition
      rfl
    · cases isDefinition

/-! ## Configurations -/

namespace Config

/-- The value that a parameter of a node is bound to. -/
def governing? (config : Config) (key : NodeKey) (param : String) : Option Expr :=
  config.log.governing? config.registry ⟨key.scope, key.symbol, param⟩

/-- The value of the last definition of a macro. -/
def definition? (config : Config) (name : String) : Option Expr := config.log.definition? name

theorem Replayed.getScoped?_value {config : Config} (replayed : config.Replayed) (key : NodeKey)
    (param : String) :
    (config.table.getScoped? ⟨key.scope, key.symbol, param⟩).map BindingEvent.value =
      config.governing? key param :=
  Log.replay_getScoped? replayed.replay _

theorem Replayed.macro?_value {config : Config} (replayed : config.Replayed) (name : String) :
    (config.log.macro? name).map MacroEvent.value = config.definition? name := by
  rw [replayed.macro?_eq]
  rfl

end Config

end ConfigBinding
