import ConfigBinding.Proofs.LoadCalls
import ConfigBinding.Proofs.Runs

/-!
# Macros are defined before they are used

A value is only assigned if each macro that it names has a definition by then. Definitions come and
go later: they are shadowed, and those of a call that fails are taken back. But entries are only
taken back from the end, so what an entry rests on stays as long as the entry does. A resolver looks
macros up in the last definitions, which are entries of the same log.

Results:
1. `Log.kept_closed`: each step of loading keeps the log closed.
2. `Config.Loaded.defined_of_reaches`: every macro that a node leads to has a definition.
3. `Resolver.macros_defined`: no resolution meets a macro without a definition.
-/

namespace ConfigBinding

/-! ## Closed logs -/

namespace Log

/-- Each macro that an entry names is defined by an earlier entry. -/
def Closed (log : Log) : Prop :=
  ∀ (i : Nat) (event : Event), log.events[i]? = some event →
    ∀ mention ∈ event.value.macroRefs, ∃ j < i, ∃ definition : MacroEvent,
      log.events[j]? = some (.macroDef definition) ∧ definition.name = mention.1.toText

/-- What the index knows is defined by an entry. -/
theorem exists_definition {log : Log} (indexed : log.Indexed) {name : String}
    (known : Entries.contains name log.macroIndex = true) :
    ∃ j < log.events.length, ∃ definition : MacroEvent,
      log.events[j]? = some (.macroDef definition) ∧ definition.name = name := by
  have finds := indexFinds_definitions name log.events
  unfold Entries.contains at known
  rw [indexed] at known
  cases last : (definitions name log.events).getLast? with
  | none =>
    rw [last] at finds
    have absent : Entries.get? name (macroIndexFrom 0 log.events []) = none := finds
    rw [absent] at known
    cases known
  | some definition =>
    rw [last] at finds
    obtain ⟨j, _, entry⟩ := finds
    refine ⟨j, (List.getElem?_eq_some_iff.mp entry).1, definition, entry, ?_⟩
    -- it was found among the definitions of the name
    obtain ⟨event, _, selected⟩ := List.mem_filterMap.mp (List.mem_of_getLast? last)
    cases event with
    | binding bound => cases selected
    | macroDef defined =>
      dsimp only at selected
      split at selected
      · rename_i named
        cases selected
        exact named
      · cases selected

theorem Closed.assigned {log : Log} (closed : log.Closed) (indexed : log.Indexed) {span : Span}
    {assignment : Assignment} (defined : log.undefinedMacro? assignment.value = none) :
    (log.assigned span assignment).Closed := by
  intro i event at_i mention member
  change (log.events ++ [assignment.event (log.location span)])[i]? = some event at at_i
  -- what stands in the log stays where it is
  have stays {j : Nat} (inside : j < log.events.length) :
      (log.assigned span assignment).events[j]? = log.events[j]? :=
    List.getElem?_append_left inside
  rcases Nat.lt_or_ge i log.events.length with early | late
  · rw [List.getElem?_append_left early] at at_i
    obtain ⟨j, before, definition, at_j, named⟩ := closed i event at_i mention member
    exact ⟨j, before, definition, (stays (Nat.lt_trans before early)).trans at_j, named⟩
  · rw [List.getElem?_append_right late] at at_i
    have new := List.mem_singleton.mp (List.mem_of_getElem? at_i)
    rw [new, Assignment.value_event] at member
    have known := undefinedMacro?_eq_none.mp defined _ (List.mem_map_of_mem member)
    obtain ⟨j, inside, definition, at_j, named⟩ := exists_definition indexed known
    exact ⟨j, Nat.lt_of_lt_of_le inside late, definition, (stays inside).trans at_j, named⟩

/-- The first entries of a closed log rest on each other. -/
theorem Closed.truncate {log : Log} (closed : log.Closed) (size : Nat) :
    (log.truncate size).Closed := by
  unfold Log.truncate
  split
  · exact closed
  · intro i event at_i mention member
    change (log.events.take size)[i]? = some event at at_i
    have inside : i < size := by
      have short := (List.getElem?_eq_some_iff.mp at_i).1
      rw [List.length_take] at short
      omega
    rw [List.getElem?_take_of_lt inside] at at_i
    obtain ⟨j, before, definition, at_j, named⟩ := closed i event at_i mention member
    refine ⟨j, before, definition, ?_, named⟩
    change (log.events.take size)[j]? = _
    rw [List.getElem?_take_of_lt (Nat.lt_trans before inside), at_j]

/-- The check looks into the index of macros, so that is kept along with the entries. -/
theorem kept_closed : Kept fun log => log.Indexed ∧ log.Closed where
  assign := by
    rintro log next span assignment ⟨indexed, closed⟩ assigned
    obtain ⟨defined, same⟩ := assign_eq_ok.mp assigned
    exact ⟨kept_indexed.assign indexed assigned, same ▸ closed.assigned indexed defined⟩
  addSource := fun _ _ kept => kept
  truncate := fun size ⟨indexed, closed⟩ =>
    ⟨kept_indexed.truncate size indexed, closed.truncate size⟩

end Log

theorem Loading.Reachable.closed {registry : Registry} {loading : Loading}
    (reachable : Loading.Reachable registry loading) : loading.log.Closed :=
  (reachable.log_kept Log.kept_closed ⟨rfl, fun _ _ at_i => by cases at_i⟩).2

/-! ## Macros that a configuration leads to -/

namespace Config

variable {config : Config}

/-- Every macro that a value in the log names has a last definition. -/
theorem Loaded.defined_of_mem_values (loaded : config.Loaded) {e : Expr}
    (inLog : e ∈ config.log.values) {mention : DottedName × Span} (member : mention ∈ e.macroRefs) :
    ∃ definition, config.definition? mention.1.toText = some definition := by
  obtain ⟨loading, reachable, finished⟩ := loaded
  have closed : config.log.Closed := by
    rw [(ofLoading_ok finished).2.1]
    exact reachable.closed
  obtain ⟨event, inEvents, rfl⟩ := List.mem_map.mp inLog
  obtain ⟨i, at_i⟩ := List.mem_iff_getElem?.mp inEvents
  obtain ⟨j, _, definition, at_j, named⟩ := closed i event at_i mention member
  have inHistory : definition ∈ config.log.macroHistory mention.1.toText :=
    List.mem_filterMap.mpr ⟨_, List.mem_of_getElem? at_j, if_pos named⟩
  unfold definition? Log.definition?
  cases last : (config.log.macroHistory mention.1.toText).getLast? with
  | some event => exact ⟨event.value, rfl⟩
  | none =>
    rw [List.getLast?_eq_none_iff.mp last] at inHistory
    cases inHistory

theorem Loaded.defined_of_mentions (loaded : config.Loaded) {e : Expr}
    (inLog : e ∈ config.log.values) {name : String}
    (mentions : config.Mentions e (.macroDef name)) :
    ∃ definition, config.definition? name = some definition := by
  obtain ⟨mention, member, rfl⟩ := mentions
  exact loaded.defined_of_mem_values inLog member

/-- Every macro that a node leads to, through its parameters, other macros and other nodes, has a
definition. -/
theorem Loaded.defined_of_reaches (loaded : config.Loaded) {key : NodeKey} {name : String}
    (reaches : Relation.ReflTransGen config.Depends (.node key) (.macroDef name)) :
    ∃ definition, config.definition? name = some definition := by
  cases reaches with
  | tail _ depends =>
    cases depends with
    | param _ _ governed mentions =>
      exact loaded.defined_of_mentions (Log.mem_values_of_governing? governed) mentions
    | definition defined mentions =>
      exact loaded.defined_of_mentions (Log.mem_values_of_definition? defined) mentions

end Config

/-! ## Resolution -/

/-- The report that a macro has no definition. -/
def ConfigError.IsUndefinedMacro (error : ConfigError) : Prop :=
  ∃ name place, error = .undefinedMacro name place

variable {config : Config}

theorem not_undefinedMacro_of_targetKey {target : Reference} {span : Span} {error : ConfigError}
    (failed : Resolver.targetKey config target span = .error error) :
    ¬ error.IsUndefinedMacro := by
  unfold Resolver.targetKey at failed
  rintro ⟨name, place, rfl⟩
  split at failed
  · cases failed
  · rename_i unknown
    rcases error_of_lookup unknown with rfl | ⟨candidates, rfl⟩ <;> cases failed

namespace Uncached

/-- A node lacks a macro only if the value of one of its parameters does. -/
theorem undefinedMacro_of_node (loaded : config.Loaded)
    {evaluate : List NodeKey → ConfigError → Expr → Except ConfigError Value}
    {pending : List NodeKey} {key : NodeKey} {error : ConfigError}
    (registered : config.Registered key) (run : node config evaluate pending key = .error error)
    (undefined : error.IsUndefinedMacro) :
    ∃ param e, config.governing? key param = some e ∧
      evaluate (pending ++ [key]) (Resolver.missing key param) e = .error error := by
  obtain ⟨name, place, rfl⟩ := undefined
  obtain ⟨owner, owned⟩ := registered
  by_cases constructing : key ∈ pending
  · unfold node at run
    rw [if_pos constructing] at run
    cases run
  · rw [node_enter owned constructing] at run
    rcases error_of_bind run with failed | ⟨values, _, finished⟩
    · rcases error_of_parameterValues loaded failed with
        ⟨param, _, e, governed, inner⟩ | ⟨_, _, missing | ⟨_, kind⟩⟩
      · exact ⟨param.name, e, governed, inner⟩
      · cases missing
      · cases kind
    · unfold Resolver.build at finished
      split at finished <;> cases finished

/-- Where all values of the log name defined macros only, no evaluation of one of them lacks a
macro. The induction is on the bound: the values of macros and parameters stand in the log, too. -/
theorem evaluate_defined (loaded : config.Loaded) {exhausted : ConfigError}
    (exhaustion : ¬ exhausted.IsUndefinedMacro) {bound : Nat} {pending : List NodeKey}
    {macros : List String} {absent error : ConfigError} (absence : ¬ absent.IsUndefinedMacro)
    {e : Expr} (inLog : e ∈ config.log.values)
    (run : evaluate config exhausted bound pending macros absent e = .error error) :
    ¬ error.IsUndefinedMacro := by
  induction bound generalizing pending macros absent e with
  | zero =>
    cases run
    exact exhaustion
  | succ bound ih =>
    rcases error_of_visits run with ⟨name, span, covers, failed⟩ | ⟨target, span, covers, failed⟩
    · unfold expandMacro at failed
      dsimp only at failed
      split at failed
      · cases failed
        exact absence
      · rename_i ordinary
        split at failed
        · cases failed
          rintro ⟨_, _, ⟨⟩⟩
        · have mentioned : config.Mentions e (.macroDef name.toText) :=
            (Config.mentions_self_macroRef span ordinary).of_covers covers
          obtain ⟨definition, defined⟩ := loaded.defined_of_mentions inLog mentioned
          have found := loaded.replayed.macro?_value name.toText
          split at failed
          · rename_i event last
            rw [last] at found
            exact ih absence (Log.mem_values_of_definition? found.symm) failed
          · rename_i none
            rw [none, defined] at found
            cases found
    · rcases error_of_bind failed with failed | ⟨key, named, failed⟩
      · exact not_undefinedMacro_of_targetKey failed
      · rw [Config.targetKey_ok_iff] at named
        rcases error_of_bind failed with failed | ⟨made, _, finished⟩
        · intro undefined
          obtain ⟨param, value, governed, inner⟩ := undefinedMacro_of_node loaded
            (Config.registered_of_target? named) failed undefined
          have absence : ¬ (Resolver.missing key param).IsUndefinedMacro := by
            rintro ⟨_, _, ⟨⟩⟩
          exact ih absence (Log.mem_values_of_governing? governed) inner undefined
        · cases finished

theorem resolve_defined (loaded : config.Loaded) {bound : Nat} {scope : Scope}
    {symbol : DottedName} {error : ConfigError}
    (run : resolve config (.cyclicReference []) bound scope symbol = .error error) :
    ¬ error.IsUndefinedMacro := by
  rcases error_of_bind run with failed | ⟨registration, found, run⟩
  · rcases error_of_lookup failed with rfl | ⟨candidates, rfl⟩ <;> rintro ⟨_, _, ⟨⟩⟩
  · intro undefined
    obtain ⟨param, e, governed, inner⟩ := undefinedMacro_of_node loaded
      (Config.registered_of_lookup scope found) run undefined
    refine evaluate_defined loaded ?_ ?_ (Log.mem_values_of_governing? governed) inner undefined
    all_goals rintro ⟨_, _, ⟨⟩⟩

end Uncached

namespace Resolver

/-- In every log that a loader can have, each macro that an entry names is defined by an earlier
entry. So in a loaded configuration no call of a resolver, whatever calls were made before, reports
a macro without a definition, and every macro that a node leads to has one. -/
theorem macros_defined (registry : Registry) :
    (∀ loading, Loading.Reachable registry loading → loading.log.Closed) ∧
    ∀ config : Config, config.Loaded →
      (∀ calls scope symbol name place,
        ((after config calls).resolve config scope symbol).result ≠
          .error (.undefinedMacro name place)) ∧
      ∀ key name, Relation.ReflTransGen config.Depends (.node key) (.macroDef name) →
        ∃ definition, config.definition? name = some definition := by
  refine ⟨fun loading reachable => reachable.closed, fun config loaded => ⟨?_, ?_⟩⟩
  · intro calls scope symbol name place failed
    rw [(sound_after loaded calls).result_eq loaded (.cyclicReference []) (Nat.le_refl _)] at failed
    exact Uncached.resolve_defined loaded failed ⟨name, place, rfl⟩
  · exact fun key name => loaded.defined_of_reaches

/-- A macro is used by another one and redefined, and a binding in between fails. -/
def sampleMacros : List String :=
  ["n = 1", "m = [%n, %gin.REQUIRED]", "Box.content = %unknown", "n = 2",
    "Box.content = @a/Leaf()", "Leaf.size = %n"]

theorem macros_defined_sample :
    (∃ event, (Loading.ofBindings sampleMacros).log.events[4]? = some event ∧
      event.value.macroRefs.map (fun mention => mention.1.toText) = ["n"] ∧
      ∀ mention ∈ event.value.macroRefs, ∃ j < 4, ∃ definition : MacroEvent,
        (Loading.ofBindings sampleMacros).log.events[j]? = some (.macroDef definition) ∧
          definition.name = mention.1.toText) ∧
    (Config.ofBindings .sample sampleMacros).Loaded ∧
    ∀ name place, ((after (Config.ofBindings .sample sampleMacros) [(⟨[]⟩, ⟨["Loop"]⟩)]).resolve
        (Config.ofBindings .sample sampleMacros) ⟨[]⟩ ⟨["Box"]⟩).result ≠
      .error (.undefinedMacro name place) := by
  have replays : ((Loading.ofBindings sampleMacros).log.replay .sample).isOk = true := by
    decide +kernel
  have loaded := Config.loaded_ofBindings replays
  have reachable : Loading.Reachable .sample (.ofBindings sampleMacros) :=
    .applyBindings sampleMacros .start
  have holds := macros_defined .sample
  have closed := holds.1 _ reachable
  refine ⟨?_, loaded, (holds.2 _ loaded).1 _ _ _⟩
  have count : (Loading.ofBindings sampleMacros).log.events.map
      (fun event => event.value.macroRefs.map fun mention => mention.1.toText) =
        [[], ["n"], [], [], ["n"]] := by decide +kernel
  cases at_4 : (Loading.ofBindings sampleMacros).log.events[4]? with
  | none =>
    have short := congrArg (·[4]?) count
    rw [List.getElem?_map, at_4] at short
    cases short
  | some event =>
    have named := congrArg (·[4]?) count
    rw [List.getElem?_map, at_4] at named
    exact ⟨event, rfl, Option.some.inj named, closed 4 event at_4⟩

end Resolver

end ConfigBinding
