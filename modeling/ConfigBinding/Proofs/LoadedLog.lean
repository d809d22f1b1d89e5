import ConfigBinding.Loading
import Mathlib.Data.List.Induction

/-!
# What loading keeps

A loader takes any calls in any order, and some of them fail. Whatever it does to the log it does in
steps of three kinds: it appends an assignment, it adds a source, or it takes back the entries of a
call that failed. A property that these steps keep holds of every log that a loader can have.

Results:
1. `Config.loaded_of_load`: what files and bindings are loaded into is a loaded configuration.
2. `Loading.Reachable.log_kept`: the principle.
3. `Config.Replayed.macro?_eq`: the macro that the index of a log finds is the last one of its name.
-/

namespace ConfigBinding

/-- The states of a loader. A file is loaded by processing it under the empty chain. What a path
names may differ from call to call. -/
inductive Loading.Reachable (registry : Registry) : Loading → Prop
  | start : Reachable registry .start
  | process {loading : Loading} (load : SourceLoader) (path : String) (chain : IncludeChain) :
      Reachable registry loading → Reachable registry (loading.process registry load path chain).2
  | loadText {loading : Loading} (load : SourceLoader) (id text : String) :
      Reachable registry loading → Reachable registry (loading.loadText registry load id text).2
  | applyBinding {loading : Loading} (text : String) :
      Reachable registry loading → Reachable registry (loading.applyBinding text).2

/-- The configurations that loading ends with. -/
def Config.Loaded (config : Config) : Prop :=
  ∃ loading, Loading.Reachable config.registry loading ∧
    Config.ofLoading config.registry loading = .ok config

theorem Config.ofLoading_ok {registry : Registry} {loading : Loading} {config : Config}
    (finished : ofLoading registry loading = .ok config) :
    config.registry = registry ∧ config.log = loading.log ∧
      loading.log.replay registry = .ok config.table := by
  unfold ofLoading at finished
  cases replayed : loading.log.replay registry with
  | error error =>
    rw [replayed] at finished
    cases finished
  | ok table =>
    rw [replayed] at finished
    injection finished with same
    subst same
    exact ⟨rfl, rfl, rfl⟩

theorem Config.Loaded.replay {config : Config} (loaded : config.Loaded) :
    config.log.replay config.registry = .ok config.table := by
  obtain ⟨loading, _, finished⟩ := loaded
  obtain ⟨_, sameLog, replayed⟩ := ofLoading_ok finished
  rw [sameLog]
  exact replayed

/-- Calls that succeed lead to a state that a loader can have, if each of them does. -/
theorem Loading.Reachable.runCalls {registry : Registry}
    {calls : List (Loading → Except ConfigError Unit × Loading)}
    (reaches : ∀ call ∈ calls, ∀ loading, Reachable registry loading →
      Reachable registry (call loading).2)
    {loading final : Loading} (reachable : Reachable registry loading)
    (run : Config.runCalls calls loading = .ok final) : Reachable registry final := by
  induction calls generalizing loading with
  | nil =>
    cases run
    exact reachable
  | cons call calls ih =>
    have next := reaches call List.mem_cons_self loading reachable
    unfold Config.runCalls at run
    rw [List.foldlM_cons] at run
    cases called : call loading with
    | mk result after =>
      rw [called] at run next
      cases result with
      | error error => cases run
      | ok _ =>
        exact ih (fun later member => reaches later (List.mem_cons_of_mem _ member)) next run

/-- The configuration that files and single bindings are loaded into is one that loading ends
with. -/
theorem Config.loaded_of_load {registry : Registry} {load : SourceLoader}
    {files bindings : List String} {config : Config}
    (finished : Config.load registry load files bindings = .ok config) : config.Loaded := by
  unfold Config.load at finished
  cases run : runCalls (files.map (Loading.loadFile registry load) ++
      bindings.map Loading.applyBinding) .start with
  | error error =>
    rw [run] at finished
    cases finished
  | ok loading =>
    rw [run] at finished
    have reachable : Loading.Reachable registry loading := by
      refine .runCalls ?_ .start run
      intro call member loading reachable
      rcases List.mem_append.mp member with inFiles | inBindings
      · obtain ⟨path, _, rfl⟩ := List.mem_map.mp inFiles
        exact .process load path .empty reachable
      · obtain ⟨text, _, rfl⟩ := List.mem_map.mp inBindings
        exact .applyBinding text reachable
    have finished : ofLoading registry loading = .ok config := finished
    obtain ⟨rfl, _⟩ := ofLoading_ok finished
    exact ⟨loading, reachable, finished⟩

/-! ## An example -/

/-- A leaf with a size, a box and a loop. -/
def Registry.sample : Registry where
  entries := [
    ⟨⟨["m", "Leaf"]⟩, [⟨"size", some (.int 1), .scalar⟩], none⟩,
    ⟨⟨["m", "Box"]⟩, [⟨"content", none, .reference⟩], none⟩,
    ⟨⟨["m", "Loop"]⟩, [⟨"next", none, .any⟩], none⟩]

theorem Loading.Reachable.applyBindings {registry : Registry} (texts : List String)
    {loading : Loading} (reachable : Reachable registry loading) :
    Reachable registry
      (texts.foldl (fun loading text => (loading.applyBinding text).2) loading) := by
  induction texts generalizing loading with
  | nil => exact reachable
  | cons text texts ih => exact ih (.applyBinding text reachable)

/-- Loads single bindings, of which some may fail. -/
def Loading.ofBindings (texts : List String) : Loading :=
  texts.foldl (fun loading text => (loading.applyBinding text).2) .start

/-- The configuration of single bindings. -/
def Config.ofBindings (registry : Registry) (texts : List String) : Config where
  registry := registry
  log := (Loading.ofBindings texts).log
  table := ((Loading.ofBindings texts).log.replay registry).toOption.getD .empty

theorem Config.loaded_ofBindings {registry : Registry} {texts : List String}
    (replays : ((Loading.ofBindings texts).log.replay registry).isOk = true) :
    (ofBindings registry texts).Loaded := by
  refine ⟨.ofBindings texts, .applyBindings texts .start, ?_⟩
  show ((Loading.ofBindings texts).log.replay registry).map
      (fun table => Config.mk registry (Loading.ofBindings texts).log table) =
    .ok (ofBindings registry texts)
  unfold ofBindings
  cases replayed : (Loading.ofBindings texts).log.replay registry with
  | error error =>
    rw [replayed] at replays
    cases replays
  | ok table => rfl

/-- A leaf in a box, with a size that the scope around it gives, and a loop that holds itself. -/
def Loading.sample : Loading :=
  ["n = 3", "a/Leaf.size = %n", "Box.content = @a/b/Leaf()", "Loop.next = @Loop()"].foldl
    (fun loading text => (loading.applyBinding text).2) .start

def Config.sample : Config where
  registry := .sample
  log := Loading.sample.log
  table := (Loading.sample.log.replay .sample).toOption.getD .empty

theorem Config.loaded_sample : Config.sample.Loaded := by
  have replays : (Loading.sample.log.replay .sample).isOk = true := by decide +kernel
  exact loaded_ofBindings replays

namespace Log

open Attempt (Keeps keeps_bind keeps_fail keeps_pure keeps_tryModify)

/-! ## Steps of loading -/

/-- A property of logs that the steps of one attempt keep. -/
structure Stepwise (I : Log → Prop) : Prop where
  assign {log next : Log} {span : Span} {assignment : Assignment} :
    I log → log.assign span assignment = .ok next → I next
  addSource {log : Log} (id text : String) : I log → I (log.addSource id text).1

/-- A property of logs that the steps of loading keep, also where an attempt is taken back. -/
structure Kept (I : Log → Prop) : Prop extends Stepwise I where
  truncate {log : Log} (size : Nat) : I log → I (log.truncate size)

variable {I : Log → Prop}

/-- Assignments keep what each of them keeps. -/
theorem keeps_assignAll_of_each {span : Span} {assignments : List Assignment}
    (each : ∀ assignment ∈ assignments, ∀ log next : Log,
      I log → log.assign span assignment = .ok next → I next) :
    Keeps I (assignAll span assignments) := by
  induction assignments with
  | nil => exact keeps_pure ()
  | cons assignment assignments ih =>
    obtain ⟨first, others⟩ := List.forall_mem_cons.mp each
    exact keeps_bind (keeps_tryModify first) fun _ => ih others

theorem keeps_assignAll (kept : Stepwise I) (span : Span) (assignments : List Assignment) :
    Keeps I (assignAll span assignments) :=
  keeps_assignAll_of_each fun _ _ _ _ holds assigned => kept.assign holds assigned

theorem keeps_openSource (kept : Stepwise I) (id text : String) : Keeps I (openSource id text) := by
  intro log holds
  unfold openSource
  split
  · exact kept.addSource id text holds
  · exact holds

theorem keeps_runStatements (kept : Stepwise I) (registry : Registry)
    {includeFile : String → Location → Attempt Log Unit}
    (fileKeeps : ∀ path place, Keeps I (includeFile path place)) (scope : FileScope)
    (statements : List Statement) :
    Keeps I (runStatements registry includeFile scope statements) := by
  induction statements generalizing scope with
  | nil => exact fun _ holds => holds
  | cons statement statements ih =>
    obtain ⟨body, span⟩ := statement
    cases body with
    | importPath imported => exact ih _
    | dynamicRegistration => exact ih _
    | includeFile path =>
      refine keeps_bind (fun _ holds => holds) fun log => ?_
      exact keeps_bind (fileKeeps path (log.location span)) fun _ => ih scope
    | macroDef name value => exact keeps_bind (keeps_assignAll kept span _) fun _ => ih scope
    | binding bound => exact keeps_bind (keeps_assignAll kept span _) fun _ => ih scope

theorem keeps_readSource (kept : Stepwise I) (registry : Registry) (load : SourceLoader)
    (fuel : Nat) (source : LoadedSource) (chain : IncludeChain) (site : Option Location) :
    Keeps I (readSource registry load fuel source chain site) := by
  induction fuel generalizing source chain site with
  | zero => exact keeps_fail _
  | succ fuel ih =>
    unfold readSource
    dsimp only
    split
    · exact keeps_fail _
    · refine keeps_bind (keeps_openSource kept _ _) fun number => ?_
      split
      · exact fun _ holds => holds
      · refine keeps_runStatements kept registry (fun path place => ?_) .start _
        split
        · exact keeps_fail _
        · exact ih _ _ _

theorem keeps_readFile (kept : Stepwise I) (registry : Registry) (load : SourceLoader)
    (path : String) (chain : IncludeChain) : Keeps I (readFile registry load path chain) := by
  unfold readFile
  split
  · exact keeps_fail _
  · exact keeps_readSource kept registry load _ _ chain none

theorem keeps_readBinding (kept : Stepwise I) (id text : String) :
    Keeps I (readBinding id text) := by
  refine keeps_bind (keeps_openSource kept id text) fun number => ?_
  split
  · exact fun _ holds => holds
  · exact keeps_assignAll kept _ _

theorem keeps_keepSize (truncates : ∀ (log : Log) (size : Nat), I log → I (log.truncate size))
    {act : Attempt Log Unit} (actKeeps : Keeps I act) : Keeps I (keepSize act) := by
  intro log holds
  have after := actKeeps log holds
  unfold keepSize
  split
  · rename_i run
    rw [run] at after
    exact after
  · rename_i run
    rw [run] at after
    exact truncates _ _ after

end Log

/-- What the steps of loading keep holds of every log that a loader can have. -/
theorem Loading.Reachable.log_kept {I : Log → Prop} (kept : Log.Kept I) (empty : I .empty)
    {registry : Registry} {loading : Loading} (reachable : Loading.Reachable registry loading) :
    I loading.log := by
  have steps := kept.toStepwise
  have keeps {act : Attempt Log Unit} (actKeeps : Attempt.Keeps I act) :
      Attempt.Keeps I (Log.keepSize act) := Log.keeps_keepSize (fun _ => kept.truncate) actKeeps
  induction reachable with
  | start => exact empty
  | process load path chain _ ih =>
    exact keeps (Log.keeps_readFile steps registry load path chain) _ ih
  | loadText load id text _ ih =>
    exact keeps (Log.keeps_readSource steps registry load _ _ _ _) _ ih
  | applyBinding text _ ih =>
    exact keeps (Log.keeps_readBinding steps _ text) _ ih

/-! ## The index of macros -/

namespace Log

/-- The index of the log agrees with its entries. -/
def Indexed (log : Log) : Prop := log.macroIndex = macroIndexFrom 0 log.events []

theorem kept_indexed : Kept Indexed where
  assign := by
    intro log next span assignment indexed assigned
    cases assignment with
    | macroDef name value =>
      simp only [Log.assign, addMacro] at assigned
      split at assigned
      · cases assigned
      · cases assigned
        unfold Indexed at indexed ⊢
        rw [macroIndexFrom_append, ← indexed, Nat.zero_add]
        rfl
    | binding key value =>
      simp only [Log.assign, addBinding] at assigned
      split at assigned
      · cases assigned
      · cases assigned
        unfold Indexed at indexed ⊢
        rw [macroIndexFrom_append, ← indexed]
        rfl
  addSource := fun _ _ indexed => indexed
  truncate := by
    intro log size indexed
    unfold truncate
    split
    · exact indexed
    · rfl

/-- The definitions of a macro among entries, in order. -/
def definitions (name : String) (events : List Event) : List MacroEvent :=
  events.filterMap fun
    | .macroDef event => if event.name = name then some event else none
    | .binding _ => none

/-- The index of the entries finds `last?` as the last definition of the macro. -/
def IndexFinds (name : String) (events : List Event) (last? : Option MacroEvent) : Prop :=
  match last? with
  | some event =>
    ∃ number, Entries.get? name (macroIndexFrom 0 events []) = some number ∧
      events[number]? = some (.macroDef event)
  | none => Entries.get? name (macroIndexFrom 0 events []) = none

theorem IndexFinds.append {name : String} {events : List Event} {last? : Option MacroEvent}
    {event : Event} (finds : IndexFinds name events last?)
    (same : Entries.get? name (macroIndexFrom 0 (events ++ [event]) []) =
      Entries.get? name (macroIndexFrom 0 events [])) :
    IndexFinds name (events ++ [event]) last? := by
  cases last? with
  | none => exact same.trans finds
  | some last =>
    obtain ⟨number, indexed, found⟩ := finds
    obtain ⟨inside, _⟩ := List.getElem?_eq_some_iff.mp found
    refine ⟨number, same.trans indexed, ?_⟩
    rw [List.getElem?_append_left inside, found]

/-- The induction is on the end of the log, where entries are added. -/
theorem indexFinds_definitions (name : String) (events : List Event) :
    IndexFinds name events (definitions name events).getLast? := by
  induction events using List.reverseRecOn with
  | nil => rfl
  | append_singleton events last ih =>
    cases last with
    | binding event =>
      have history : definitions name (events ++ [.binding event]) = definitions name events := by
        simp [definitions]
      rw [history]
      refine ih.append ?_
      rw [macroIndexFrom_append]
      rfl
    | macroDef event =>
      have indexed : macroIndexFrom 0 (events ++ [.macroDef event]) [] =
          Entries.insert event.name events.length (macroIndexFrom 0 events []) := by
        rw [macroIndexFrom_append, Nat.zero_add]
        rfl
      by_cases same : event.name = name
      · have history : definitions name (events ++ [.macroDef event]) =
            definitions name events ++ [event] := by
          simp [definitions, same]
        rw [history, List.getLast?_concat]
        refine ⟨events.length, ?_, by simp⟩
        rw [indexed, Entries.get?_insert, if_pos same]
      · have history : definitions name (events ++ [.macroDef event]) =
            definitions name events := by
          simp [definitions, same]
        rw [history]
        refine ih.append ?_
        rw [indexed, Entries.get?_insert, if_neg same]

theorem macro?_eq_of_indexed {log : Log} (indexed : log.Indexed) (name : String) :
    log.macro? name = (log.macroHistory name).getLast? := by
  have history : log.macroHistory name = definitions name log.events := rfl
  have finds := indexFinds_definitions name log.events
  rw [macro?, history, indexed]
  cases last : (definitions name log.events).getLast? with
  | none =>
    rw [last] at finds
    have absent : Entries.get? name (macroIndexFrom 0 log.events []) = none := finds
    rw [absent, Option.bind_none]
  | some event =>
    rw [last] at finds
    obtain ⟨number, found, entry⟩ := finds
    rw [found, Option.bind_some, entry]

end Log

theorem Config.Loaded.indexed {config : Config} (loaded : config.Loaded) :
    config.log.Indexed := by
  obtain ⟨loading, reachable, finished⟩ := loaded
  rw [(ofLoading_ok finished).2.1]
  exact reachable.log_kept Log.kept_indexed rfl

/-! ## Replayed logs -/

/-- The table of the configuration is that of its log, whose index of macros is in order. The log
need not be one that a loader comes to. -/
structure Config.Replayed (config : Config) : Prop where
  replay : config.log.replay config.registry = .ok config.table
  indexed : config.log.Indexed

theorem Config.Loaded.replayed {config : Config} (loaded : config.Loaded) : config.Replayed :=
  ⟨loaded.replay, loaded.indexed⟩

/-- What holds of replayed configurations can be used for loaded ones. -/
instance {config : Config} : Coe config.Loaded config.Replayed := ⟨Config.Loaded.replayed⟩

theorem Config.Replayed.macro?_eq {config : Config} (replayed : config.Replayed) (name : String) :
    config.log.macro? name = (config.log.macroHistory name).getLast? :=
  Log.macro?_eq_of_indexed replayed.indexed name

end ConfigBinding
