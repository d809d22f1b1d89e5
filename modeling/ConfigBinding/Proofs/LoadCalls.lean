import ConfigBinding.Proofs.LoadedLog

/-!
# Calls of a loader

A loader is used by calls: for a file, for a text, for a file as others include it, and for a single
binding. A call is one attempt on the log, and an attempt only ever appends entries. Hence taking
back all entries behind the former end undoes what a failing call did.

Results:
1. `LoadCall.reachable_run`: calls lead from one state of a loader to another.
2. `LoadCall.run_error`: a call that fails leaves the entries and the index of macros as they were.
-/

namespace ConfigBinding

/-- A call of a loader. -/
inductive LoadCall
  | loadFile (path : String)
  | loadText (id text : String)
  | process (path : String) (chain : IncludeChain)
  | applyBinding (text : String)
deriving DecidableEq, Repr

/-! ## Entries are only appended -/

/-- The value that is assigned. -/
def Assignment.value : Assignment → Expr
  | .macroDef _ value => value
  | .binding _ value => value

/-- The entry of an assignment that stands at the given place. -/
def Assignment.event (origin : Location) : Assignment → Event
  | .macroDef name value => .macroDef ⟨name, value, origin⟩
  | .binding key value => .binding ⟨key, value, origin⟩

theorem Assignment.value_event (assignment : Assignment) (origin : Location) :
    (assignment.event origin).value = assignment.value := by
  cases assignment <;> rfl

theorem Assignment.value_canonical (assignment : Assignment) (scope : FileScope)
    (registry : Registry) :
    (assignment.canonical scope registry).value =
      scope.canonicalValue registry assignment.value := by
  cases assignment <;> rfl

/-- The index of macros after an assignment whose entry has the given number. -/
def Assignment.index (number : Nat) (index : List (String × Nat)) :
    Assignment → List (String × Nat)
  | .macroDef name _ => Entries.insert name number index
  | .binding _ _ => index

namespace Log

/-- The log with the entry of an assignment that stands at the given span. -/
def assigned (log : Log) (span : Span) (assignment : Assignment) : Log where
  sources := log.sources
  events := log.events ++ [assignment.event (log.location span)]
  macroIndex := assignment.index log.events.length log.macroIndex

theorem undefinedMacro?_eq_none {log : Log} {value : Expr} :
    log.undefinedMacro? value = none ↔
      ∀ name ∈ value.macroRefs.map Prod.fst,
        Entries.contains name.toText log.macroIndex = true := by
  simp [undefinedMacro?]

/-- An assignment is possible if its value names defined macros only. -/
theorem assign_eq_ok {log next : Log} {span : Span} {assignment : Assignment} :
    log.assign span assignment = .ok next ↔
      log.undefinedMacro? assignment.value = none ∧ log.assigned span assignment = next := by
  cases assignment with
  | macroDef name value =>
    simp only [assign, addMacro, assigned, Assignment.value, Assignment.event, Assignment.index]
    split <;> simp_all
  | binding key value =>
    simp only [assign, addBinding, assigned, Assignment.value, Assignment.event, Assignment.index]
    split <;> simp_all

/-- An assignment that is not possible names a macro that is not defined. -/
theorem of_assign_eq_error {log : Log} {span : Span} {assignment : Assignment} {error : ConfigError}
    (fails : log.assign span assignment = .error error) :
    ∃ mention ∈ assignment.value.macroRefs,
      Entries.contains mention.1.toText log.macroIndex = false ∧
      error = .undefinedMacro mention.1.toText (log.location mention.2) := by
  have undefined : log.undefinedMacro? assignment.value = some error := by
    cases assignment with
    | macroDef name value =>
      simp only [assign, addMacro] at fails
      split at fails <;> simp_all [Assignment.value]
    | binding key value =>
      simp only [assign, addBinding] at fails
      split at fails <;> simp_all [Assignment.value]
  obtain ⟨mention, found, rfl⟩ := Option.map_eq_some_iff.mp undefined
  refine ⟨mention, List.mem_of_find?_eq_some found, ?_, rfl⟩
  have missing := List.find?_some found
  dsimp only at missing
  simpa using missing

/-- Assignments that are all possible append their entries. -/
theorem of_assignAll_eq_ok {log after : Log} {span : Span} {assignments : List Assignment}
    (run : assignAll span assignments log = (.ok (), after)) :
    after.sources = log.sources ∧
      after.events = log.events ++ assignments.map (Assignment.event (log.location span)) := by
  induction assignments generalizing log with
  | nil =>
    cases run
    exact ⟨rfl, (List.append_nil _).symm⟩
  | cons assignment assignments ih =>
    obtain ⟨_, middle, begun, run⟩ := Attempt.ok_of_bind_run run
    obtain ⟨_, rfl⟩ := assign_eq_ok.mp (Attempt.tryModify_eq_ok.mp begun)
    obtain ⟨sources, events⟩ := ih run
    refine ⟨sources, events.trans ?_⟩
    rw [List.map_cons, ← List.singleton_append, ← List.append_assoc]
    rfl

/-- An attempt keeps the entries that were there before. -/
theorem stepwise_events (base : Log) : Stepwise fun log => base.events <+: log.events where
  assign := by
    intro log next span assignment kept assigned
    obtain ⟨_, rfl⟩ := assign_eq_ok.mp assigned
    exact kept.trans (List.prefix_append _ _)
  addSource := fun _ _ kept => kept

theorem events_truncate {log after : Log} (kept : log.events <+: after.events) :
    (after.truncate log.size).events = log.events := by
  unfold truncate
  split
  · rename_i short
    exact (kept.eq_of_length_le short).symm
  · exact (List.prefix_iff_eq_take.mp kept).symm

theorem openSource_of_lt {log : Log} (room : log.sources.size < SourceMap.capacity)
    (id text : String) :
    openSource id text log = (.ok log.sources.size, (log.addSource id text).1) :=
  if_pos room

theorem openSource_of_not_lt {log : Log} (full : ¬ log.sources.size < SourceMap.capacity)
    (id text : String) : openSource id text log = (.error .tooManySources, log) :=
  if_neg full

/-- What is done with a source is done under the next number, where one is left. -/
theorem openSource_bind {α : Type} (id text : String) (next : Nat → Attempt Log α) (log : Log) :
    (openSource id text >>= next) log =
      if log.sources.size < SourceMap.capacity then
        next log.sources.size (log.addSource id text).1
      else (.error .tooManySources, log) := by
  split
  · rename_i room
    exact Attempt.bind_ok (openSource_of_lt room id text)
  · rename_i full
    exact Attempt.bind_error (openSource_of_not_lt full id text)

theorem size_addSource (log : Log) (id text : String) :
    (log.addSource id text).1.sources.size = log.sources.size + 1 :=
  log.sources.size_add id text

/-- A failing attempt is undone. -/
theorem events_keepSize {act : Attempt Log Unit} (appends : ∀ base : Log,
    Attempt.Keeps (fun log => base.events <+: log.events) act) {log : Log} {error : ConfigError}
    (fails : (keepSize act log).1 = .error error) : (keepSize act log).2.events = log.events := by
  have kept := appends log log (List.prefix_refl _)
  unfold keepSize at fails ⊢
  cases run : act log with
  | mk result after =>
    rw [run] at fails kept
    cases result with
    | ok _ => cases fails
    | error _ => exact events_truncate kept

/-- An attempt that succeeds is kept as it is. -/
theorem of_keepSize_eq_ok {act : Attempt Log Unit} {log after : Log}
    (run : keepSize act log = (.ok (), after)) : act log = (.ok (), after) := by
  unfold keepSize at run
  split at run
  · rename_i ended
    rw [ended]
    exact run
  · cases run

/-- A source keeps its number, whatever is read after it. -/
theorem stepwise_found (n : Nat) (file : SourceFile) :
    Stepwise fun log => log.sources.files[n]? = some file where
  assign := by
    intro log next span assignment found assigned
    rw [← (assign_eq_ok.mp assigned).2]
    exact found
  addSource := by
    intro log id text found
    show (log.sources.files ++ [_])[n]? = some file
    rw [List.getElem?_append_left (List.getElem?_eq_some_iff.mp found).1, found]

/-- Sources stay, also where an attempt is taken back. -/
theorem kept_sources (count : Nat) : Kept fun log => count ≤ log.sources.size where
  assign := by
    intro log next span assignment grown assigned
    obtain ⟨_, rfl⟩ := assign_eq_ok.mp assigned
    exact grown
  addSource := by
    intro log id text grown
    rw [size_addSource]
    exact Nat.le_add_right_of_le grown
  truncate := by
    intro log size grown
    unfold truncate
    split <;> exact grown

end Log

/-! ## Calls -/

namespace LoadCall

variable {registry : Registry} {load : SourceLoader}

/-- Makes the call. -/
def run (registry : Registry) (load : SourceLoader) :
    LoadCall → Loading → Except ConfigError Unit × Loading
  | .loadFile path => Loading.loadFile registry load path
  | .loadText id text => Loading.loadText registry load id text
  | .process path chain => Loading.process registry load path chain
  | .applyBinding text => Loading.applyBinding text

/-- What the call attempts on the log. -/
def attempt (registry : Registry) (load : SourceLoader) (loading : Loading) :
    LoadCall → Attempt Log Unit
  | .loadFile path => Log.readFile registry load path .empty
  | .loadText id text => Log.readSource registry load SourceMap.capacity ⟨id, text⟩ .empty none
  | .process path chain => Log.readFile registry load path chain
  | .applyBinding text => Log.readBinding (Loading.directId loading.directBindings) text

variable (registry load)

theorem run_fst (call : LoadCall) (loading : Loading) :
    (call.run registry load loading).1 =
      (Log.keepSize (call.attempt registry load loading) loading.log).1 := by
  cases call <;> rfl

theorem run_log (call : LoadCall) (loading : Loading) :
    (call.run registry load loading).2.log =
      (Log.keepSize (call.attempt registry load loading) loading.log).2 := by
  cases call <;> rfl

theorem reachable_run (call : LoadCall) {loading : Loading}
    (reachable : Loading.Reachable registry loading) :
    Loading.Reachable registry (call.run registry load loading).2 := by
  cases call with
  | loadFile path => exact .process load path .empty reachable
  | loadText id text => exact .loadText load id text reachable
  | process path chain => exact .process load path chain reachable
  | applyBinding text => exact .applyBinding text reachable

/-- A loader that takes a call is one after calls. -/
theorem reachable_of_run (call : LoadCall) {loading next : Loading}
    {result : Except ConfigError Unit} (reachable : Loading.Reachable registry loading)
    (run : call.run registry load loading = (result, next)) : Loading.Reachable registry next := by
  have reached := call.reachable_run registry load reachable
  rwa [run] at reached

theorem keeps_attempt {I : Log → Prop} (kept : Log.Stepwise I) (call : LoadCall)
    (loading : Loading) : Attempt.Keeps I (call.attempt registry load loading) := by
  cases call with
  | loadFile path => exact Log.keeps_readFile kept registry load path .empty
  | loadText id text => exact Log.keeps_readSource kept registry load _ _ _ _
  | process path chain => exact Log.keeps_readFile kept registry load path chain
  | applyBinding text => exact Log.keeps_readBinding kept _ text

theorem sources_run (call : LoadCall) (loading : Loading) :
    loading.log.sources.size ≤ (call.run registry load loading).2.log.sources.size := by
  have kept := Log.kept_sources loading.log.sources.size
  rw [run_log]
  exact Log.keeps_keepSize (fun _ => kept.truncate)
    (keeps_attempt registry load kept.toStepwise call loading) _ (Nat.le_refl _)

variable {registry load}

/-- A call that fails leaves the entries and the index of macros as they were. -/
theorem run_error {call : LoadCall} {loading next : Loading} {error : ConfigError}
    (reachable : Loading.Reachable registry loading)
    (fails : call.run registry load loading = (.error error, next)) :
    next.log.events = loading.log.events ∧ next.log.macroIndex = loading.log.macroIndex := by
  have result := call.run_fst registry load loading
  have log := call.run_log registry load loading
  have nextReachable := call.reachable_of_run registry load reachable fails
  rw [fails] at result log
  have same : next.log.events = loading.log.events := by
    have undone := Log.events_keepSize
      (fun base => keeps_attempt registry load (Log.stepwise_events base) call loading) result.symm
    rw [← log] at undone
    exact undone
  refine ⟨same, ?_⟩
  -- The index is made anew when entries are taken back, and it follows from the entries.
  have indexed : next.log.Indexed := nextReachable.log_kept Log.kept_indexed rfl
  have wasIndexed : loading.log.Indexed := reachable.log_kept Log.kept_indexed rfl
  rw [indexed, wasIndexed, same]

end LoadCall

end ConfigBinding
