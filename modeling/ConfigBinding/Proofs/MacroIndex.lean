import ConfigBinding.Proofs.LoadedLog

/-!
# The index of macros

A log is written in four ways: it gets a source, a macro, a binding, or it is cut back to some of
its entries. Whatever is done to it in which order, and whichever of the assignments fail, the index
of macros holds for each macro the number of its last definition that is still there. So a
definition that a later one hid is found again when the later one is cut off.

Results:
1. `Log.Step.keeps_indexed`: each step keeps the agreement of the index with the entries.
2. `Log.macro_index_exact`: what the index finds after any steps.
-/

namespace ConfigBinding.Log

/-- One thing that is done to a log. -/
inductive Step
  | addSource (id text : String)
  | addMacro (name : String) (value : Expr) (span : Span)
  | addBinding (key : BindingKey) (value : Expr) (span : Span)
  | truncate (size : Nat)

/-- Does the step, or fails and leaves the log as it is. -/
def Step.run : Step → Attempt Log Unit
  | .addSource id text => .modify fun log => (log.addSource id text).1
  | .addMacro name value span => .tryModify fun log => log.addMacro name value span
  | .addBinding key value span => .tryModify fun log => log.addBinding key value span
  | .truncate size => .modify fun log => log.truncate size

/-- The log after some steps, of which any may fail. -/
def ofSteps (steps : List Step) : Log := steps.foldl (fun log step => (step.run log).2) .empty

/-! ## One step -/

theorem Step.keeps_indexed (step : Step) : Attempt.Keeps Indexed step.run := by
  cases step with
  | addSource id text => exact fun _ indexed => kept_indexed.addSource id text indexed
  | addMacro name value span =>
    exact Attempt.keeps_tryModify fun log next indexed added => kept_indexed.assign indexed
      (show log.assign span (.macroDef name value) = .ok next from added)
  | addBinding key value span =>
    exact Attempt.keeps_tryModify fun log next indexed added => kept_indexed.assign indexed
      (show log.assign span (.binding key value) = .ok next from added)
  | truncate size => exact fun _ indexed => kept_indexed.truncate size indexed

theorem eq_of_tryModify_error {change : Log → Except ConfigError Log} {log : Log}
    {error : ConfigError} (failed : (Attempt.tryModify change log).1 = .error error) :
    (Attempt.tryModify change log).2 = log := by
  unfold Attempt.tryModify at failed ⊢
  cases changed : change log with
  | ok next =>
    rw [changed] at failed
    cases failed
  | error error => rfl

/-- A step that fails changes nothing. -/
theorem Step.eq_of_error {step : Step} {log : Log} {error : ConfigError}
    (failed : (step.run log).1 = .error error) : (step.run log).2 = log := by
  cases step with
  | addSource => cases failed
  | addMacro => exact eq_of_tryModify_error failed
  | addBinding => exact eq_of_tryModify_error failed
  | truncate => cases failed

/-! ## All steps -/

theorem indexed_foldl (steps : List Step) {log : Log} (indexed : log.Indexed) :
    (steps.foldl (fun log step => (step.run log).2) log).Indexed := by
  induction steps generalizing log with
  | nil => exact indexed
  | cons step steps ih => exact ih (step.keeps_indexed log indexed)

theorem indexed_ofSteps (steps : List Step) : (ofSteps steps).Indexed := indexed_foldl steps rfl

/-! ## What the index finds -/

theorem macroHistory_eq_nil_iff {log : Log} {name : String} :
    log.macroHistory name = [] ↔
      ∀ event, Event.macroDef event ∈ log.events → event.name ≠ name := by
  unfold macroHistory
  rw [List.filterMap_eq_nil_iff]
  constructor
  · intro none event member same
    have kept := none _ member
    simp only [if_pos same] at kept
    cases kept
  · intro other event member
    cases event with
    | binding => rfl
    | macroDef event => exact if_neg (other event member)

/-- A number in the index is that of a definition, and of the one that is found. -/
theorem definition_of_indexed {log : Log} (indexed : log.Indexed) {name : String} {number : Nat}
    (found : Entries.get? name log.macroIndex = some number) :
    ∃ event, log.events[number]? = some (.macroDef event) ∧ log.macro? name = some event := by
  have finds := indexFinds_definitions name log.events
  rw [indexed] at found
  cases last : (definitions name log.events).getLast? with
  | none =>
    rw [last] at finds
    cases found.symm.trans finds
  | some event =>
    rw [last] at finds
    obtain ⟨_, also, entry⟩ := finds
    cases found.symm.trans also
    exact ⟨event, entry, (macro?_eq_of_indexed indexed name).trans last⟩

/-- The index of macros agrees with the entries of the log, whatever was done to it.
* A macro is what its last definition says.
* There is no such macro just if no entry defines it.
* The index points at this definition.
* A step that fails changes nothing. -/
theorem macro_index_exact (steps : List Step) (name : String) :
    (ofSteps steps).macro? name = ((ofSteps steps).macroHistory name).getLast? ∧
    ((ofSteps steps).macro? name = none ↔
      ∀ event, Event.macroDef event ∈ (ofSteps steps).events → event.name ≠ name) ∧
    (∀ number, Entries.get? name (ofSteps steps).macroIndex = some number →
      ∃ event, (ofSteps steps).events[number]? = some (.macroDef event) ∧
        (ofSteps steps).macro? name = some event) ∧
    ∀ (step : Step) (error : ConfigError), (step.run (ofSteps steps)).1 = .error error →
      (step.run (ofSteps steps)).2 = ofSteps steps := by
  have indexed := indexed_ofSteps steps
  have last := macro?_eq_of_indexed indexed name
  refine ⟨last, ?_, fun _ found => definition_of_indexed indexed found,
    fun _ _ failed => Step.eq_of_error failed⟩
  rw [last, List.getLast?_eq_none_iff, macroHistory_eq_nil_iff]

/-- A definition that hides another one, and the other one when it is cut off. -/
example :
    let value (n : Int64) : Expr := .literal (.int n) (.zero 0)
    let steps : List Step := [.addMacro "n" (value 1) (.zero 0), .addMacro "n" (value 2) (.zero 0)]
    ((ofSteps steps).macro? "n").map (·.value.toText) = some "2" ∧
      ((ofSteps (steps ++ [.truncate 1])).macro? "n").map (·.value.toText) = some "1" := by
  decide

end ConfigBinding.Log
