import ConfigBinding.Proofs.AlikeLogs
import ConfigBinding.Proofs.Inclusions
import ConfigBinding.Proofs.Provenance

/-!
# Single bindings and files of one statement

A single binding is read by a reader of its own, and so is a text that is loaded as a file. On a
text that is one assignment the two do the same: there are no imports ahead, so the symbols of a
file mean what they say as well. A single binding succeeds in no other case.

Results:
1. `Statement.parseAssignmentText_eq_ok_iff`: what is read as a single binding.
2. `Loading.applyBinding_agrees`: a single binding is loaded like the file of its text, and nothing
   that is done afterwards tells them apart.
-/

namespace ConfigBinding

open Grammar

/-- A text is read as a single assignment if it is one statement, which is an assignment. -/
theorem Statement.parseAssignmentText_eq_ok_iff {number : Nat} {text : String}
    {statement : Statement} :
    parseAssignmentText number text = .ok statement ↔
      parseSource number text = .ok [statement] ∧ statement.isAssignment = true := by
  constructor
  · intro read
    refine ⟨parseSource_of_parseAssignmentText read, ?_⟩
    unfold parseAssignmentText at read
    split at read
    · cases read
    · unfold assignmentOfLexemes at read
      obtain ⟨⟨first, c⟩, _, read⟩ := ok_of_bind read
      dsimp only at read
      split at read
      · split at read
        · cases read
          assumption
        · cases read
      · cases read
  · rintro ⟨read, isAssignment⟩
    obtain ⟨lexemes, tokens, _, derived⟩ := lexemes_of_parseSource read
    cases derived with
    | @cons ls rest _ _ spells others _ =>
      cases others
      rw [List.append_nil] at tokens
      have first := parseAt_past (c := Cursor.start number ls) spells (List.append_nil ls).symm
        (begins_nil _) fun _ _ member => nomatch member
      have ended : ((Cursor.start number ls).past ls).atEnd = true :=
        List.isEmpty_iff.mpr (Cursor.rest_past (List.append_nil ls).symm)
      unfold parseAssignmentText
      rw [tokens]
      dsimp only
      rw [assignmentOfLexemes, ok_bind first]
      dsimp only
      rw [if_pos ended, if_pos isAssignment]
      rfl

theorem Statement.isAssignment_inFile (statement : Statement) (number : Nat) :
    (statement.inFile number).isAssignment = statement.isAssignment := by
  obtain ⟨body, span⟩ := statement
  cases body <;> rfl

theorem Statement.included?_of_isAssignment {statement : Statement}
    (isAssignment : statement.isAssignment = true) : statement.included? = none := by
  obtain ⟨body, span⟩ := statement
  cases body with
  | includeFile path => cases isAssignment
  | _ => rfl

/-- A statement is read alike under all numbers. -/
theorem Statement.exists_single_iff (number other : Nat) (text : String) :
    (∃ statement, parseSource number text = .ok [statement] ∧ statement.isAssignment = true) ↔
      ∃ statement, parseSource other text = .ok [statement] ∧
        statement.isAssignment = true := by
  have forward {number other : Nat} :
      (∃ statement, parseSource number text = .ok [statement] ∧ statement.isAssignment = true) →
        ∃ statement, parseSource other text = .ok [statement] ∧
          statement.isAssignment = true := by
    rintro ⟨statement, read, isAssignment⟩
    refine ⟨statement.inFile other, ?_, by rwa [isAssignment_inFile]⟩
    rw [parseSource_inFile other number, read]
    rfl
  exact ⟨forward, forward⟩

/-! ## The attempts -/

namespace Log

variable {registry : Registry} {load : SourceLoader} {log after : Log} {id text : String}
  {statement : Statement}

/-- Behind the source is added, only the assignments of its one statement are left to do. -/
theorem readBinding_eq (room : log.sources.size < SourceMap.capacity)
    (read : Statement.parseSource log.sources.size text = .ok [statement])
    (isAssignment : statement.isAssignment = true) :
    readBinding id text log =
      assignAll statement.span statement.body.assignments (log.addSource id text).1 := by
  unfold readBinding
  rw [openSource_bind, if_pos room,
    Statement.parseAssignmentText_eq_ok_iff.mpr ⟨read, isAssignment⟩]

theorem readSource_eq (room : log.sources.size < SourceMap.capacity)
    (read : Statement.parseSource log.sources.size text = .ok [statement])
    (isAssignment : statement.isAssignment = true) {fuel : Nat} (fuelled : 0 < fuel) :
    readSource registry load fuel ⟨id, text⟩ .empty none log =
      assignAll statement.span statement.body.assignments (log.addSource id text).1 := by
  obtain ⟨fuel, rfl⟩ := Nat.exists_eq_add_one.mpr fuelled
  have own := Statement.included?_of_isAssignment isAssignment
  rw [readSource_succ, if_neg (by exact Bool.false_ne_true), openSource_bind, if_pos room, read]
  dsimp only
  rw [runStatements_own own, List.map_congr_left fun assignment _ =>
    canonical_start registry assignment, List.map_id']
  generalize (log.addSource id text).1 = opened
  cases run : assignAll statement.span statement.body.assignments opened with
  | mk result after =>
    cases result with
    | ok _ => exact Attempt.bind_ok run
    | error _ => exact Attempt.bind_error run

/-- A single binding is read only from a text that is an assignment. -/
theorem exists_statement_of_readBinding (run : readBinding id text log = (.ok (), after)) :
    log.sources.size < SourceMap.capacity ∧
      ∃ statement, Statement.parseSource log.sources.size text = .ok [statement] ∧
        statement.isAssignment = true := by
  unfold readBinding at run
  rw [openSource_bind] at run
  split at run
  · rename_i room
    refine ⟨room, ?_⟩
    cases read : Statement.parseAssignmentText log.sources.size text with
    | error error =>
      rw [read] at run
      cases run
    | ok statement => exact ⟨statement, Statement.parseAssignmentText_eq_ok_iff.mp read⟩
  · cases run

/-- A file is read only where a number is left for it. -/
theorem room_of_readSource {fuel : Nat} {source : LoadedSource} {chain : IncludeChain}
    {site : Option Location}
    (run : readSource registry load fuel source chain site log = (.ok (), after)) :
    log.sources.size < SourceMap.capacity := by
  cases fuel with
  | zero => cases run
  | succ fuel =>
  rw [readSource_succ] at run
  split at run
  · cases run
  rw [openSource_bind] at run
  split at run
  · assumption
  · cases run

theorem saysSame_addSource (log : Log) (id other text : String) :
    (log.addSource id text).1.SaysSame (log.addSource other text).1 :=
  ⟨rfl, rfl, (size_addSource log id text).trans (size_addSource log other text).symm⟩

/-- A single binding and the file of its text end alike, and leave logs that say the same. -/
theorem sameEnd_readBinding (room : log.sources.size < SourceMap.capacity)
    (read : Statement.parseSource log.sources.size text = .ok [statement])
    (isAssignment : statement.isAssignment = true) (name : String) {fuel : Nat}
    (fuelled : 0 < fuel) :
    SameEnd Eq (readBinding name text log).1
        (readSource registry load fuel ⟨id, text⟩ .empty none log).1 ∧
      (readBinding name text log).2.SaysSame
        (readSource registry load fuel ⟨id, text⟩ .empty none log).2 := by
  rw [readBinding_eq room read isAssignment, readSource_eq room read isAssignment fuelled]
  exact parallel_assignAll statement.span statement.span rfl _ _
    (saysSame_addSource log name id text)

/-- The entries of the one statement tell the line and the column where it starts in the text. -/
theorem events_of_assignAll
    (read : Statement.parseSource log.sources.size text = .ok [statement])
    (run : assignAll statement.span statement.body.assignments (log.addSource id text).1 =
      (.ok (), after)) :
    after.events = log.events ++ statement.body.assignments.map
      (Assignment.event ((⟨id, text⟩ : SourceFile).location statement.span)) := by
  have found : (log.addSource id text).1.sources.files[log.sources.size]? = some ⟨id, text⟩ :=
    log.sources.getElem?_add id text
  have place : (log.addSource id text).1.location statement.span =
      (⟨id, text⟩ : SourceFile).location statement.span := by
    have lies := Statement.liesIn_of_parseSource read statement List.mem_cons_self
    rw [← SourceMap.location_inFile found, Span.inFile, ← lies.span.file]
    rfl
  rw [(of_assignAll_eq_ok run).2, place]
  rfl

end Log

/-- The entry as if it stood in a source of the given name. -/
def Event.named (name : String) : Event → Event
  | .binding event => .binding { event with origin.file := name }
  | .macroDef event => .macroDef { event with origin.file := name }

theorem Assignment.named_event (assignment : Assignment) (name other text : String) (span : Span) :
    (assignment.event ((⟨other, text⟩ : SourceFile).location span)).named name =
      assignment.event ((⟨name, text⟩ : SourceFile).location span) := by
  cases assignment <;> rfl

/-! ## The calls -/

namespace Loading

variable {registry : Registry}

theorem attempt_of_ok {act : Attempt Log Unit} {loading : Loading} {after : Log}
    (run : act loading.log = (.ok (), after)) :
    loading.attempt act = (.ok (), { loading with log := after }) := by
  unfold attempt Log.keepSize
  rw [run]

theorem of_applyBinding_eq_ok {loading next : Loading} {text : String}
    (run : loading.applyBinding text = (.ok (), next)) :
    Log.readBinding (directId loading.directBindings) text loading.log = (.ok (), next.log) := by
  have attempted : attempt ⟨loading.log, loading.directBindings + 1⟩
      (Log.readBinding (directId loading.directBindings) text) = (.ok (), next) := run
  have kept := of_attempt_eq_ok attempted
  exact Log.of_keepSize_eq_ok kept

theorem of_loadText_eq_ok {load : SourceLoader} {loading last : Loading} {id text : String}
    (run : loading.loadText registry load id text = (.ok (), last)) :
    Log.readSource registry load SourceMap.capacity ⟨id, text⟩ .empty none loading.log =
      (.ok (), last.log) :=
  Log.of_keepSize_eq_ok (of_attempt_eq_ok run)

/-- Whatever calls a loader took, a single binding succeeds if and only if its text is one
assignment and loads as a file, whatever name the file is given. Then both append the same entries,
which tell the same lines and columns. Whatever calls follow, each ends alike after both, and the
logs, the tables and the nodes in the end are alike. -/
theorem applyBinding_agrees {loading : Loading} (reachable : Reachable registry loading)
    (load : SourceLoader) (number : Nat) (id text : String) :
    ((∃ next, loading.applyBinding text = (.ok (), next)) ↔
      (∃ statement, Statement.parseSource number text = .ok [statement] ∧
        statement.isAssignment = true) ∧
      ∃ last, loading.loadText registry load id text = (.ok (), last)) ∧
    ∀ next last, loading.applyBinding text = (.ok (), next) →
      loading.loadText registry load id text = (.ok (), last) →
      (∃ added, next.log.events = loading.log.events ++ added ∧
        last.log.events = loading.log.events ++ added.map (Event.named id)) ∧
      ∀ (later : SourceLoader) (calls : List LoadCall),
        (∀ call : LoadCall,
          SameEnd Eq (call.run registry later (LoadCall.after registry later calls next)).1
            (call.run registry later (LoadCall.after registry later calls last)).1) ∧
        (LoadCall.after registry later calls next).Alike registry
          (LoadCall.after registry later calls last) := by
  have fuelled : 0 < SourceMap.capacity := by decide
  have sameEnd {statement : Statement} (room : loading.log.sources.size < SourceMap.capacity)
      (read : Statement.parseSource loading.log.sources.size text = .ok [statement])
      (isAssignment : statement.isAssignment = true) :
      SameEnd Eq (Log.readBinding (directId loading.directBindings) text loading.log).1
          (Log.readSource registry load SourceMap.capacity ⟨id, text⟩ .empty none loading.log).1 ∧
        (Log.readBinding (directId loading.directBindings) text loading.log).2.SaysSame
          (Log.readSource registry load SourceMap.capacity ⟨id, text⟩ .empty none loading.log).2 :=
    Log.sameEnd_readBinding room read isAssignment _ fuelled
  refine ⟨⟨?_, ?_⟩, ?_⟩
  · rintro ⟨next, run⟩
    have run := of_applyBinding_eq_ok run
    obtain ⟨room, statement, read, isAssignment⟩ := Log.exists_statement_of_readBinding run
    have ends := (sameEnd room read isAssignment).1
    rw [run] at ends
    exact ⟨(Statement.exists_single_iff _ _ _).mp ⟨statement, read, isAssignment⟩, _,
      attempt_of_ok (Prod.ext ((ends.eq_ok_iff ()).mp rfl) rfl)⟩
  · rintro ⟨single, last, run⟩
    have run := of_loadText_eq_ok run
    obtain ⟨statement, read, isAssignment⟩ := (Statement.exists_single_iff _ _ _).mp single
    have ends := (sameEnd (Log.room_of_readSource run) read isAssignment).1
    rw [run] at ends
    exact ⟨_, attempt_of_ok (Prod.ext ((ends.eq_ok_iff ()).mpr rfl) rfl)⟩
  · intro next last run other
    have nextReachable := (LoadCall.applyBinding text).reachable_of_run registry load reachable run
    have lastReachable :=
      (LoadCall.loadText id text).reachable_of_run registry load reachable other
    have run := of_applyBinding_eq_ok run
    have other := of_loadText_eq_ok other
    obtain ⟨room, statement, read, isAssignment⟩ := Log.exists_statement_of_readBinding run
    have same := (sameEnd room read isAssignment).2
    rw [run, other] at same
    refine ⟨⟨_, Log.events_of_assignAll read (Log.readBinding_eq room read isAssignment ▸ run), ?_⟩,
      fun later calls => ?_⟩
    · rw [Log.events_of_assignAll read (Log.readSource_eq room read isAssignment fuelled ▸ other),
        List.map_map]
      exact congrArg (loading.log.events ++ ·)
        (List.map_congr_left fun assignment _ => (assignment.named_event id _ text _).symm)
    · have logs : (LoadCall.after registry later calls next).log.SaysSame
          (LoadCall.after registry later calls last).log := LoadCall.saysSame_after calls same
      exact ⟨fun call => (LoadCall.sameEnd_run logs call).1,
        same.alike_after nextReachable lastReachable later calls⟩

/-- A block with a macro in it, behind the entries of two files. -/
theorem applyBinding_agrees_fromSources :
    ∃ next last, fromSources.applyBinding "a/Loop: \x7b next = [%n, @Box], \x7d" = (.ok (), next) ∧
      fromSources.loadText .sample (MemorySources.load ⟨[]⟩) "text"
        "a/Loop: \x7b next = [%n, @Box], \x7d" = (.ok (), last) ∧
      next.log.size = fromSources.log.size + 1 ∧
      (Config.ofLoading .sample next).isOk = true ∧
      (∃ added, next.log.events = fromSources.log.events ++ added ∧
        last.log.events = fromSources.log.events ++ added.map (Event.named "text")) ∧
      next.Alike .sample last := by
  have reachable : Reachable .sample fromSources :=
    .applyBinding _ (.loadText _ _ _ (.process _ _ _ .start))
  have ends : (fromSources.applyBinding "a/Loop: \x7b next = [%n, @Box], \x7d").1.isOk = true ∧
      (fromSources.applyBinding "a/Loop: \x7b next = [%n, @Box], \x7d").2.log.size =
        fromSources.log.size + 1 ∧
      (Config.ofLoading .sample
        (fromSources.applyBinding "a/Loop: \x7b next = [%n, @Box], \x7d").2).isOk = true := by
    decide +kernel
  obtain ⟨succeeds, size, finishes⟩ := ends
  obtain ⟨next, run⟩ := exists_of_isOk succeeds
  rw [run] at size finishes
  obtain ⟨agrees, same⟩ := applyBinding_agrees reachable (MemorySources.load ⟨[]⟩) 0 "text"
    "a/Loop: \x7b next = [%n, @Box], \x7d"
  obtain ⟨_, last, other⟩ := agrees.mp ⟨next, run⟩
  obtain ⟨events, later⟩ := same next last run other
  exact ⟨next, last, run, other, size, finishes, events, (later (MemorySources.load ⟨[]⟩) []).2⟩

end Loading

end ConfigBinding
