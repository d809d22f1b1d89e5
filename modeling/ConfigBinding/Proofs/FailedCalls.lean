import ConfigBinding.Proofs.Contributions
import Mathlib.Data.List.Forall2

/-!
# Calls that fail can be left out

A call that fails leaves sources behind, and a single binding that fails uses up a number. So a
loader that is never asked for what fails has other source numbers and other names of single
bindings, but the same entries otherwise. It is shown that these differences never reach beyond
spans and the names of single bindings: each call that succeeds does so in both loaders, and they
come to alike logs and to alike tables.

Results:
1. `Log.follows_readSource`: what is read without failure after failing calls is read alike without
   them.
2. `Log.replay_alike`: alike logs have alike tables, or fail for the same reason.
3. `LoadCall.failing_calls_erasable`: failing calls change nothing, and leaving them out changes
   nothing either.
-/

namespace ConfigBinding

/-! ## What says the same -/

/-- One name, or two names of single bindings, which may differ in their number. -/
def SourceFile.AlikeNames (first second : String) : Prop :=
  first = second ∨ ∃ k l, first = Loading.directId k ∧ second = Loading.directId l

structure Location.Alike (first second : Location) : Prop where
  file : SourceFile.AlikeNames first.file second.file
  line : first.line = second.line
  column : first.column = second.column

structure BindingEvent.Alike (first second : BindingEvent) : Prop where
  key : first.key = second.key
  value : first.value.withoutSpans = second.value.withoutSpans
  origin : first.origin.Alike second.origin

structure MacroEvent.Alike (first second : MacroEvent) : Prop where
  name : first.name = second.name
  value : first.value.withoutSpans = second.value.withoutSpans
  origin : first.origin.Alike second.origin

/-- Two entries with one key or macro name, one value apart from spans, and alike places. -/
inductive Event.Alike : Event → Event → Prop
  | binding {first second : BindingEvent} :
      first.Alike second → Alike (.binding first) (.binding second)
  | macroDef {first second : MacroEvent} :
      first.Alike second → Alike (.macroDef first) (.macroDef second)

/-- One error, perhaps at alike places. -/
def ConfigError.Alike (first second : ConfigError) : Prop :=
  ∃ (error : ConfigError) (place other : Location), place.Alike other ∧
    first = error.at? place ∧ second = error.at? other

/-- The same parameters, each with alike bindings. -/
def BindingTable.Alike (first second : BindingTable) : Prop :=
  List.Forall₂ (fun one other => one.1 = other.1 ∧ List.Forall₂ BindingEvent.Alike one.2 other.2)
    first.entries second.entries

/-- Two assignments that differ in spans alone. -/
inductive Assignment.Alike : Assignment → Assignment → Prop
  | macroDef (name : String) {first second : Expr} :
      first.withoutSpans = second.withoutSpans →
      Alike (.macroDef name first) (.macroDef name second)
  | binding (key : BindingKey) {first second : Expr} :
      first.withoutSpans = second.withoutSpans → Alike (.binding key first) (.binding key second)

theorem Assignment.Alike.value {first second : Assignment} (alike : first.Alike second) :
    first.value.withoutSpans = second.value.withoutSpans := by
  cases alike with
  | macroDef _ same => exact same
  | binding _ same => exact same

theorem Assignment.Alike.event {first second : Assignment} (alike : first.Alike second)
    {place other : Location} (places : place.Alike other) :
    (first.event place).Alike (second.event other) := by
  cases alike with
  | macroDef name same => exact .macroDef ⟨rfl, same, places⟩
  | binding key same => exact .binding ⟨rfl, same, places⟩

theorem Assignment.Alike.index {first second : Assignment} (alike : first.Alike second)
    (number : Nat) (index : List (String × Nat)) :
    first.index number index = second.index number index := by
  cases alike with
  | macroDef name same => rfl
  | binding key same => rfl

/-! ## Statements under two numbers -/

theorem Expr.withoutSpans_inFile (n : Nat) (e : Expr) :
    (e.inFile n).withoutSpans = e.withoutSpans :=
  e.mapSpans_mapSpans _ _

theorem FileScope.canonicalValue_alike (scope : FileScope) (registry : Registry)
    {first second : Expr} (same : first.withoutSpans = second.withoutSpans) :
    (scope.canonicalValue registry first).withoutSpans =
      (scope.canonicalValue registry second).withoutSpans := by
  unfold canonicalValue
  split
  · unfold Expr.withoutSpans at same ⊢
    rw [← Expr.mapReferences_mapSpans, ← Expr.mapReferences_mapSpans, same]
  · exact same

theorem Assignment.Alike.canonical (scope : FileScope) (registry : Registry)
    {first second : Assignment} (alike : first.Alike second) :
    (first.canonical scope registry).Alike (second.canonical scope registry) := by
  cases alike with
  | macroDef name same => exact .macroDef name (scope.canonicalValue_alike registry same)
  | binding key same => exact .binding _ (scope.canonicalValue_alike registry same)

theorem Assignment.inFile_alike (n m : Nat) (assignment : Assignment) :
    (assignment.inFile n).Alike (assignment.inFile m) := by
  have same (value : Expr) : (value.inFile n).withoutSpans = (value.inFile m).withoutSpans := by
    rw [Expr.withoutSpans_inFile, Expr.withoutSpans_inFile]
  cases assignment with
  | macroDef name value => exact .macroDef name (same value)
  | binding key value => exact .binding key (same value)

/-- A statement makes alike assignments under whatever numbers it is read. -/
theorem StatementBody.assignments_alike (body : StatementBody) (n m : Nat) :
    List.Forall₂ Assignment.Alike (body.inFile n).assignments (body.inFile m).assignments := by
  rw [assignments_inFile, assignments_inFile, List.forall₂_map_left_iff,
    List.forall₂_map_right_iff]
  exact List.forall₂_same.mpr fun assignment _ => assignment.inFile_alike n m

/-! ## Logs with the same entries -/

namespace SourceMap

/-- The numbers belong to sources with one text and alike names. -/
def Shared (sources others : SourceMap) (n m : Nat) : Prop :=
  ∃ source other, sources.files[n]? = some source ∧ others.files[m]? = some other ∧
    source.text = other.text ∧ SourceFile.AlikeNames source.name other.name

theorem Shared.location {sources others : SourceMap} {n m : Nat}
    (shared : Shared sources others n m) (span : Span) :
    (sources.location (span.inFile n)).Alike (others.location (span.inFile m)) := by
  obtain ⟨⟨name, text⟩, ⟨other, same⟩, found, foundOther, rfl, names⟩ := shared
  rw [location_inFile found, location_inFile foundOther]
  exact ⟨names, rfl, rfl⟩

theorem Shared.add {sources others : SourceMap} {n m : Nat} (shared : Shared sources others n m)
    (name other text text' : String) :
    Shared (sources.add name text).1 (others.add other text').1 n m := by
  obtain ⟨source, otherSource, found, foundOther, same⟩ := shared
  refine ⟨source, otherSource, ?_, ?_, same⟩
  · exact (List.getElem?_append_left (List.getElem?_eq_some_iff.mp found).1).trans found
  · exact (List.getElem?_append_left (List.getElem?_eq_some_iff.mp foundOther).1).trans foundOther

theorem shared_add (sources others : SourceMap) {name other : String} (text : String)
    (names : SourceFile.AlikeNames name other) :
    Shared (sources.add name text).1 (others.add other text).1 sources.size others.size :=
  ⟨⟨name, text⟩, ⟨other, text⟩, sources.getElem?_add name text, others.getElem?_add other text, rfl,
    names⟩

end SourceMap

namespace Log

/-- The logs have alike entries, and `other` has no more sources. The sources that are being read
have one text under the two numbers of each pair. -/
structure Mirrors (reading : List (Nat × Nat)) (log other : Log) : Prop where
  events : List.Forall₂ Event.Alike log.events other.events
  macroIndex : log.macroIndex = other.macroIndex
  room : other.sources.size ≤ log.sources.size
  sources : ∀ n m, (n, m) ∈ reading → log.sources.Shared other.sources n m

theorem mirrors_empty : Mirrors [] empty empty :=
  ⟨.nil, rfl, Nat.le_refl _, fun _ _ member => nomatch member⟩

theorem Mirrors.undefinedMacro? {reading : List (Nat × Nat)} {log other : Log}
    (mirrors : Mirrors reading log other) {value same : Expr}
    (alike : value.withoutSpans = same.withoutSpans)
    (defined : log.undefinedMacro? value = none) : other.undefinedMacro? same = none := by
  rw [undefinedMacro?_eq_none] at defined ⊢
  rw [← same.macroRefs_withoutSpans, ← alike, value.macroRefs_withoutSpans, ← mirrors.macroIndex]
  exact defined

/-- The second attempt succeeds wherever the first does, and leaves an alike log. -/
def Follows (reading : List (Nat × Nat)) (act second : Attempt Log Unit) : Prop :=
  ∀ log other after, Mirrors reading log other → act log = (.ok (), after) →
    ∃ last, second other = (.ok (), last) ∧ Mirrors reading after last

variable {reading : List (Nat × Nat)}

theorem follows_fail {error : ConfigError} {second : Attempt Log Unit} :
    Follows reading (Attempt.fail error) second :=
  fun _ _ _ _ run => nomatch run

theorem follows_reject {error : SyntaxError} {second : Attempt Log Unit} :
    Follows reading (reject error) second :=
  fun _ _ _ _ run => nomatch run

theorem follows_pure : Follows reading (pure ()) (pure ()) := by
  intro log other after mirrors run
  cases run
  exact ⟨other, rfl, mirrors⟩

theorem follows_bind {act second actNext secondNext : Attempt Log Unit}
    (first : Follows reading act second) (next : Follows reading actNext secondNext) :
    Follows reading (act >>= fun _ => actNext) (second >>= fun _ => secondNext) := by
  intro log other after mirrors run
  obtain ⟨_, middle, begun, run⟩ := Attempt.ok_of_bind_run run
  obtain ⟨otherMiddle, otherBegun, mirrors⟩ := first log other middle mirrors begun
  rw [Attempt.bind_ok otherBegun]
  exact next middle otherMiddle after mirrors run

/-- A source is read in both logs, from then on under a number of its own in each. -/
theorem follows_openSource {name other : String} (text : String)
    (names : SourceFile.AlikeNames name other) {next second : Nat → Attempt Log Unit}
    (each : ∀ n m, Follows ((n, m) :: reading) (next n) (second m)) :
    Follows reading (openSource name text >>= next) (openSource other text >>= second) := by
  intro log mirror after mirrors run
  by_cases room : log.sources.size < SourceMap.capacity
  · -- The other log has no more sources, so there is room in it as well.
    have mirrorRoom := Nat.lt_of_le_of_lt mirrors.room room
    rw [Attempt.bind_ok (openSource_of_lt room name text)] at run
    rw [Attempt.bind_ok (openSource_of_lt mirrorRoom other text)]
    have added : Mirrors ((log.sources.size, mirror.sources.size) :: reading)
        (log.addSource name text).1 (mirror.addSource other text).1 := by
      refine ⟨mirrors.events, mirrors.macroIndex, ?_, fun n m member => ?_⟩
      · show (mirror.sources.add other text).1.size ≤ (log.sources.add name text).1.size
        rw [SourceMap.size_add, SourceMap.size_add]
        exact Nat.succ_le_succ mirrors.room
      · rcases List.mem_cons.mp member with new | old
        · cases new
          exact SourceMap.shared_add _ _ text names
        · exact (mirrors.sources n m old).add name other text text
    obtain ⟨last, ends, mirrors⟩ := each _ _ _ _ after added run
    exact ⟨last, ends, mirrors.events, mirrors.macroIndex, mirrors.room,
      fun n m member => mirrors.sources n m (List.mem_cons_of_mem _ member)⟩
  · rw [Attempt.bind_error (openSource_of_not_lt room name text)] at run
    cases run

/-- Alike assignments of one statement can be made in both logs. -/
theorem follows_assign {n m : Nat} (member : (n, m) ∈ reading) (span : Span)
    {assignment same : Assignment} (alike : assignment.Alike same) :
    Follows reading (Attempt.tryModify fun log => log.assign (span.inFile n) assignment)
      (Attempt.tryModify fun log => log.assign (span.inFile m) same) := by
  intro log other after mirrors run
  obtain ⟨defined, rfl⟩ := assign_eq_ok.mp (Attempt.tryModify_eq_ok.mp run)
  refine ⟨other.assigned (span.inFile m) same, ?_, ?_, ?_, mirrors.room, mirrors.sources⟩
  · exact Attempt.tryModify_eq_ok.mpr
      (assign_eq_ok.mpr ⟨mirrors.undefinedMacro? alike.value defined, rfl⟩)
  · exact List.rel_append mirrors.events
      (.cons (alike.event ((mirrors.sources n m member).location span)) .nil)
  · unfold assigned
    rw [alike.index, mirrors.events.length_eq, mirrors.macroIndex]

theorem follows_assignAll {n m : Nat} (member : (n, m) ∈ reading) (span : Span)
    {assignments same : List Assignment} (alike : List.Forall₂ Assignment.Alike assignments same) :
    Follows reading (assignAll (span.inFile n) assignments) (assignAll (span.inFile m) same) := by
  induction alike with
  | nil => exact follows_pure
  | cons first _ ih => exact follows_bind (follows_assign member span first) ih

theorem follows_runStatements (registry : Registry) {n m : Nat} (member : (n, m) ∈ reading)
    {includeFile includeOther : String → Location → Attempt Log Unit}
    (files : ∀ path place other,
      Follows reading (includeFile path place) (includeOther path other))
    (scope : FileScope) (statements : List Statement) :
    Follows reading
      (runStatements registry includeFile scope (statements.map (Statement.inFile n)))
      (runStatements registry includeOther scope (statements.map (Statement.inFile m))) := by
  induction statements generalizing scope with
  | nil => exact follows_pure
  | cons statement statements ih =>
    obtain ⟨body, span⟩ := statement
    have assigns := follows_assignAll member span (by
      have alike := body.assignments_alike n m
      exact List.rel_map (fun _ _ each => each.canonical scope registry) alike)
    cases body with
    | importPath imported => exact ih _
    | dynamicRegistration => exact ih _
    | includeFile path =>
      intro log other after mirrors run
      exact follows_bind (files path (log.location (span.inFile n))
        (other.location (span.inFile m))) (ih scope) log other after mirrors run
    | macroDef name value => exact follows_bind assigns (ih scope)
    | binding bound => exact follows_bind assigns (ih scope)

/-- The induction is on the fuel: a file that is included has less of it. -/
theorem follows_readSource (registry : Registry) (load : SourceLoader) (fuel : Nat)
    (source : LoadedSource) (chain : IncludeChain) (site other : Option Location) :
    Follows reading (readSource registry load fuel source chain site)
      (readSource registry load fuel source chain other) := by
  induction fuel generalizing reading source chain site other with
  | zero => exact follows_fail
  | succ fuel ih =>
    unfold readSource
    dsimp only
    split
    · exact follows_fail
    · refine follows_openSource source.text (.inl rfl) fun n m => ?_
      -- One text is read under two numbers, which is compared with reading it under the number 0.
      rw [Statement.parseSource_inFile n 0, Statement.parseSource_inFile m 0]
      cases Statement.parseSource 0 source.text with
      | error error => exact follows_reject
      | ok statements =>
        refine follows_runStatements registry List.mem_cons_self (fun path place other => ?_)
          .start statements
        split
        · exact follows_fail
        · exact ih _ _ _ _

theorem follows_readFile (registry : Registry) (load : SourceLoader) (path : String)
    (chain : IncludeChain) :
    Follows reading (readFile registry load path chain) (readFile registry load path chain) := by
  unfold readFile
  split
  · exact follows_fail
  · exact follows_readSource registry load _ _ chain none none

theorem follows_readBinding (k l : Nat) (text : String) :
    Follows reading (readBinding (Loading.directId k) text)
      (readBinding (Loading.directId l) text) := by
  refine follows_openSource text (.inr ⟨k, l, rfl, rfl⟩) fun n m => ?_
  rw [Statement.parseAssignmentText_inFile n 0, Statement.parseAssignmentText_inFile m 0]
  cases Statement.parseAssignmentText 0 text with
  | error error => exact follows_reject
  | ok statement =>
    exact follows_assignAll List.mem_cons_self statement.span (statement.body.assignments_alike n m)

theorem follows_keepSize {act second : Attempt Log Unit} (follows : Follows reading act second) :
    Follows reading (keepSize act) (keepSize second) := by
  intro log other after mirrors run
  obtain ⟨last, ends, mirrors⟩ := follows log other after mirrors (of_keepSize_eq_ok run)
  refine ⟨last, ?_, mirrors⟩
  unfold keepSize
  rw [ends]

end Log

/-! ## Tables of alike logs -/

namespace BindingTable

theorem insert_alike {α : Type} {R : α → α → Prop} (key : BindingKey) {a b : α} (new : R a b)
    {entries others : List (BindingKey × α)}
    (alike : List.Forall₂ (fun one other => one.1 = other.1 ∧ R one.2 other.2) entries others) :
    List.Forall₂ (fun one other => one.1 = other.1 ∧ R one.2 other.2)
      (Entries.insert key a entries) (Entries.insert key b others) := by
  induction alike with
  | nil => exact .cons ⟨rfl, new⟩ .nil
  | @cons one other entries others first rest ih =>
    obtain ⟨sameKey, values⟩ := first
    rw [Entries.insert, Entries.insert, sameKey]
    split
    · exact .cons ⟨rfl, new⟩ rest
    · exact .cons ⟨rfl, values⟩ ih

theorem Alike.history {table other : BindingTable} (alike : table.Alike other) (key : BindingKey) :
    List.Forall₂ BindingEvent.Alike (table.history key) (other.history key) := by
  obtain ⟨entries⟩ := table
  obtain ⟨others⟩ := other
  change List.Forall₂ _ entries others at alike
  unfold BindingTable.history
  dsimp only
  induction alike with
  | nil => exact .nil
  | @cons one other entries others first rest ih =>
    obtain ⟨sameKey, values⟩ := first
    rw [Entries.get?, Entries.get?, sameKey]
    split
    · exact values
    · exact ih

theorem Alike.insert {table other : BindingTable} (alike : table.Alike other)
    {event same : BindingEvent} (events : event.Alike same) :
    (table.insert event).Alike (other.insert same) := by
  unfold BindingTable.insert Entries.update
  rw [events.key]
  exact insert_alike same.key
    (List.rel_append (alike.history same.key) (.cons events .nil)) alike

end BindingTable

/-- Alike bindings bind one parameter, or fail to for one reason. -/
theorem BindingEvent.Alike.canonical {event same : BindingEvent} (alike : event.Alike same)
    (registry : Registry) :
    (∃ error other, event.canonical registry = .error error ∧
      same.canonical registry = .error other ∧ error.Alike other) ∨
    ∃ renamed other, event.canonical registry = .ok renamed ∧
      same.canonical registry = .ok other ∧ renamed.Alike other := by
  obtain ⟨key, value, origin⟩ := event
  obtain ⟨otherKey, sameValue, otherOrigin⟩ := same
  obtain ⟨rfl, values, origins⟩ := alike
  unfold BindingEvent.canonical
  cases registry.lookup key.symbol with
  | error error => exact .inl ⟨_, _, rfl, rfl, error, origin, otherOrigin, origins, rfl, rfl⟩
  | ok registration =>
    dsimp only
    split
    · exact .inr ⟨_, _, rfl, rfl, rfl, values, origins⟩
    · exact .inl ⟨_, _, rfl, rfl, .unknownParameter registration.name.toText key.param none,
        origin, otherOrigin, origins, rfl, rfl⟩

/-- Two ways to end: with alike results, or with alike errors. -/
inductive EndAlike {α : Type} (R : α → α → Prop) :
    Except ConfigError α → Except ConfigError α → Prop
  | ok {result other : α} : R result other → EndAlike R (.ok result) (.ok other)
  | error {error other : ConfigError} :
      error.Alike other → EndAlike R (.error error) (.error other)

namespace Log

theorem bindings_alike {log other : Log}
    (alike : List.Forall₂ Event.Alike log.events other.events) :
    List.Forall₂ BindingEvent.Alike log.bindings other.bindings := by
  obtain ⟨_, events, _⟩ := log
  obtain ⟨_, others, _⟩ := other
  change List.Forall₂ Event.Alike events others at alike
  unfold bindings
  dsimp only
  induction alike with
  | nil => exact .nil
  | cons first _ ih =>
    cases first with
    | binding events => exact .cons events ih
    | macroDef events => exact ih

/-- The induction is on the bindings: each is added to alike tables. -/
theorem foldlM_alike (registry : Registry) {events others : List BindingEvent}
    (alike : List.Forall₂ BindingEvent.Alike events others) {table start : BindingTable}
    (tables : table.Alike start) :
    EndAlike BindingTable.Alike
      (events.foldlM (fun table event => (event.canonical registry).map table.insert) table)
      (others.foldlM (fun table event => (event.canonical registry).map table.insert) start) := by
  induction alike generalizing table start with
  | nil => exact .ok tables
  | cons first _ ih =>
    rw [List.foldlM_cons, List.foldlM_cons]
    obtain ⟨error, other, fails, otherFails, errors⟩ | ⟨renamed, other, found, otherFound, same⟩ :=
      first.canonical registry
    · rw [fails, otherFails]
      exact .error errors
    · rw [found, otherFound]
      exact ih (tables.insert same)

/-- The tables of alike logs are alike, and if a log has none the first wrong binding is alike. -/
theorem replay_alike {log other : Log} (alike : List.Forall₂ Event.Alike log.events other.events)
    (registry : Registry) :
    EndAlike BindingTable.Alike (log.replay registry) (other.replay registry) :=
  foldlM_alike registry (bindings_alike alike) .nil

end Log

/-! ## Runs of a loader -/

namespace LoadCall

variable (registry : Registry) (load : SourceLoader)

/-- The loader after calls, of which some may fail. -/
def after (calls : List LoadCall) (loading : Loading) : Loading :=
  calls.foldl (fun loading call => (call.run registry load loading).2) loading

/-- The calls that succeed when all are made. -/
def succeeding : List LoadCall → Loading → List LoadCall
  | [], _ => []
  | call :: calls, loading =>
    match call.run registry load loading with
    | (.ok (), next) => call :: succeeding calls next
    | (.error _, next) => succeeding calls next

variable {registry load}

theorem reachable_after (calls : List LoadCall) {loading : Loading}
    (reachable : Loading.Reachable registry loading) :
    Loading.Reachable registry (after registry load calls loading) := by
  induction calls generalizing loading with
  | nil => exact reachable
  | cons call calls ih => exact ih (call.reachable_run registry load reachable)

/-- A call that succeeds does so after any calls that lead to an alike log. -/
theorem mirrors_of_ok {call : LoadCall} {loading other next : Loading}
    (mirrors : Log.Mirrors [] loading.log other.log)
    (succeeds : call.run registry load loading = (.ok (), next)) :
    ∃ last, call.run registry load other = (.ok (), last) ∧ Log.Mirrors [] next.log last.log := by
  -- The attempts are the same, except that single bindings have other names.
  have follows : Log.Follows [] (call.attempt registry load loading)
      (call.attempt registry load other) := by
    cases call with
    | loadFile path => exact Log.follows_readFile registry load path .empty
    | loadText id text => exact Log.follows_readSource registry load _ _ _ none none
    | process path chain => exact Log.follows_readFile registry load path chain
    | applyBinding text => exact Log.follows_readBinding _ _ text
  have result := call.run_fst registry load loading
  have log := call.run_log registry load loading
  rw [succeeds] at result log
  obtain ⟨last, ends, mirrors⟩ := Log.follows_keepSize follows loading.log other.log next.log
    mirrors (Prod.ext result.symm log.symm)
  have otherResult := call.run_fst registry load other
  have otherLog := call.run_log registry load other
  rw [ends] at otherResult otherLog
  exact ⟨_, Prod.ext otherResult rfl, otherLog ▸ mirrors⟩

/-- A call that fails leads to a log that is alike still. -/
theorem mirrors_of_error {call : LoadCall} {loading other next : Loading} {error : ConfigError}
    (reachable : Loading.Reachable registry loading)
    (mirrors : Log.Mirrors [] loading.log other.log)
    (fails : call.run registry load loading = (.error error, next)) :
    Log.Mirrors [] next.log other.log := by
  obtain ⟨sameEvents, sameIndex⟩ := run_error reachable fails
  have grown := call.sources_run registry load loading
  rw [fails] at grown
  exact ⟨sameEvents ▸ mirrors.events, sameIndex.trans mirrors.macroIndex,
    Nat.le_trans mirrors.room grown, fun _ _ member => nomatch member⟩

variable (registry load)

/-- What succeeds when all calls are made also succeeds alone, and leads to an alike log. The
induction is on the calls, with the second loader behind those that succeeded. -/
theorem runCalls_succeeding (calls : List LoadCall) {loading other : Loading}
    (reachable : Loading.Reachable registry loading)
    (mirrors : Log.Mirrors [] loading.log other.log) :
    ∃ final, Config.runCalls ((succeeding registry load calls loading).map (run registry load))
        other = .ok final ∧
      Log.Mirrors [] (after registry load calls loading).log final.log := by
  induction calls generalizing loading other with
  | nil => exact ⟨other, rfl, mirrors⟩
  | cons call calls ih =>
    have next := call.reachable_run registry load reachable
    unfold succeeding after
    rw [List.foldl_cons]
    cases ended : call.run registry load loading with
    | mk result middle =>
      rw [ended] at next
      cases result with
      | error error => exact ih next (mirrors_of_error reachable mirrors ended)
      | ok _ =>
        obtain ⟨last, otherEnded, mirrors⟩ := mirrors_of_ok mirrors ended
        obtain ⟨final, runs, same⟩ := ih next mirrors
        refine ⟨final, ?_, same⟩
        unfold Config.runCalls at runs ⊢
        rw [List.map_cons, List.foldlM_cons, otherEnded]
        exact runs

/-- In any sequence of calls, a call that fails leaves the entries of the log and the meaning of
every macro as they were. Without the calls that fail, all others succeed as well, the entries are
alike one by one, and loading ends with an alike table or with an alike error. -/
theorem failing_calls_erasable (calls : List LoadCall) :
    (∀ earlier call later error next, calls = earlier ++ call :: later →
      call.run registry load (after registry load earlier .start) = (.error error, next) →
      next.log.events = (after registry load earlier .start).log.events ∧
        ∀ name, next.log.macro? name = (after registry load earlier .start).log.macro? name) ∧
    ∃ final, Config.runCalls ((succeeding registry load calls .start).map (run registry load))
        .start = .ok final ∧
      List.Forall₂ Event.Alike (after registry load calls .start).log.events final.log.events ∧
      EndAlike (fun config other => config.table.Alike other.table)
        (Config.ofLoading registry (after registry load calls .start))
        (Config.ofLoading registry final) := by
  refine ⟨fun earlier call later error next _ fails => ?_, ?_⟩
  · obtain ⟨sameEvents, sameIndex⟩ := run_error (reachable_after earlier .start) fails
    refine ⟨sameEvents, fun name => ?_⟩
    unfold Log.macro?
    rw [sameEvents, sameIndex]
  · have start : Log.Mirrors [] Loading.start.log Loading.start.log := Log.mirrors_empty
    obtain ⟨final, runs, mirrors⟩ := runCalls_succeeding registry load calls .start start
    refine ⟨final, runs, mirrors.events, ?_⟩
    have ends := Log.replay_alike mirrors.events registry
    unfold Config.ofLoading
    generalize (after registry load calls .start).log.replay registry = first,
      final.log.replay registry = second at ends ⊢
    cases ends with
    | ok tables => exact .ok tables
    | error errors => exact .error errors

/-- Defines a macro and uses it. -/
def sampleBase : LoadCall := .loadText "base" "n = 1 Leaf.size = %n"

/-- Defines the macro anew, and fails. -/
def sampleWorse : LoadCall := .loadText "worse" "n = 2 Leaf.size = %n Leaf.size = %unknown"

def sampleLast : LoadCall := .applyBinding "Leaf.size = 3"

/-- Of two texts the second fails, and of two bindings the first, which has no value. -/
def sample : List LoadCall :=
  [sampleBase, sampleWorse, .applyBinding "Leaf.size =", sampleLast]

/-- Only sources that are given as texts. -/
def noFiles : SourceLoader := fun _ _ => .error .notInMemory

theorem failing_calls_erasable_sample :
    (∃ error next,
      sampleWorse.run .sample noFiles (after .sample noFiles [sampleBase] .start) =
        (.error error, next) ∧
      ∀ name, next.log.macro? name =
        (after .sample noFiles [sampleBase] .start).log.macro? name) ∧
    succeeding .sample noFiles sample .start = [sampleBase, sampleLast] ∧
    ∃ final, Config.runCalls ([sampleBase, sampleLast].map (run .sample noFiles)) .start =
        .ok final ∧
      List.Forall₂ Event.Alike (after .sample noFiles sample .start).log.events
        final.log.events := by
  obtain ⟨unchanged, final, runs, alike, _⟩ := failing_calls_erasable .sample noFiles sample
  have fails : (sampleWorse.run .sample noFiles
      (after .sample noFiles [sampleBase] .start)).1.isOk = false := by
    decide +kernel
  have rest : succeeding .sample noFiles sample .start = [sampleBase, sampleLast] := by
    decide +kernel
  rw [rest] at runs
  refine ⟨?_, rest, final, runs, alike⟩
  cases ended : sampleWorse.run .sample noFiles (after .sample noFiles [sampleBase] .start) with
  | mk result next =>
    rw [ended] at fails
    cases result with
    | ok _ => cases fails
    | error error =>
      exact ⟨error, next, rfl, (unchanged [sampleBase] sampleWorse _ error next rfl ended).2⟩

end LoadCall

end ConfigBinding
