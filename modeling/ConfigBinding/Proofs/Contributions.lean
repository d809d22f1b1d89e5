import ConfigBinding.Proofs.LoadCalls
import ConfigBinding.Proofs.SourceNumbers

/-!
# What files contribute

A file that is read adds entries to a log: each of its assignments adds an entry, and an inclusion
adds those of the file that it names. Here this is laid down by rules in which no log occurs. So the
log that a file is read into can matter in two ways only: a macro may be missing from it, or it may
have too few source numbers left.

Results:
1. `Log.exists_contribution`: what is read without failure contributes something by the rules.
2. `Contribution.outcome`: what contributes entries by the rules adds these entries to any log that
   lacks no macro for them and has room for the sources; otherwise it fails for that reason.
-/

namespace ConfigBinding

/-! ## Entries under other numbers -/

theorem Expr.inFile_inFile (n m : Nat) (e : Expr) : (e.inFile n).inFile m = e.inFile m :=
  e.mapSpans_mapSpans _ _

/-- The macros that an expression names, as the index of a log knows them. -/
def Expr.macroNames (e : Expr) : List String := e.macroRefs.map fun mention => mention.1.toText

theorem Expr.macroNames_inFile (n : Nat) (e : Expr) : (e.inFile n).macroNames = e.macroNames := by
  unfold macroNames inFile
  rw [macroRefs_mapSpans, List.map_map]
  rfl

namespace Event

/-- The entry as it is read from a source with the given number. -/
def inFile (number : Nat) : Event → Event
  | .binding event => .binding { event with value := event.value.inFile number }
  | .macroDef event => .macroDef { event with value := event.value.inFile number }

def Defines (name : String) : Event → Prop
  | .binding _ => False
  | .macroDef event => event.name = name

theorem inFile_inFile (n m : Nat) (event : Event) : (event.inFile n).inFile m = event.inFile m := by
  cases event <;> simp only [inFile, Expr.inFile_inFile]

end Event

namespace Assignment

def inFile (number : Nat) : Assignment → Assignment
  | .macroDef name value => .macroDef name (value.inFile number)
  | .binding key value => .binding key (value.inFile number)

theorem event_inFile (n : Nat) (assignment : Assignment) (place : Location) :
    (assignment.inFile n).event place = (assignment.event place).inFile n := by
  cases assignment <;> rfl

theorem index_inFile (n number : Nat) (index : List (String × Nat)) (assignment : Assignment) :
    (assignment.inFile n).index number index = assignment.index number index := by
  cases assignment <;> rfl

/-- The index knows a macro more if the entry defines one. -/
theorem contains_index (assignment : Assignment) (number : Nat) (index : List (String × Nat))
    (place : Location) (name : String) :
    Entries.contains name (assignment.index number index) = true ↔
      Entries.contains name index = true ∨ (assignment.event place).Defines name := by
  cases assignment with
  | macroDef defined value =>
    simp only [Assignment.index, Entries.contains, Entries.get?_insert, event, Event.Defines]
    split <;> simp_all
  | binding key value => simp [Assignment.index, event, Event.Defines]

theorem canonical_inFile (n : Nat) (scope : FileScope) (registry : Registry)
    (assignment : Assignment) :
    (assignment.inFile n).canonical scope registry =
      (assignment.canonical scope registry).inFile n := by
  have value (e : Expr) : scope.canonicalValue registry (e.inFile n) =
      (scope.canonicalValue registry e).inFile n := by
    unfold FileScope.canonicalValue
    split
    · exact Expr.mapReferences_mapSpans _ _ e
    · rfl
  cases assignment <;> simp only [inFile, canonical, value]

end Assignment

theorem StatementBody.assignments_inFile (n : Nat) (body : StatementBody) :
    (body.inFile n).assignments = body.assignments.map (Assignment.inFile n) := by
  cases body with
  | importPath imported => rfl
  | dynamicRegistration => rfl
  | includeFile path => rfl
  | macroDef name value => rfl
  | binding bound =>
    obtain ⟨scope, symbol, body⟩ := bound
    cases body with
    | single param value => rfl
    | block entries span =>
      simp only [inFile, assignments, Binding.parameters, BindingBody.inFile, List.map_map]
      rfl

/-! ## The rules -/

/-- A source as it is kept under its number. -/
def LoadedSource.file (source : LoadedSource) : SourceFile := ⟨source.id, source.text⟩

/-- What the statements behind this one depend on. -/
def FileScope.next (scope : FileScope) (statement : Statement) : FileScope :=
  match statement.body with
  | .importPath imported =>
    { scope with aliases := scope.aliases.insert imported.localName imported.path }
  | .dynamicRegistration => { scope with dynamic := true }
  | _ => scope

/-- What a statement depends on that has these statements ahead of it in its file. -/
def FileScope.after (statements : List Statement) : FileScope := statements.foldl .next .start

/-- The entries of a statement that includes nothing. -/
def Statement.entries (registry : Registry) (source : LoadedSource) (scope : FileScope)
    (statement : Statement) : List Event :=
  statement.body.assignments.map fun assignment =>
    (assignment.canonical scope registry).event (source.file.location statement.span)

/-- The path that an inclusion names. -/
def Statement.included? (statement : Statement) : Option String :=
  match statement.body with
  | .includeFile path => some path
  | _ => none

theorem FileScope.next_of_included {statement : Statement} {path : String}
    (includes : statement.included? = some path) (scope : FileScope) :
    scope.next statement = scope := by
  obtain ⟨body, span⟩ := statement
  cases body <;> cases includes
  rfl

/-- What the statements of a source contribute, one list of entries for each of them, and how many
sources are read on the way. Of the files that are being read the source itself is the last.

* `own`: a statement that includes nothing gives its entries. An import has none, but the statements
  behind it depend on it.
* `inclusion`: an included file must not be one of those that are being read. It starts with no
  imports, and what it imports does not matter behind the inclusion. -/
inductive Pieces (registry : Registry) (load : SourceLoader) :
    LoadedSource → IncludeChain → FileScope → List Statement → Nat → List (List Event) → Prop
  | nil {source : LoadedSource} {chain : IncludeChain} {scope : FileScope} :
      Pieces registry load source chain scope [] 0 []
  | own {source : LoadedSource} {chain : IncludeChain} {scope : FileScope} {statement : Statement}
      {statements : List Statement} {count : Nat} {pieces : List (List Event)} :
      statement.included? = none →
      Pieces registry load source chain (scope.next statement) statements count pieces →
      Pieces registry load source chain scope (statement :: statements) count
        (statement.entries registry source scope :: pieces)
  | inclusion {source included : LoadedSource} {chain : IncludeChain} {scope : FileScope}
      {statement : Statement} {path : String} {statements body : List Statement}
      {count more : Nat} {within pieces : List (List Event)} :
      statement.included? = some path →
      load path chain.current? = .ok included →
      chain.contains included.id = false →
      Statement.parseSource 0 included.text = .ok body →
      Pieces registry load included (chain.extend included.id) .start body count within →
      Pieces registry load source chain scope statements more pieces →
      Pieces registry load source chain scope (statement :: statements) (count + 1 + more)
        (within.flatten :: pieces)

/-- What a source contributes that is included by the last file of the chain: the contributions of
its statements. The source itself is one of those that are read. -/
structure Contribution (registry : Registry) (load : SourceLoader) (source : LoadedSource)
    (chain : IncludeChain) (statements : List Statement) (count : Nat)
    (pieces : List (List Event)) : Prop where
  fresh : chain.contains source.id = false
  parsed : Statement.parseSource 0 source.text = .ok statements
  pieces : Pieces registry load source (chain.extend source.id) .start statements count pieces

/-! ## Outcomes -/

namespace Log

/-- An entry names the macro, and neither the log nor an entry ahead of it defines it. -/
def Lacks (log : Log) (entries : List Event) (name : String) : Prop :=
  ∃ ahead event behind, entries = ahead ++ event :: behind ∧ name ∈ event.value.macroNames ∧
    Entries.contains name log.macroIndex = false ∧ ∀ earlier ∈ ahead, ¬ earlier.Defines name

/-- The second log has the given entries behind those of the first, whatever the numbers of their
sources are. -/
def Gains (log : Log) (entries : List Event) (after : Log) : Prop :=
  ∃ added, after.events = log.events ++ added ∧
    added.map (Event.inFile 0) = entries.map (Event.inFile 0)

/-- The second log is the first one with `count` more sources and with the given entries. -/
structure Grows (log : Log) (entries : List Event) (count : Nat) (after : Log) : Prop where
  events : log.Gains entries after
  sources : ∃ opened, after.sources.files = log.sources.files ++ opened ∧ opened.length = count
  room : after.sources.size ≤ max log.sources.size SourceMap.capacity
  macros : ∀ name, Entries.contains name after.macroIndex = true ↔
    Entries.contains name log.macroIndex = true ∨ ∃ event ∈ entries, event.Defines name

/-- How reading ends that contributes the entries and takes `count` sources. -/
inductive Outcome (fuel : Nat) (entries : List Event) (count : Nat) (log : Log) :
    Except ConfigError Unit × Log → Prop
  | ok {after : Log} : log.Grows entries count after → (∀ name, ¬ log.Lacks entries name) →
      Outcome fuel entries count log (.ok (), after)
  | lacking {name : String} {place : Location} {after : Log} : log.Lacks entries name →
      Outcome fuel entries count log (.error (.undefinedMacro name place), after)
  | full {after : Log} : SourceMap.capacity < log.sources.size + count ∨ fuel < count →
      Outcome fuel entries count log (.error .tooManySources, after)

variable {log middle after : Log} {entries rest : List Event} {count more fuel n : Nat}

theorem Gains.append (first : log.Gains entries middle) (second : middle.Gains rest after) :
    log.Gains (entries ++ rest) after := by
  obtain ⟨added, events, same⟩ := first
  obtain ⟨last, lastEvents, lastSame⟩ := second
  refine ⟨added ++ last, ?_, ?_⟩
  · rw [lastEvents, events, List.append_assoc]
  · rw [List.map_append, List.map_append, same, lastSame]

theorem grows_refl (log : Log) : log.Grows [] 0 log where
  events := ⟨[], (List.append_nil _).symm, rfl⟩
  sources := ⟨[], (List.append_nil _).symm, rfl⟩
  room := Nat.le_max_left _ _
  macros := fun name => by simp

theorem Grows.append (first : log.Grows entries count middle)
    (second : middle.Grows rest more after) :
    log.Grows (entries ++ rest) (count + more) after where
  events := first.events.append second.events
  sources := by
    obtain ⟨opened, files, length⟩ := first.sources
    obtain ⟨last, lastFiles, lastLength⟩ := second.sources
    refine ⟨opened ++ last, ?_, ?_⟩
    · rw [lastFiles, files, List.append_assoc]
    · rw [List.length_append, length, lastLength]
  room := by
    have := first.room
    have := second.room
    omega
  macros := fun name => by
    rw [second.macros, first.macros, or_assoc]
    simp [or_and_right, exists_or]

theorem Grows.size_eq (grows : log.Grows entries count after) :
    after.sources.size = log.sources.size + count := by
  obtain ⟨opened, files, rfl⟩ := grows.sources
  unfold SourceMap.size
  rw [files, List.length_append]

/-- Sources keep their numbers. -/
theorem Grows.found (grows : log.Grows entries count after) {file : SourceFile}
    (found : log.sources.files[n]? = some file) : after.sources.files[n]? = some file := by
  obtain ⟨opened, files, _⟩ := grows.sources
  rw [files, List.getElem?_append_left (List.getElem?_eq_some_iff.mp found).1, found]

/-- What is missing for entries is missing for the first of them, or for the others once the first
are there. -/
theorem lacks_append (first : log.Grows entries count middle) {name : String} :
    log.Lacks (entries ++ rest) name ↔ log.Lacks entries name ∨ middle.Lacks rest name := by
  have known : Entries.contains name middle.macroIndex = false ↔
      Entries.contains name log.macroIndex = false ∧ ∀ event ∈ entries, ¬ event.Defines name := by
    have macros := first.macros name
    simp only [← Bool.not_eq_true, macros, not_or, not_exists, not_and]
  constructor
  · rintro ⟨ahead, event, behind, cut, named, missing, undefined⟩
    rcases List.append_eq_append_iff.mp cut with ⟨shared, rfl, rfl⟩ | ⟨shared, rfl, tail⟩
    · obtain ⟨first, later⟩ := List.forall_mem_append.mp undefined
      exact .inr ⟨shared, event, behind, rfl, named, known.mpr ⟨missing, first⟩, later⟩
    · cases shared with
      | nil =>
        rw [List.append_nil] at known
        exact .inr ⟨[], event, behind, tail.symm, named, known.mpr ⟨missing, undefined⟩,
          List.forall_mem_nil _⟩
      | cons event' shared =>
        cases tail
        exact .inl ⟨ahead, event, shared, rfl, named, missing, undefined⟩
  · rintro (⟨ahead, event, behind, rfl, named, missing, undefined⟩ |
      ⟨ahead, event, behind, rfl, named, missing, undefined⟩)
    · exact ⟨ahead, event, behind ++ rest, by simp, named, missing, undefined⟩
    · obtain ⟨missing, first⟩ := known.mp missing
      exact ⟨entries ++ ahead, event, behind, by simp, named, missing,
        List.forall_mem_append.mpr ⟨first, undefined⟩⟩

theorem not_lacks_nil {name : String} : ¬ log.Lacks [] name := by
  rintro ⟨ahead, event, behind, cut, _⟩
  simp at cut

theorem lacks_singleton {event : Event} {name : String} :
    log.Lacks [event] name ↔
      name ∈ event.value.macroNames ∧ Entries.contains name log.macroIndex = false := by
  constructor
  · rintro ⟨ahead, other, behind, cut, named, missing, _⟩
    obtain ⟨rfl, rfl, rfl⟩ | ⟨_, rfl, none⟩ := List.cons_eq_append_iff.mp cut
    · exact ⟨named, missing⟩
    · simp at none
  · rintro ⟨named, missing⟩
    exact ⟨[], event, [], rfl, named, missing, List.forall_mem_nil _⟩

/-- One reading after the other. -/
theorem Outcome.bind {first second : Attempt Log Unit}
    (begins : Outcome fuel entries count log (first log))
    (goesOn : ∀ middle, log.Grows entries count middle →
      Outcome fuel rest more middle (second middle)) :
    Outcome fuel (entries ++ rest) (count + more) log ((first >>= fun _ => second) log) := by
  cases run : first log with
  | mk result middle =>
    rw [run] at begins
    cases begins with
    | ok grows defined =>
      rw [Attempt.bind_ok run]
      have lacks (name : String) : log.Lacks (entries ++ rest) name ↔ _ := lacks_append grows
      have size := grows.size_eq
      cases ends : second middle with
      | mk result after =>
        have goesOn := goesOn middle grows
        rw [ends] at goesOn
        cases goesOn with
        | ok growsOn definedOn =>
          refine .ok (grows.append growsOn) fun name lacking => ?_
          exact ((lacks name).mp lacking).elim (defined name) (definedOn name)
        | lacking lacking => exact .lacking ((lacks _).mpr (.inr lacking))
        | full full => exact .full (by omega)
    | lacking lacking =>
      rw [Attempt.bind_error run]
      obtain ⟨ahead, event, behind, rfl, lacking⟩ := lacking
      exact .lacking ⟨ahead, event, behind ++ rest, by simp, lacking⟩
    | full full =>
      rw [Attempt.bind_error run]
      exact .full (by omega)

/-! ## Statements that are read -/

variable {source : LoadedSource}

theorem outcome_assign (fuel : Nat) (found : log.sources.files[n]? = some source.file)
    (span : Span) (assignment : Assignment) :
    Outcome fuel [assignment.event (source.file.location span)] 0 log
      (Attempt.tryModify (fun log => log.assign (span.inFile n) (assignment.inFile n)) log) := by
  have names : (assignment.inFile n).value.macroNames = assignment.value.macroNames := by
    cases assignment <;> exact Expr.macroNames_inFile n _
  unfold Attempt.tryModify
  dsimp only
  cases made : log.assign (span.inFile n) (assignment.inFile n) with
  | ok next =>
    obtain ⟨defined, rfl⟩ := assign_eq_ok.mp made
    refine .ok ⟨⟨[(assignment.inFile n).event (log.location (span.inFile n))], rfl, ?_⟩,
      ⟨[], (List.append_nil _).symm, rfl⟩, Nat.le_max_left _ _, fun name => ?_⟩
      fun name lacking => ?_
    · rw [location, SourceMap.location_inFile found, Assignment.event_inFile, List.map_singleton,
        List.map_singleton, Event.inFile_inFile]
    · simp only [assigned, Assignment.index_inFile]
      simpa using assignment.contains_index _ _ _ name
    · obtain ⟨named, missing⟩ := lacks_singleton.mp lacking
      rw [Assignment.value_event, ← names] at named
      obtain ⟨mention, member, rfl⟩ := List.mem_map.mp named
      have known := undefinedMacro?_eq_none.mp defined _ (List.mem_map_of_mem member)
      rw [missing] at known
      cases known
  | error error =>
    obtain ⟨mention, named, missing, rfl⟩ := of_assign_eq_error made
    refine .lacking (lacks_singleton.mpr ⟨?_, missing⟩)
    rw [Assignment.value_event, ← names]
    exact List.mem_map_of_mem named

theorem outcome_assignAll (fuel : Nat) (found : log.sources.files[n]? = some source.file)
    (span : Span) (assignments : List Assignment) :
    Outcome fuel (assignments.map (Assignment.event (source.file.location span))) 0 log
      (assignAll (span.inFile n) (assignments.map (Assignment.inFile n)) log) := by
  induction assignments generalizing log with
  | nil => exact .ok log.grows_refl fun _ => not_lacks_nil
  | cons assignment assignments ih =>
    have first := outcome_assign fuel found span assignment
    exact first.bind fun middle grows => ih (grows.found found)

variable {registry : Registry} {load : SourceLoader} {chain : IncludeChain} {scope : FileScope}
  {statement : Statement} {statements : List Statement} {pieces : List (List Event)}

/-- Reads the file of an inclusion in the last file of the chain. -/
def readInclusion (registry : Registry) (load : SourceLoader) (fuel : Nat) (chain : IncludeChain)
    (path : String) (place : Location) : Attempt Log Unit :=
  match load path chain.current? with
  | .error failure => Attempt.fail (.unloadable path failure.message (some place))
  | .ok included => readSource registry load fuel included chain (some place)

theorem keeps_readInclusion_of_each {I : Log → Prop} {path : String} {place : Location}
    (each : ∀ included,
      Attempt.Keeps I (readSource registry load fuel included chain (some place))) :
    Attempt.Keeps I (readInclusion registry load fuel chain path place) := by
  unfold readInclusion
  split
  · exact Attempt.keeps_fail _
  · exact each _

theorem keeps_readInclusion {I : Log → Prop} (kept : Stepwise I) (registry : Registry)
    (load : SourceLoader) (fuel : Nat) (chain : IncludeChain) (path : String) (place : Location) :
    Attempt.Keeps I (readInclusion registry load fuel chain path place) :=
  keeps_readInclusion_of_each fun _ => keeps_readSource kept registry load fuel _ chain _

theorem readSource_succ (registry : Registry) (load : SourceLoader) (fuel : Nat)
    (source : LoadedSource) (chain : IncludeChain) (site : Option Location) :
    readSource registry load (fuel + 1) source chain site =
      if chain.contains source.id then
        Attempt.fail (.circularInclude (chain.extend source.id).files site)
      else openSource source.id source.text >>= fun number =>
        match Statement.parseSource number source.text with
        | .error error => reject error
        | .ok statements =>
          runStatements registry (readInclusion registry load fuel (chain.extend source.id)) .start
            statements := rfl

theorem readSource_zero (fresh : chain.contains source.id = false) (site : Option Location) :
    readSource registry load 0 source chain site = Attempt.fail .tooManySources := by
  unfold readSource
  rw [fresh]
  rfl

theorem runStatements_own {includeFile : String → Location → Attempt Log Unit}
    (own : statement.included? = none) :
    runStatements registry includeFile scope (statement :: statements) =
      (assignAll statement.span (statement.body.assignments.map (·.canonical scope registry)) >>=
        fun _ => runStatements registry includeFile (scope.next statement) statements) := by
  obtain ⟨body, span⟩ := statement
  cases body with
  | importPath imported => rfl
  | dynamicRegistration => rfl
  | includeFile path => cases own
  | macroDef name value => rfl
  | binding bound => rfl

theorem runStatements_inclusion {includeFile : String → Location → Attempt Log Unit} {path : String}
    (includes : statement.included? = some path) (log : Log) :
    runStatements registry includeFile scope (statement :: statements) log =
      (includeFile path (log.location statement.span) >>=
        fun _ => runStatements registry includeFile scope statements) log := by
  obtain ⟨body, span⟩ := statement
  cases body <;> cases includes
  rfl

theorem outcome_readSource (fresh : chain.contains source.id = false)
    (parsed : Statement.parseSource 0 source.text = .ok statements)
    (body : ∀ fuel n log, log.sources.files[n]? = some source.file →
      Outcome fuel entries count log
        (runStatements registry (readInclusion registry load fuel (chain.extend source.id)) .start
          (statements.map (Statement.inFile n)) log))
    (fuel : Nat) (site : Option Location) (log : Log) :
    Outcome fuel entries (count + 1) log (readSource registry load fuel source chain site log) := by
  cases fuel with
  | zero =>
    rw [readSource_zero fresh]
    exact .full (.inr (Nat.succ_pos count))
  | succ fuel =>
    rw [readSource_succ, if_neg (by rw [fresh]; exact Bool.false_ne_true)]
    by_cases room : log.sources.size < SourceMap.capacity
    · have size : (log.addSource source.id source.text).1.sources.size = log.sources.size + 1 :=
        log.sources.size_add source.id source.text
      have found : (log.addSource source.id source.text).1.sources.files[log.sources.size]? =
          some source.file := log.sources.getElem?_add source.id source.text
      have ends := body fuel log.sources.size _ found
      rw [Attempt.bind_ok (openSource_of_lt room source.id source.text),
        Statement.parseSource_inFile _ 0, parsed]
      dsimp only [renumber]
      generalize runStatements registry _ _ _ _ = result at ends ⊢
      cases ends with
      | ok grows defined =>
        refine .ok ⟨grows.events, ?_, ?_, grows.macros⟩ defined
        · obtain ⟨opened, files, rfl⟩ := grows.sources
          refine ⟨⟨source.id, source.text⟩ :: opened, ?_, rfl⟩
          rw [files]
          exact List.append_assoc log.sources.files [⟨source.id, source.text⟩] opened
        · have := grows.room
          omega
      | lacking lacking => exact .lacking lacking
      | full full => exact .full (by omega)
    · rw [Attempt.bind_error (openSource_of_not_lt room source.id source.text)]
      exact .full (by omega)

end Log

open Log

theorem Statement.included?_inFile (n : Nat) (statement : Statement) :
    (statement.inFile n).included? = statement.included? := by
  obtain ⟨body, span⟩ := statement
  cases body <;> rfl

theorem FileScope.next_inFile (n : Nat) (scope : FileScope) (statement : Statement) :
    scope.next (statement.inFile n) = scope.next statement := by
  obtain ⟨body, span⟩ := statement
  cases body <;> rfl

theorem Pieces.outcome {registry : Registry} {load : SourceLoader} {source : LoadedSource}
    {chain : IncludeChain} {scope : FileScope} {statements : List Statement} {count : Nat}
    {pieces : List (List Event)}
    (contributed : Pieces registry load source chain scope statements count pieces) (fuel n : Nat)
    (log : Log) (found : log.sources.files[n]? = some source.file) :
    Outcome fuel pieces.flatten count log
      (runStatements registry (readInclusion registry load fuel chain) scope
        (statements.map (Statement.inFile n)) log) := by
  induction contributed generalizing fuel n log with
  | nil => exact .ok log.grows_refl fun _ => not_lacks_nil
  | @own source chain scope statement statements count pieces own _ ih =>
    have assigns := outcome_assignAll fuel found statement.span
      (statement.body.assignments.map (·.canonical scope registry))
    rw [List.map_map, List.map_map] at assigns
    rw [List.map_cons, List.flatten_cons, ← Nat.zero_add count,
      runStatements_own ((Statement.included?_inFile n statement).trans own), FileScope.next_inFile]
    refine .bind ?_ fun middle grows => ih fuel n middle (grows.found found)
    have same : (statement.inFile n).body.assignments.map (·.canonical scope registry) =
        statement.body.assignments.map (Assignment.inFile n ∘ (·.canonical scope registry)) := by
      change (statement.body.inFile n).assignments.map _ = _
      rw [StatementBody.assignments_inFile, List.map_map]
      exact List.map_congr_left fun assignment _ => assignment.canonical_inFile n scope registry
    rw [same]
    exact assigns
  | @inclusion source included chain scope statement path statements body count more within pieces
      includes loaded fresh parsed _ _ ihWithin ih =>
    rw [List.map_cons, List.flatten_cons,
      runStatements_inclusion ((Statement.included?_inFile n statement).trans includes)]
    refine .bind ?_ fun middle grows => ih fuel n middle (grows.found found)
    rw [readInclusion, loaded]
    exact outcome_readSource fresh parsed ihWithin fuel _ log

/-- A source adds what it contributes, whatever stands in the log. -/
theorem Contribution.outcome {registry : Registry} {load : SourceLoader} {source : LoadedSource}
    {chain : IncludeChain} {statements : List Statement} {count : Nat} {pieces : List (List Event)}
    (contributed : Contribution registry load source chain statements count pieces) (fuel : Nat)
    (site : Option Location) (log : Log) :
    Outcome fuel pieces.flatten (count + 1) log
      (readSource registry load fuel source chain site log) :=
  outcome_readSource contributed.fresh contributed.parsed contributed.pieces.outcome fuel site log

/-! ## What is read contributes -/

namespace Log

variable {registry : Registry} {load : SourceLoader} {fuel n : Nat} {chain : IncludeChain}
  {log after : Log}

theorem exists_pieces (source : LoadedSource)
    (ofInclusion : ∀ path place log after included, load path chain.current? = .ok included →
      readInclusion registry load fuel chain path place log = (.ok (), after) →
      ∃ statements count pieces,
        Contribution registry load included chain statements count pieces)
    {scope : FileScope} {statements : List Statement}
    (run : runStatements registry (readInclusion registry load fuel chain) scope
      (statements.map (Statement.inFile n)) log = (.ok (), after)) :
    ∃ count pieces, Pieces registry load source chain scope statements count pieces := by
  induction statements generalizing scope log with
  | nil => exact ⟨0, [], .nil⟩
  | cons statement statements ih =>
    rw [List.map_cons] at run
    have sameKind := Statement.included?_inFile n statement
    cases included : statement.included? with
    | some path =>
      rw [runStatements_inclusion (sameKind.trans included)] at run
      obtain ⟨_, middle, begun, run⟩ := Attempt.ok_of_bind_run run
      obtain ⟨more, pieces, rest⟩ := ih run
      cases loaded : load path chain.current? with
      | error failure =>
        rw [readInclusion, loaded] at begun
        cases begun
      | ok inner =>
        obtain ⟨body, count, within, inner⟩ := ofInclusion _ _ _ _ _ loaded begun
        exact ⟨_, _, .inclusion included loaded inner.fresh inner.parsed inner.pieces rest⟩
    | none =>
      rw [runStatements_own (sameKind.trans included), FileScope.next_inFile] at run
      obtain ⟨_, middle, _, run⟩ := Attempt.ok_of_bind_run run
      obtain ⟨count, pieces, rest⟩ := ih run
      exact ⟨_, _, .own included rest⟩

/-- The induction is on the fuel: an included file is read with less of it. -/
theorem exists_contribution {source : LoadedSource} {site : Option Location}
    (run : readSource registry load fuel source chain site log = (.ok (), after)) :
    ∃ statements count pieces,
      Contribution registry load source chain statements count pieces := by
  induction fuel generalizing source chain site log after with
  | zero => cases run
  | succ fuel ih =>
    rw [readSource_succ] at run
    split at run
    · cases run
    · rename_i fresh
      obtain ⟨number, middle, opened, run⟩ := Attempt.ok_of_bind_run run
      rw [Statement.parseSource_inFile _ 0] at run
      cases parsed : Statement.parseSource 0 source.text with
      | error error =>
        rw [parsed] at run
        cases run
      | ok statements =>
        rw [parsed] at run
        have ofInclusion path place log after included
            (loaded : load path (chain.extend source.id).current? = .ok included)
            (run : readInclusion registry load fuel (chain.extend source.id) path place log =
              (.ok (), after)) : ∃ statements count pieces, Contribution registry load included
                (chain.extend source.id) statements count pieces := by
          rw [readInclusion, loaded] at run
          exact ih run
        obtain ⟨count, pieces, contributed⟩ := exists_pieces source ofInclusion run
        exact ⟨statements, count, pieces, by simpa using fresh, parsed, contributed⟩

end Log

end ConfigBinding
