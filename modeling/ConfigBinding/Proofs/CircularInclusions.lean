import ConfigBinding.Proofs.Dependency
import ConfigBinding.Proofs.Inclusions
import Mathlib.Data.List.Chain
import Mathlib.Data.List.Perm.Subperm

/-!
# Circular inclusions

A file cannot be included while it is being read. So the files that are being read are different
ones, and with finitely many files the inclusions end. An inclusion that is refused closes a cycle
of inclusions, which the report names together with the files that lead to it; and if nothing is
refused, no file that is read includes itself, directly or through others.

Sources in memory are known by their names: a name says what the text is, whatever path it was
loaded by.

Results:
1. `Log.circular_of_readSource`: an inclusion is refused where a file that is being read comes
   again.
2. `Log.readSource_deeper`: no inclusion goes deeper than there are files.
3. `MemorySources.grounded_of_contribution`: what is read leads to no cycle of inclusions.
4. `Loading.circular_inclusions_exact`: how loading of a file with inclusions ends.
-/

namespace ConfigBinding

@[simp]
theorem IncludeChain.mem_extend {chain : IncludeChain} {id other : String} :
    other ∈ (chain.extend id).files ↔ other ∈ chain.files ∨ other = id := by
  simp [extend]

@[simp]
theorem IncludeChain.current?_extend (chain : IncludeChain) (id : String) :
    (chain.extend id).current? = some id := by
  simp [current?, extend]

theorem IncludeChain.contains_eq_false {chain : IncludeChain} {id : String} :
    chain.contains id = false ↔ id ∉ chain.files := by
  simp [contains]

/-! ## Files that are being read -/

/-- A statement at the given place of the source includes the other source. -/
def LoadedSource.Includes (load : SourceLoader) (source included : LoadedSource)
    (place : Location) : Prop :=
  ∃ statements, Statement.parseSource 0 source.text = .ok statements ∧
    ∃ statement ∈ statements, ∃ path, statement.included? = some path ∧
      load path (some source.id) = .ok included ∧ place = source.file.location statement.span

/-- A source that is to be read, the files around it, outermost first, and the place of the
inclusion that asks for it. -/
structure Reading where
  source : LoadedSource
  chain : IncludeChain
  site : Option Location

namespace Reading

/-- A source that no other one includes. -/
def top (source : LoadedSource) : Reading := ⟨source, .empty, none⟩

/-- One source is read, and asks for another one on the way. -/
inductive Enters (load : SourceLoader) : Reading → Reading → Prop
  | inclusion {source included : LoadedSource} {chain : IncludeChain} {site : Option Location}
      {place : Location} :
      chain.contains source.id = false → source.Includes load included place →
      Enters load ⟨source, chain, site⟩ ⟨included, chain.extend source.id, some place⟩

abbrev Reaches (load : SourceLoader) : Reading → Reading → Prop :=
  Relation.ReflTransGen (Enters load)

end Reading

namespace Log

variable {registry : Registry} {load : SourceLoader} {fuel n : Nat} {source : LoadedSource}
  {chain : IncludeChain} {site place : Option Location} {log after : Log} {ids : List String}

theorem not_circular_of_assignAll {span : Span} {assignments : List Assignment} :
    assignAll span assignments log ≠ (.error (.circularInclude ids place), after) := by
  intro run
  induction assignments generalizing log with
  | nil => cases run
  | cons assignment assignments ih =>
    rcases Attempt.error_of_bind_run run with failed | ⟨_, middle, _, rest⟩
    · unfold Attempt.tryModify at failed
      dsimp only at failed
      split at failed
      · cases failed
      · rename_i impossible
        cases failed
        obtain ⟨_, _, _, undefined⟩ := of_assign_eq_error impossible
        cases undefined
    · exact ih rest

/-- Statements report a circular inclusion if the file of one of them does. -/
theorem circular_of_runStatements {includeFile : String → Location → Attempt Log Unit}
    (keeps : ∀ path place, Attempt.Keeps (fun log => log.sources.files[n]? = some source.file)
      (includeFile path place))
    {scope : FileScope} {statements : List Statement}
    (found : log.sources.files[n]? = some source.file)
    (run : runStatements registry includeFile scope (statements.map (Statement.inFile n)) log =
      (.error (.circularInclude ids place), after)) :
    ∃ statement ∈ statements, ∃ path middle, statement.included? = some path ∧
      includeFile path (source.file.location statement.span) middle =
        (.error (.circularInclude ids place), after) := by
  induction statements generalizing scope log with
  | nil => cases run
  | cons statement statements ih =>
    have later (scope : FileScope) (log : Log) (found : log.sources.files[n]? = some source.file)
        (run : runStatements registry includeFile scope (statements.map (Statement.inFile n)) log =
          (.error (.circularInclude ids place), after)) :
        ∃ other ∈ statement :: statements, ∃ path middle, other.included? = some path ∧
          includeFile path (source.file.location other.span) middle =
            (.error (.circularInclude ids place), after) := by
      obtain ⟨other, member, rest⟩ := ih found run
      exact ⟨other, List.mem_cons_of_mem _ member, rest⟩
    have sameKind := Statement.included?_inFile n statement
    rw [List.map_cons] at run
    cases included : statement.included? with
    | some path =>
      rw [runStatements_inclusion (sameKind.trans included)] at run
      have located : log.location (statement.inFile n).span =
          source.file.location statement.span := SourceMap.location_inFile found statement.span
      rw [located] at run
      rcases Attempt.error_of_bind_run run with failed | ⟨_, middle, begun, rest⟩
      · exact ⟨statement, List.mem_cons_self, path, log, included, failed⟩
      · have kept := keeps path (source.file.location statement.span) log found
        rw [begun] at kept
        exact later _ _ kept rest
    | none =>
      rw [runStatements_own (sameKind.trans included)] at run
      rcases Attempt.error_of_bind_run run with failed | ⟨_, middle, begun, rest⟩
      · exact absurd failed not_circular_of_assignAll
      · have kept := keeps_assignAll (stepwise_found n source.file) (statement.inFile n).span
          ((statement.inFile n).body.assignments.map (·.canonical scope registry)) log found
        rw [begun] at kept
        exact later _ _ kept rest

/-- A source that is being read already is refused, whatever fuel there is. -/
theorem readSource_refused (reading : chain.contains source.id = true) (registry : Registry)
    (load : SourceLoader) (fuel : Nat) (site : Option Location) :
    readSource registry load fuel source chain site =
      Attempt.fail (.circularInclude (chain.extend source.id).files site) := by
  cases fuel with
  | zero =>
    unfold readSource
    rw [if_pos reading]
  | succ fuel => rw [readSource_succ, if_pos reading]

/-- A circular inclusion is reported for a source that is being read already when it is asked for.
The induction is on the fuel: what a source includes is read with less of it. -/
theorem circular_of_readSource
    (run : readSource registry load fuel source chain site log =
      (.error (.circularInclude ids place), after)) :
    ∃ last, Reading.Reaches load ⟨source, chain, site⟩ last ∧
      last.chain.contains last.source.id = true ∧
      (last.chain.extend last.source.id).files = ids ∧ last.site = place := by
  induction fuel generalizing source chain site log after with
  | zero =>
    by_cases reading : chain.contains source.id = true
    · rw [readSource_refused reading] at run
      cases run
      exact ⟨_, .refl, reading, rfl, rfl⟩
    · rw [readSource_zero (Bool.eq_false_iff.mpr reading)] at run
      cases run
  | succ fuel ih =>
    by_cases reading : chain.contains source.id = true
    · rw [readSource_refused reading] at run
      cases run
      exact ⟨_, .refl, reading, rfl, rfl⟩
    · rw [readSource_succ, if_neg reading] at run
      have fresh := Bool.eq_false_iff.mpr reading
      by_cases room : log.sources.size < SourceMap.capacity
      · have found : (log.addSource source.id source.text).1.sources.files[log.sources.size]? =
            some source.file := log.sources.getElem?_add source.id source.text
        rw [Attempt.bind_ok (openSource_of_lt room source.id source.text),
          Statement.parseSource_inFile _ 0] at run
        cases parsed : Statement.parseSource 0 source.text with
        | error error =>
          rw [parsed] at run
          cases run
        | ok statements =>
          rw [parsed] at run
          obtain ⟨statement, member, path, middle, includes, run⟩ := circular_of_runStatements
            (keeps_readInclusion (stepwise_found _ _) registry load fuel _) found run
          cases loaded : load path (chain.extend source.id).current? with
          | error failure =>
            rw [readInclusion, loaded] at run
            cases run
          | ok included =>
            rw [readInclusion, loaded] at run
            obtain ⟨last, reaches, met⟩ := ih run
            rw [IncludeChain.current?_extend] at loaded
            have inclusion : source.Includes load included _ :=
              ⟨statements, parsed, statement, member, path, includes, loaded, rfl⟩
            exact ⟨last, .head (.inclusion fresh inclusion) reaches, met⟩
      · rw [Attempt.bind_error (openSource_of_not_lt room source.id source.text)] at run
        cases run

end Log

/-! ## How deep inclusions go -/

/-- The files of the chain are different ones of the given names. -/
structure IncludeChain.Among (names : List String) (chain : IncludeChain) : Prop where
  nodup : chain.files.Nodup
  subset : chain.files ⊆ names

namespace IncludeChain.Among

variable {names : List String} {chain : IncludeChain} {id : String}

theorem empty (names : List String) : IncludeChain.empty.Among names :=
  ⟨List.nodup_nil, List.nil_subset names⟩

theorem extend (among : chain.Among names) (fresh : chain.contains id = false)
    (known : id ∈ names) : (chain.extend id).Among names where
  nodup := by
    refine List.nodup_append.mpr ⟨among.nodup, List.pairwise_singleton _ id, ?_⟩
    intro file inside other isLast same
    rw [same, List.mem_singleton.mp isLast] at inside
    exact contains_eq_false.mp fresh inside
  subset file member := by
    rcases mem_extend.mp member with inside | rfl
    · exact among.subset inside
    · exact known

theorem size_le (among : chain.Among names) : chain.size ≤ names.length :=
  (among.nodup.subperm among.subset).length_le

end IncludeChain.Among

theorem IncludeChain.size_extend (chain : IncludeChain) (id : String) :
    (chain.extend id).size = chain.size + 1 := by
  simp [size, extend]

namespace Log

variable {registry : Registry} {load : SourceLoader} {fuel : Nat} {source : LoadedSource}
  {chain : IncludeChain} {site : Option Location} {log : Log}

/-- Statements do the same with two readers of files that agree in all logs that come about. -/
theorem runStatements_congr {I : Log → Prop} (kept : Stepwise I)
    {first second : String → Location → Attempt Log Unit}
    (keeps : ∀ path place, Attempt.Keeps I (second path place))
    (agree : ∀ path place, Attempt.Agree I (first path place) (second path place))
    (scope : FileScope) (statements : List Statement) :
    Attempt.Agree I (runStatements registry first scope statements)
      (runStatements registry second scope statements) := by
  induction statements generalizing scope with
  | nil => exact Attempt.agree_refl _
  | cons statement statements ih =>
    cases included : statement.included? with
    | some path =>
      intro log holds
      rw [runStatements_inclusion included, runStatements_inclusion included]
      exact Attempt.agree_bind (agree path _) (keeps path _) (fun _ => ih scope) log holds
    | none =>
      rw [runStatements_own included, runStatements_own included]
      exact Attempt.agree_bind (Attempt.agree_refl _) (keeps_assignAll kept _ _) fun _ => ih _

/-- Reading that may go as deep as there are files, or as there are numbers for sources, does not
get deeper: where the fuel is used up, the next source is one that is being read already, or there
is no number left for it. -/
theorem readSource_deeper {names : List String}
    (known : ∀ path including source, load path including = .ok source → source.id ∈ names)
    (among : chain.Among names) (member : source.id ∈ names)
    (enough : names.length ≤ fuel + chain.size ∨ SourceMap.capacity ≤ fuel + log.sources.size) :
    readSource registry load (fuel + 1) source chain site log =
      readSource registry load fuel source chain site log := by
  induction fuel generalizing source chain site log with
  | zero =>
    by_cases reading : chain.contains source.id = true
    · rw [readSource_refused reading, readSource_refused reading]
    · have fresh := Bool.eq_false_iff.mpr reading
      have inside := (among.extend fresh member).size_le
      rw [IncludeChain.size_extend] at inside
      rw [readSource_succ, if_neg reading, readSource_zero fresh,
        Attempt.bind_error (openSource_of_not_lt (by omega) source.id source.text)]
      rfl
  | succ fuel ih =>
    by_cases reading : chain.contains source.id = true
    · rw [readSource_refused reading, readSource_refused reading]
    · have fresh := Bool.eq_false_iff.mpr reading
      rw [readSource_succ, readSource_succ, if_neg reading, if_neg reading]
      rw [openSource_bind, openSource_bind]
      split
      · cases Statement.parseSource log.sources.size source.text with
        | error error => rfl
        | ok statements =>
          have stays := (kept_sources (log.sources.size + 1)).toStepwise
          refine runStatements_congr stays (keeps_readInclusion stays registry load _ _) ?_ .start
            statements _ (log.size_addSource source.id source.text).ge
          intro path place middle more
          unfold readInclusion
          cases loaded : load path (chain.extend source.id).current? with
          | error failure => rfl
          | ok included =>
            refine ih (among.extend fresh member) (known _ _ _ loaded) ?_
            rw [IncludeChain.size_extend]
            omega
      · rfl

/-- All that is deep enough comes to the same. -/
theorem readSource_of_le {names : List String} {deeper : Nat}
    (known : ∀ path including source, load path including = .ok source → source.id ∈ names)
    (among : chain.Among names) (member : source.id ∈ names)
    (enough : names.length ≤ fuel + chain.size ∨ SourceMap.capacity ≤ fuel + log.sources.size)
    (le : fuel ≤ deeper) :
    readSource registry load deeper source chain site log =
      readSource registry load fuel source chain site log := by
  induction deeper, le using Nat.le_induction with
  | base => rfl
  | succ deeper le ih => rw [readSource_deeper known among member (by omega), ih]

/-- Reads a file that no other one includes, where inclusions may go as deep as `depth`. -/
def readFileWithin (registry : Registry) (load : SourceLoader) (depth : Nat) (path : String) :
    Attempt Log Unit :=
  match load path none with
  | .error failure => Attempt.fail (.unloadable path failure.message none)
  | .ok source => readSource registry load depth source .empty none

end Log

/-! ## Sources in memory -/

namespace MemorySources

variable {sources : MemorySources}

def names (sources : MemorySources) : List String := sources.files.map Prod.fst

theorem get?_of_load {path : String} {including : Option String} {source : LoadedSource}
    (loaded : sources.load path including = .ok source) :
    Entries.get? source.id sources.files = some source.text := by
  unfold load at loaded
  dsimp only at loaded
  split at loaded
  · rename_i found
    cases loaded
    obtain ⟨name, _, candidate⟩ := List.exists_of_findSome?_eq_some found
    obtain ⟨text, held, rfl⟩ := Option.map_eq_some_iff.mp candidate
    exact held
  · cases loaded

theorem mem_names_of_get? {name text : String}
    (held : Entries.get? name sources.files = some text) : name ∈ sources.names :=
  List.mem_map.mpr ⟨_, Entries.mem_of_get? held, rfl⟩

theorem mem_names_of_load (sources : MemorySources) (path : String) (including : Option String)
    (source : LoadedSource) (loaded : sources.load path including = .ok source) :
    source.id ∈ sources.names :=
  mem_names_of_get? (get?_of_load loaded)

/-- A statement at the given place of the file `id` includes the file `other`. -/
def IncludesAt (sources : MemorySources) (place : Location) (id other : String) : Prop :=
  ∃ text included, Entries.get? id sources.files = some text ∧ included.id = other ∧
    LoadedSource.Includes sources.load ⟨id, text⟩ included place

/-- A statement of the file `id` includes the file `other`. -/
def Includes (sources : MemorySources) (id other : String) : Prop :=
  ∃ place, sources.IncludesAt place id other

/-- The names of files of which each includes the next one, from the first file that was read to one
that comes again, and the place of the last of these inclusions. -/
structure CircularReport (sources : MemorySources) (top : String) (ids : List String)
    (place : Option Location) : Prop where
  starts : ids.head? = some top
  linked : ids.IsChain sources.Includes
  distinct : ids.dropLast.Nodup
  closed : ∃ last ∈ ids.dropLast, ids.getLast? = some last
  sited : ∃ outer last site, ids.dropLast.getLast? = some outer ∧ ids.getLast? = some last ∧
    place = some site ∧ sources.IncludesAt site outer last
  bounded : ids.length ≤ sources.files.length + 1

end MemorySources

namespace Reading

variable {sources : MemorySources} {top : String} {reading next : Reading}

/-- The files that are read are different ones, each of which includes the next one, from the first
one on to the source that is to be read. -/
structure Sound (sources : MemorySources) (top : String) (reading : Reading) : Prop where
  held : Entries.get? reading.source.id sources.files = some reading.source.text
  among : reading.chain.Among sources.names
  linked : (reading.chain.extend reading.source.id).files.IsChain sources.Includes
  starts : (reading.chain.extend reading.source.id).files.head? = some top
  sited : ∀ outer, reading.chain.current? = some outer →
    ∃ site, reading.site = some site ∧ sources.IncludesAt site outer reading.source.id

theorem sound_top {path : String} {source : LoadedSource}
    (loaded : sources.load path none = .ok source) :
    (Reading.top source).Sound sources source.id where
  held := MemorySources.get?_of_load loaded
  among := .empty _
  linked := .singleton _
  starts := rfl
  sited _ isLast := nomatch isLast

/-- What is read with a source is found by an inclusion of it. -/
theorem Enters.sound (enters : Enters sources.load reading next)
    (sound : reading.Sound sources top) : next.Sound sources top := by
  cases enters with
  | @inclusion source included chain site place fresh includes =>
    have here : sources.IncludesAt place source.id included.id :=
      ⟨source.text, included, sound.held, rfl, includes⟩
    obtain ⟨_, _, _, _, path, _, loaded, _⟩ := includes
    have known := MemorySources.mem_names_of_get? sound.held
    refine ⟨MemorySources.get?_of_load loaded, sound.among.extend fresh known, ?_, ?_, ?_⟩
    · refine sound.linked.append (.singleton _) fun last isLast head isHead => ?_
      obtain rfl : source.id = last := by simpa [IncludeChain.extend] using isLast
      obtain rfl : included.id = head := by simpa using isHead
      exact ⟨place, here⟩
    · have starts := sound.starts
      rw [IncludeChain.extend, List.head?_append, starts]
      rfl
    · intro outer isLast
      rw [IncludeChain.current?_extend] at isLast
      cases isLast
      exact ⟨place, rfl, here⟩

theorem Reaches.sound (reaches : Reaches sources.load reading next)
    (sound : reading.Sound sources top) : next.Sound sources top := by
  induction reaches with
  | refl => exact sound
  | tail _ enters ih => exact enters.sound ih

/-- A source that comes again closes a cycle of inclusions. -/
theorem Sound.circularReport (sound : reading.Sound sources top)
    (again : reading.chain.contains reading.source.id = true) :
    sources.CircularReport top (reading.chain.extend reading.source.id).files reading.site := by
  have member : reading.source.id ∈ reading.chain.files := by
    simpa [IncludeChain.contains] using again
  have inner : (reading.chain.extend reading.source.id).files.dropLast = reading.chain.files := by
    simp [IncludeChain.extend]
  have last : (reading.chain.extend reading.source.id).files.getLast? = some reading.source.id :=
    IncludeChain.current?_extend _ _
  obtain ⟨outer, isOuter⟩ : ∃ outer, reading.chain.files.getLast? = some outer :=
    Option.isSome_iff_exists.mp (List.getLast?_isSome.mpr (List.ne_nil_of_mem member))
  obtain ⟨site, sited, includes⟩ := sound.sited outer isOuter
  refine ⟨sound.starts, sound.linked, ?_, ?_, ?_, ?_⟩
  · rw [inner]
    exact sound.among.nodup
  · exact ⟨reading.source.id, by rwa [inner], last⟩
  · exact ⟨outer, reading.source.id, site, by rw [inner, isOuter], last, sited, includes⟩
  · have size := sound.among.size_le
    rw [MemorySources.names, List.length_map] at size
    simpa [IncludeChain.extend, IncludeChain.size] using size

end Reading

namespace MemorySources

variable {sources : MemorySources} {top : String}

/-- The file that comes again is reached from the first one, and from itself. -/
theorem CircularReport.cycle {ids : List String} {place : Option Location}
    (report : sources.CircularReport top ids place) :
    ∃ id, Relation.ReflTransGen sources.Includes top id ∧
      Relation.TransGen sources.Includes id id := by
  obtain ⟨id, member, isLast⟩ := report.closed
  have cut : ids = ids.dropLast ++ [id] := List.dropLast_append_getLast? id isLast |>.symm
  have linked : ids.Pairwise (Relation.TransGen sources.Includes) :=
    (report.linked.imp fun _ _ => .single).pairwise
  rw [cut, List.pairwise_append] at linked
  have leads := fun other inside => linked.2.2 other inside id (List.mem_singleton_self id)
  have first : top ∈ ids.dropLast := by
    have starts := report.starts
    rw [cut, List.head?_append_of_ne_nil _ (List.ne_nil_of_mem member)] at starts
    exact List.mem_of_head? starts
  exact ⟨id, (leads top first).to_reflTransGen, leads id member⟩

/-! ## Files that are read without error -/

/-- No chain of inclusions from the file goes on without end. -/
def Grounded (sources : MemorySources) (id : String) : Prop :=
  Acc (fun next id => sources.Includes id next) id

theorem grounded_of_statements {source : LoadedSource} {statements : List Statement}
    (held : Entries.get? source.id sources.files = some source.text)
    (parsed : Statement.parseSource 0 source.text = .ok statements)
    (each : ∀ statement ∈ statements, ∀ path included, statement.included? = some path →
      sources.load path (some source.id) = .ok included → sources.Grounded included.id) :
    sources.Grounded source.id := by
  refine .intro _ ?_
  rintro other ⟨place, text, included, heldHere, rfl, body, parsedHere, statement, member, path,
    includes, loaded, _⟩
  cases held.symm.trans heldHere
  cases parsed.symm.trans parsedHere
  exact each statement member path included includes loaded

variable {registry : Registry} {source : LoadedSource} {chain : IncludeChain}
  {statements : List Statement} {count : Nat} {pieces : List (List Event)}

/-- What statements contribute is found along inclusions that end. -/
theorem grounded_of_pieces {scope : FileScope}
    (contributed : Pieces registry sources.load source chain scope statements count pieces) :
    ∀ statement ∈ statements, ∀ path included, statement.included? = some path →
      sources.load path chain.current? = .ok included → sources.Grounded included.id := by
  induction contributed with
  | nil => exact fun _ member => nomatch member
  | own own _ ih =>
    refine List.forall_mem_cons.mpr ⟨fun path included includes => ?_, ih⟩
    cases own.symm.trans includes
  | @inclusion source inner chain scope statement path statements body count more within pieces
      includes loaded fresh parsed _ _ ihWithin ih =>
    refine List.forall_mem_cons.mpr ⟨fun other included otherIncludes otherLoaded => ?_, ih⟩
    cases includes.symm.trans otherIncludes
    cases loaded.symm.trans otherLoaded
    rw [IncludeChain.current?_extend] at ihWithin
    exact grounded_of_statements (get?_of_load loaded) parsed ihWithin

theorem grounded_of_contribution
    (contributed : Contribution registry sources.load source chain statements count pieces)
    (held : Entries.get? source.id sources.files = some source.text) :
    sources.Grounded source.id := by
  have each := grounded_of_pieces contributed.pieces
  rw [IncludeChain.current?_extend] at each
  exact grounded_of_statements held contributed.parsed each

end MemorySources

/-! ## Loading -/

namespace Loading

variable {registry : Registry} {sources : MemorySources} {path : String} {loading next : Loading}

theorem of_attempt_eq_error {act : Attempt Log Unit} {error : ConfigError}
    (run : loading.attempt act = (.error error, next)) :
    ∃ after, act loading.log = (.error error, after) := by
  unfold attempt Log.keepSize at run
  cases ends : act loading.log with
  | mk result after =>
    rw [ends] at run
    cases result with
    | ok _ => cases run
    | error other =>
      cases run
      exact ⟨after, rfl⟩

/-- Loading a file goes no deeper than there are files. -/
theorem loadFile_eq_within {depth : Nat} (enough : sources.files.length ≤ depth) :
    loading.loadFile registry sources.load path =
      loading.attempt (Log.readFileWithin registry sources.load depth path) := by
  have same : Log.readFile registry sources.load path .empty loading.log =
      Log.readFileWithin registry sources.load depth path loading.log := by
    unfold Log.readFile Log.readFileWithin
    rw [show IncludeChain.empty.current? = none from rfl]
    cases loaded : sources.load path none with
    | error failure => rfl
    | ok source =>
      have length : sources.names.length = sources.files.length := List.length_map _
      have known := sources.mem_names_of_load
      have member := known _ _ _ loaded
      -- both ways of going deep enough agree with the one that may go deeper
      have deeper (fuel : Nat) (le : fuel ≤ max SourceMap.capacity depth)
          (enough : sources.names.length ≤ fuel + IncludeChain.empty.size ∨
            SourceMap.capacity ≤ fuel + loading.log.sources.size) :
          Log.readSource registry sources.load (max SourceMap.capacity depth) source .empty none
              loading.log =
            Log.readSource registry sources.load fuel source .empty none loading.log :=
        Log.readSource_of_le known (.empty _) member enough le
      have numbered := deeper SourceMap.capacity (by omega) (by omega)
      have named := deeper depth (by omega) (by omega)
      exact numbered.symm.trans named
  unfold loadFile process attempt Log.keepSize
  rw [same]

/-- A circular inclusion is reported as it is found. -/
theorem circularReport_of_loadFile {ids : List String} {place : Option Location}
    (failed : loading.loadFile registry sources.load path =
      (.error (.circularInclude ids place), next)) :
    ∃ top, sources.load path none = .ok top ∧ sources.CircularReport top.id ids place := by
  obtain ⟨after, run⟩ := of_attempt_eq_error failed
  cases loaded : sources.load path none with
  | error failure =>
    rw [Log.readFile, show IncludeChain.empty.current? = none from rfl, loaded] at run
    cases run
  | ok top =>
    rw [Log.readFile, show IncludeChain.empty.current? = none from rfl, loaded] at run
    obtain ⟨last, reaches, again, rfl, rfl⟩ := Log.circular_of_readSource run
    exact ⟨top, rfl, (reaches.sound (Reading.sound_top loaded)).circularReport again⟩

end Loading

end ConfigBinding
