import ConfigBinding.Proofs.Contributions

/-!
# Inclusions stand for what they include

An inclusion adds what the included file adds when it is loaded by itself, whatever the file around
it imports. Nothing of the included file is left behind but its entries: the statements after the
inclusion mean what they would mean without it. And a file adds the same to every log, if it adds
anything: the log can only lack a macro for it, or have no numbers left for its sources.

Results:
1. `Contribution.yields`: a file that contributes entries adds them to any log, or fails for one of
   these two reasons.
2. `Loading.inclusions_spliced`: what a file adds, statement by statement.
-/

namespace ConfigBinding

/-! ## Statements of a file -/

namespace Pieces

variable {registry : Registry} {load : SourceLoader} {source : LoadedSource}
  {chain : IncludeChain} {scope : FileScope} {statements : List Statement} {count i : Nat}
  {pieces : List (List Event)}

theorem length_eq (contributed : Pieces registry load source chain scope statements count pieces) :
    pieces.length = statements.length := by
  induction contributed with
  | nil => rfl
  | own _ _ ih => rw [List.length_cons, List.length_cons, ih]
  | inclusion _ _ _ _ _ _ _ ih => rw [List.length_cons, List.length_cons, ih]

/-- A statement that includes nothing depends on the statements ahead of it. -/
theorem own_at (contributed : Pieces registry load source chain scope statements count pieces)
    {statement : Statement} {piece : List Event} (stands : statements[i]? = some statement)
    (adds : pieces[i]? = some piece) (own : statement.included? = none) :
    piece = statement.entries registry source ((statements.take i).foldl .next scope) := by
  induction contributed generalizing i with
  | nil => cases stands
  | own _ _ ih =>
    cases i with
    | zero =>
      cases stands
      cases adds
      rfl
    | succ i => exact ih stands adds
  | @inclusion _ _ _ scope _ _ _ _ _ _ _ _ includes _ _ _ _ _ _ ih =>
    cases i with
    | zero =>
      cases stands
      cases includes.symm.trans own
    | succ i =>
      rw [List.take_succ_cons, List.foldl_cons, scope.next_of_included includes]
      exact ih stands adds

/-- An inclusion contributes what the included file does, and that depends on the files that are
being read but on nothing else in the file. -/
theorem inclusion_at
    (contributed : Pieces registry load source chain scope statements count pieces)
    {statement : Statement} {piece : List Event} {path : String}
    (stands : statements[i]? = some statement) (adds : pieces[i]? = some piece)
    (includes : statement.included? = some path) :
    ∃ included body less within, load path chain.current? = .ok included ∧
      Contribution registry load included chain body less within ∧ piece = within.flatten ∧
      less + 1 ≤ count := by
  induction contributed generalizing i with
  | nil => cases stands
  | own own _ ih =>
    cases i with
    | zero =>
      cases stands
      cases own.symm.trans includes
    | succ i => exact ih stands adds
  | @inclusion _ included _ _ _ _ _ body less more within _ here loaded fresh parsed inner _ _ ih =>
    cases i with
    | zero =>
      cases stands
      cases adds
      cases here.symm.trans includes
      exact ⟨included, body, less, within, loaded, ⟨fresh, parsed, inner⟩, rfl, by omega⟩
    | succ i =>
      obtain ⟨included, body, fewer, within, loaded, inner, same, bounded⟩ := ih stands adds
      exact ⟨included, body, fewer, within, loaded, inner, same, by omega⟩

/-- Without an inclusion the other statements contribute what they did with it. -/
theorem eraseIdx (contributed : Pieces registry load source chain scope statements count pieces)
    {statement : Statement} {path : String} (stands : statements[i]? = some statement)
    (includes : statement.included? = some path) :
    ∃ less ≤ count,
      Pieces registry load source chain scope (statements.eraseIdx i) less (pieces.eraseIdx i) := by
  induction contributed generalizing i with
  | nil => cases stands
  | @own _ _ _ _ _ count _ own _ ih =>
    cases i with
    | zero =>
      cases stands
      cases own.symm.trans includes
    | succ i =>
      obtain ⟨less, fewer, rest⟩ := ih stands
      exact ⟨less, fewer, .own own rest⟩
  | @inclusion _ _ _ _ _ _ _ _ count more _ _ here loaded fresh parsed inner rest _ ih =>
    cases i with
    | zero => exact ⟨more, by omega, rest⟩
    | succ i =>
      obtain ⟨less, fewer, rest⟩ := ih stands
      exact ⟨_, by omega, .inclusion here loaded fresh parsed inner rest⟩

end Pieces

/-! ## Files in any log -/

namespace Log

/-- The end of a call that adds the entries, and that only fails if the log lacks a macro for them
or has no room for `count` more sources. -/
inductive Yields (count : Nat) (entries : List Event) (log : Log) :
    Except ConfigError Unit × Log → Prop
  | ok {after : Log} : log.Gains entries after → (∀ name, ¬ log.Lacks entries name) →
      Yields count entries log (.ok (), after)
  | lacking {name : String} {place : Location} {after : Log} : log.Lacks entries name →
      Yields count entries log (.error (.undefinedMacro name place), after)
  | full {after : Log} : SourceMap.capacity < log.sources.size + count →
      Yields count entries log (.error .tooManySources, after)

variable {log : Log} {entries : List Event} {fuel less count : Nat}

theorem Outcome.yields {result : Except ConfigError Unit × Log}
    (ends : Outcome fuel entries less log result) (fewer : less ≤ count)
    (enough : SourceMap.capacity ≤ log.sources.size + fuel) :
    log.Yields count entries result := by
  cases ends with
  | ok grows defined => exact .ok grows.events defined
  | lacking lacking => exact .lacking lacking
  | full full => exact .full (by omega)

theorem Yields.keepSize {act : Attempt Log Unit} (ends : log.Yields count entries (act log)) :
    log.Yields count entries (keepSize act log) := by
  unfold Log.keepSize
  generalize act log = result at ends ⊢
  cases ends with
  | ok gains defined => exact .ok gains defined
  | lacking lacking => exact .lacking lacking
  | full full => exact .full full

end Log

/-- The end of a call of a loader that adds the entries to its log. -/
def Loading.Yields (count : Nat) (entries : List Event) (loading : Loading)
    (ends : Except ConfigError Unit × Loading) : Prop :=
  loading.log.Yields count entries (ends.1, ends.2.log)

variable {registry : Registry} {load : SourceLoader} {path : String} {source : LoadedSource}
  {chain : IncludeChain}

theorem Loading.process_eq_attempt (loaded : load path chain.current? = .ok source)
    (loading : Loading) :
    loading.process registry load path chain =
      loading.attempt (Log.readSource registry load SourceMap.capacity source chain none) := by
  unfold process Log.readFile
  rw [loaded]

theorem Loading.of_attempt_eq_ok {act : Attempt Log Unit} {loading next : Loading}
    (run : loading.attempt act = (.ok (), next)) :
    Log.keepSize act loading.log = (.ok (), next.log) := by
  have result : (loading.attempt act).1 = .ok () := by rw [run]
  have log : (loading.attempt act).2.log = next.log := by rw [run]
  exact Prod.ext result log

theorem Loading.exists_of_isOk {ends : Except ConfigError Unit × Loading}
    (succeeds : ends.1.isOk = true) : ∃ next, ends = (.ok (), next) := by
  obtain ⟨result, next⟩ := ends
  cases result with
  | ok _ => exact ⟨next, rfl⟩
  | error error => cases succeeds

/-- A file adds what it contributes to any log that has room for its sources. -/
theorem Contribution.yields {statements : List Statement} {less count : Nat}
    {pieces : List (List Event)}
    (contributed : Contribution registry load source chain statements less pieces)
    (loaded : load path chain.current? = .ok source) (fewer : less + 1 ≤ count)
    (loading : Loading) :
    loading.Yields count pieces.flatten (loading.process registry load path chain) := by
  rw [Loading.process_eq_attempt loaded]
  have ends := contributed.outcome SourceMap.capacity none loading.log
  exact Log.Yields.keepSize (ends.yields fewer (Nat.le_add_left ..))

theorem Loading.exists_contribution {loading next : Loading}
    (succeeds : loading.process registry load path chain = (.ok (), next)) :
    ∃ source statements count pieces, load path chain.current? = .ok source ∧
      Contribution registry load source chain statements count pieces ∧
      loading.log.Grows pieces.flatten (count + 1) next.log := by
  cases loaded : load path chain.current? with
  | error failure =>
    unfold process Log.readFile at succeeds
    rw [loaded] at succeeds
    cases succeeds
  | ok source =>
    rw [process_eq_attempt loaded] at succeeds
    have run := Log.of_keepSize_eq_ok (of_attempt_eq_ok succeeds)
    obtain ⟨statements, count, pieces, contributed⟩ := Log.exists_contribution run
    have ends := contributed.outcome SourceMap.capacity none loading.log
    rw [run] at ends
    cases ends with
    | ok grows => exact ⟨source, statements, count, pieces, rfl, contributed, grows⟩

namespace Loading

/-- A file that is loaded adds the pieces that its statements contribute, in order. A statement that
includes nothing contributes its own assignments, as they are meant behind the statements ahead of
it. An inclusion contributes what the included file adds when it is loaded by itself, by a loader in
any state. Without an inclusion, the statements contribute the other pieces. And in any other state
the file adds the same pieces. Each time it may happen instead that a macro is missing, or that the
other state has no room for as many more sources as were opened here. -/
theorem inclusions_spliced {loading next : Loading}
    (succeeds : loading.process registry load path chain = (.ok (), next)) :
    ∃ (source : LoadedSource) (statements : List Statement) (pieces : List (List Event))
      (count : Nat),
      load path chain.current? = .ok source ∧
      next.log.sources.size = loading.log.sources.size + count ∧
      Statement.parseSource 0 source.text = .ok statements ∧
      pieces.length = statements.length ∧ loading.log.Gains pieces.flatten next.log ∧
      (∀ (i : Nat) (statement : Statement) (piece : List Event),
        statements[i]? = some statement → pieces[i]? = some piece →
        (statement.included? = none →
          piece = statement.entries registry source (.after (statements.take i))) ∧
        ∀ included, statement.included? = some included → ∀ other : Loading,
          other.Yields count piece
            (other.process registry load included (chain.extend source.id))) ∧
      (∀ (i : Nat) (statement : Statement) (included : String),
        statements[i]? = some statement → statement.included? = some included →
        ∀ (n : Nat) (log : Log), log.sources.files[n]? = some source.file →
          log.Yields count (pieces.eraseIdx i).flatten
            (Log.runStatements registry
              (Log.readInclusion registry load (SourceMap.capacity - 1) (chain.extend source.id))
              .start ((statements.eraseIdx i).map (Statement.inFile n)) log)) ∧
      ∀ other : Loading, other.Yields count pieces.flatten
        (other.process registry load path chain) := by
  obtain ⟨source, statements, count, pieces, loaded, contributed, grows⟩ :=
    exists_contribution succeeds
  refine ⟨source, statements, pieces, count + 1, loaded, grows.size_eq, contributed.parsed,
    contributed.pieces.length_eq, grows.events, fun i statement piece stands adds => ⟨?_, ?_⟩, ?_,
    contributed.yields loaded (Nat.le_refl _)⟩
  · exact contributed.pieces.own_at stands adds
  · intro included includes other
    obtain ⟨_, _, less, _, innerLoaded, inner, rfl, fewer⟩ :=
      contributed.pieces.inclusion_at stands adds includes
    exact inner.yields innerLoaded (Nat.le_succ_of_le fewer) other
  · intro i statement included stands includes n log found
    obtain ⟨less, fewer, rest⟩ := contributed.pieces.eraseIdx stands includes
    have opened : n < log.sources.size := (List.getElem?_eq_some_iff.mp found).1
    exact (rest.outcome (SourceMap.capacity - 1) n log found).yields
      (Nat.le_succ_of_le fewer) (by omega)

def sampleText : String :=
  "from __gin__ import dynamic_registration import m as k include 'lib/a' k.Box.content = @q.Leaf()"

/-- Each file has local names of its own, and one file is included twice. -/
def sampleFiles : MemorySources where
  files := [
    ("top", sampleText),
    ("lib/a", "import m as q n = 2 k.Leaf.size = [%n, @q.Leaf()] include 'b' include '../lib/b'"),
    ("lib/b", "q.Leaf.size = 4")]

def sampleTop : Except ConfigError Unit × Loading :=
  start.process .sample sampleFiles.load "top" .empty

/-- The file that `sampleText` includes, loaded by itself. -/
def sampleInner : Except ConfigError Unit × Loading :=
  start.process .sample sampleFiles.load "lib/a" ⟨["top"]⟩

theorem inclusions_spliced_sample :
    ∃ next last, sampleTop = (.ok (), next) ∧ sampleInner = (.ok (), last) ∧
      last.log.events.map (Event.inFile 0) <:+: next.log.events.map (Event.inFile 0) ∧
      last.log.size = 4 ∧ next.log.size = 5 := by
  have ends : (sampleTop.1.isOk = true ∧ sampleTop.2.log.size = 5) ∧
      sampleInner.1.isOk = true ∧ sampleInner.2.log.size = 4 := by
    decide +kernel
  obtain ⟨⟨topEnds, topSize⟩, innerEnds, innerSize⟩ := ends
  obtain ⟨next, top⟩ := exists_of_isOk topEnds
  obtain ⟨last, inner⟩ := exists_of_isOk innerEnds
  obtain ⟨source, statements, pieces, _, loaded, _, parsed, lengths, ⟨added, events, same⟩, each,
    _⟩ := inclusions_spliced top
  refine ⟨next, last, top, inner, ?_, by rwa [inner] at innerSize, by rwa [top] at topSize⟩
  have known : sampleFiles.load "top" IncludeChain.empty.current? = .ok ⟨"top", sampleText⟩ := by
    decide
  have shape : (Statement.parseSource 0 sampleText).toOption.map
      (fun statements => statements.map Statement.included?) =
        some [none, none, some "lib/a", none] := by
    decide +kernel
  cases known.symm.trans loaded
  rw [parsed] at shape
  have shape : statements.map Statement.included? = [none, none, some "lib/a", none] :=
    Option.some.inj shape
  obtain ⟨statement, stands, includes⟩ : ∃ statement, statements[2]? = some statement ∧
      statement.included? = some "lib/a" := by
    have third := congrArg (·[2]?) shape
    rw [List.getElem?_map] at third
    exact Option.map_eq_some_iff.mp third
  have length : 2 < pieces.length := by
    have length := congrArg List.length shape
    rw [List.length_map] at length
    rw [lengths, length]
    decide
  have yields : start.Yields _ pieces[2] sampleInner :=
    (each 2 statement pieces[2] stands (List.getElem?_eq_getElem length)).2 _ includes .start
  rw [inner] at yields
  cases yields with
  | ok gains =>
    obtain ⟨innerAdded, innerEvents, innerSame⟩ := gains
    rw [innerEvents, events]
    change innerAdded.map _ <:+: added.map _
    rw [innerSame, same]
    exact (List.infix_of_mem_flatten (List.getElem_mem length)).map _

end Loading

end ConfigBinding
