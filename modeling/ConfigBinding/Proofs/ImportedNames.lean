import ConfigBinding.Proofs.Inclusions
import Mathlib.Data.List.Forall2

/-!
# Names that imports rename

In a file that has switched dynamic registration on, a symbol means what the imports ahead of it
make of it. Here this is said of names, of values and of whole files without a table of imports: by
the statements ahead in the same file. What a file logs is then what its statements say, with the
symbol of each binding and the symbols of all references renamed, and nothing else.

Results:
1. `renaming_iff`: what the imports ahead make of a name.
2. `Log.tells_of_readSource`: what is read logs what it says.
3. `LoadCall.logs_renamed`: so it is for each call that loads a file.
-/

namespace ConfigBinding

/-! ## Imports ahead -/

/-- What the statement imports. -/
def Statement.import? (statement : Statement) : Option Import :=
  match statement.body with
  | .importPath imported => some imported
  | _ => none

/-- One of the statements switches dynamic registration on. -/
def SwitchedOn (ahead : List Statement) : Prop :=
  ∃ statement ∈ ahead, statement.body = .dynamicRegistration

/-- What the last import under the local name is an import of. -/
def importedAs? (ahead : List Statement) (localName : DottedName) : Option DottedName :=
  ((ahead.filterMap Statement.import?).filter fun imported =>
    imported.localName = localName).getLast?.map Import.path

/-- What a name means behind the statements `ahead` of the same file.
* `off`, `registered`: it means itself if nothing switches dynamic registration on, and if it is the
  name of a configurable.
* `imported`: otherwise its longest start under which something is imported is replaced by what is
  imported there last.
* `unknown`: it means itself if nothing is imported under any start of it. -/
inductive Renaming (registry : Registry) (ahead : List Statement) (name : DottedName) :
    DottedName → Prop
  | off : ¬ SwitchedOn ahead → Renaming registry ahead name name
  | registered : registry.contains name = true → Renaming registry ahead name name
  | imported {start rest : List String} {path : DottedName} :
      SwitchedOn ahead → registry.contains name = false →
      name.segments = start ++ rest → start ≠ [] → importedAs? ahead ⟨start⟩ = some path →
      (∀ longer, longer <+: name.segments → start.length < longer.length →
        importedAs? ahead ⟨longer⟩ = none) →
      Renaming registry ahead name ⟨path.segments ++ rest⟩
  | unknown : SwitchedOn ahead → registry.contains name = false →
      (∀ start, start <+: name.segments → start ≠ [] → importedAs? ahead ⟨start⟩ = none) →
      Renaming registry ahead name name

theorem FileScope.after_append (ahead : List Statement) (statement : Statement) :
    FileScope.after (ahead ++ [statement]) = (FileScope.after ahead).next statement :=
  List.foldl_append

theorem FileScope.dynamic_after (ahead : List Statement) :
    (FileScope.after ahead).dynamic = true ↔ SwitchedOn ahead := by
  induction ahead using List.reverseRecOn with
  | nil => simp [SwitchedOn, FileScope.after, FileScope.start]
  | append_singleton ahead statement ih =>
    have switched : SwitchedOn (ahead ++ [statement]) ↔
        SwitchedOn ahead ∨ statement.body = .dynamicRegistration := by
      simp [SwitchedOn, or_and_right, exists_or]
    rw [FileScope.after_append, switched, ← ih]
    obtain ⟨body, span⟩ := statement
    cases body <;> simp [FileScope.next]

theorem FileScope.aliases_next {statement : Statement} (own : statement.import? = none)
    (scope : FileScope) : (scope.next statement).aliases = scope.aliases := by
  obtain ⟨body, span⟩ := statement
  cases body with
  | importPath imported => cases own
  | dynamicRegistration => rfl
  | includeFile path => rfl
  | macroDef name value => rfl
  | binding bound => rfl

theorem FileScope.aliases_next_import {statement : Statement} {imported : Import}
    (imports : statement.import? = some imported) (scope : FileScope) :
    (scope.next statement).aliases = scope.aliases.insert imported.localName imported.path := by
  obtain ⟨body, span⟩ := statement
  cases body <;> cases imports
  rfl

theorem FileScope.get?_after (ahead : List Statement) (localName : DottedName) :
    (FileScope.after ahead).aliases.get? localName = importedAs? ahead localName := by
  induction ahead using List.reverseRecOn with
  | nil => rfl
  | append_singleton ahead statement ih =>
    rw [FileScope.after_append]
    cases imports : statement.import? with
    | none =>
      rw [FileScope.aliases_next imports, ih]
      simp [importedAs?, imports]
    | some imported =>
      rw [FileScope.aliases_next_import imports, AliasTable.insert, AliasTable.get?,
        Entries.get?_insert]
      split
      · rename_i same
        simp [importedAs?, imports, same]
      · rename_i other
        exact ih.trans (by simp [importedAs?, imports, other])

/-- A start of a name is what the name has up to the length of the start. -/
theorem DottedName.take_length {name : DottedName} {start : List String}
    (starts : start <+: name.segments) : name.take start.length = ⟨start⟩ :=
  congrArg DottedName.mk (List.prefix_iff_eq_take.mp starts).symm

namespace AliasTable

variable {aliases : AliasTable} {name meant : DottedName} {count : Nat}

/-- The longest of the starts up to the given length counts. -/
theorem canonicalizeUpTo_eq_some :
    aliases.canonicalizeUpTo name count = some meant ↔
      ∃ length path, 0 < length ∧ length ≤ count ∧
        aliases.get? (name.take length) = some path ∧
        (∀ longer, length < longer → longer ≤ count →
          aliases.get? (name.take longer) = none) ∧
        name.replaceStart length path = meant := by
  induction count with
  | zero =>
    simp only [canonicalizeUpTo, reduceCtorEq, false_iff]
    rintro ⟨length, path, positive, short, _⟩
    omega
  | succ count ih =>
    rw [canonicalizeUpTo]
    cases found : aliases.get? (name.take (count + 1)) with
    | some path =>
      simp only [Option.some.injEq]
      constructor
      · rintro rfl
        exact ⟨count + 1, path, by omega, Nat.le_refl _, found, by omega, rfl⟩
      · rintro ⟨length, other, positive, short, known, longest, rfl⟩
        obtain shorter | rfl := Nat.lt_or_eq_of_le short
        · cases (longest (count + 1) shorter (Nat.le_refl _)).symm.trans found
        · cases known.symm.trans found
          rfl
    | none =>
      rw [ih]
      constructor
      · rintro ⟨length, path, positive, short, known, longest, rfl⟩
        refine ⟨length, path, positive, by omega, known, fun longer less more => ?_, rfl⟩
        obtain shorter | rfl := Nat.lt_or_eq_of_le more
        · exact longest longer less (by omega)
        · exact found
      · rintro ⟨length, path, positive, short, known, longest, rfl⟩
        obtain shorter | rfl := Nat.lt_or_eq_of_le short
        · exact ⟨length, path, positive, by omega, known,
            fun longer less more => longest longer less (by omega), rfl⟩
        · cases known.symm.trans found

theorem canonicalizeUpTo_eq_none :
    aliases.canonicalizeUpTo name count = none ↔
      ∀ length, 0 < length → length ≤ count → aliases.get? (name.take length) = none := by
  induction count with
  | zero =>
    simp only [canonicalizeUpTo, true_iff]
    omega
  | succ count ih =>
    rw [canonicalizeUpTo]
    cases found : aliases.get? (name.take (count + 1)) with
    | some path =>
      simp only [reduceCtorEq, false_iff]
      intro unknown
      cases (unknown (count + 1) (by omega) (Nat.le_refl _)).symm.trans found
    | none =>
      simp only [ih]
      constructor
      · intro unknown length positive short
        obtain shorter | rfl := Nat.lt_or_eq_of_le short
        · exact unknown length positive (by omega)
        · exact found
      · exact fun unknown length positive short => unknown length positive (by omega)

/-- The longest start that is a local name counts. -/
theorem canonicalize_eq_some :
    aliases.canonicalize name = some meant ↔
      ∃ start rest path, name.segments = start ++ rest ∧ start ≠ [] ∧
        aliases.get? ⟨start⟩ = some path ∧
        (∀ longer, longer <+: name.segments → start.length < longer.length →
          aliases.get? ⟨longer⟩ = none) ∧
        ⟨path.segments ++ rest⟩ = meant := by
  rw [canonicalize, canonicalizeUpTo_eq_some]
  constructor
  · rintro ⟨length, path, positive, short, known, longest, rfl⟩
    have isLength : (name.segments.take length).length = length := List.length_take_of_le short
    refine ⟨name.segments.take length, name.segments.drop length, path,
      (List.take_append_drop length name.segments).symm,
      List.length_pos_iff.mp (by omega), known, fun longer starts more => ?_, rfl⟩
    have unknown := longest longer.length (by omega) starts.length_le
    rwa [DottedName.take_length starts] at unknown
  · rintro ⟨start, rest, path, cut, nonempty, known, longest, rfl⟩
    have starts : start <+: name.segments := cut ▸ List.prefix_append _ _
    refine ⟨start.length, path, List.length_pos_iff.mpr nonempty, starts.length_le, ?_,
      fun longer less more => longest _ (List.take_prefix _ _) ?_, ?_⟩
    · rw [DottedName.take_length starts, known]
    · rwa [List.length_take_of_le more]
    · rw [DottedName.replaceStart, cut, List.drop_left]

theorem canonicalize_eq_none :
    aliases.canonicalize name = none ↔
      ∀ start, start <+: name.segments → start ≠ [] → aliases.get? ⟨start⟩ = none := by
  rw [canonicalize, canonicalizeUpTo_eq_none]
  constructor
  · intro unknown start starts nonempty
    have unknown := unknown start.length (List.length_pos_iff.mpr nonempty) starts.length_le
    rwa [DottedName.take_length starts] at unknown
  · intro unknown length positive short
    have isLength : (name.segments.take length).length = length := List.length_take_of_le short
    exact unknown _ (List.take_prefix _ _) (List.length_pos_iff.mp (by omega))

end AliasTable

/-- What a name means in a file follows from the statements ahead of it. -/
theorem renaming_iff {registry : Registry} {ahead : List Statement} {name meant : DottedName} :
    Renaming registry ahead name meant ↔
      (FileScope.after ahead).canonicalName registry name = meant := by
  unfold FileScope.canonicalName Registry.resolveAlias
  constructor
  · intro renamed
    cases renamed with
    | off off => rw [if_neg (mt (FileScope.dynamic_after ahead).mp off)]
    | registered registered => rw [registered, if_pos rfl, ite_self]
    | @imported start rest path on fresh cut nonempty known longest =>
      have found : (FileScope.after ahead).aliases.canonicalize name =
          some ⟨path.segments ++ rest⟩ := by
        simp only [AliasTable.canonicalize_eq_some, FileScope.get?_after]
        exact ⟨_, _, _, cut, nonempty, known, longest, rfl⟩
      rw [if_pos ((FileScope.dynamic_after ahead).mpr on), fresh, if_neg Bool.false_ne_true, found]
      rfl
    | unknown on fresh nothing =>
      have found : (FileScope.after ahead).aliases.canonicalize name = none := by
        simpa only [AliasTable.canonicalize_eq_none, FileScope.get?_after] using nothing
      rw [if_pos ((FileScope.dynamic_after ahead).mpr on), fresh, if_neg Bool.false_ne_true, found]
      rfl
  · rintro rfl
    split
    · rename_i on
      have on := (FileScope.dynamic_after ahead).mp on
      split
      · rename_i registered
        exact .registered registered
      · rename_i fresh
        have fresh : registry.contains name = false := by simpa using fresh
        cases found : (FileScope.after ahead).aliases.canonicalize name with
        | none =>
          simp only [AliasTable.canonicalize_eq_none, FileScope.get?_after] at found
          exact .unknown on fresh found
        | some meant =>
          simp only [AliasTable.canonicalize_eq_some, FileScope.get?_after] at found
          obtain ⟨start, rest, path, cut, nonempty, known, longest, rfl⟩ := found
          exact .imported on fresh cut nonempty known longest
    · rename_i off
      exact .off (mt (FileScope.dynamic_after ahead).mpr off)

/-! ## What statements log -/

/-- The second expression is the first one with the symbols of its references renamed, at any depth.
Scopes, marks of calls, macros, literals, keys, spans and the shape stay. -/
inductive Expr.Renamed (renames : DottedName → DottedName → Prop) : Expr → Expr → Prop
  | literal (value : Literal) (span : Span) :
      Renamed renames (.literal value span) (.literal value span)
  | list {items others : List Expr} (span : Span) :
      items.length = others.length →
      (∀ item other, (item, other) ∈ items.zip others → Renamed renames item other) →
      Renamed renames (.list items span) (.list others span)
  | tuple {items others : List Expr} (span : Span) :
      items.length = others.length →
      (∀ item other, (item, other) ∈ items.zip others → Renamed renames item other) →
      Renamed renames (.tuple items span) (.tuple others span)
  | map {entries others : List (String × Expr)} (span : Span) :
      entries.length = others.length →
      (∀ entry other, (entry, other) ∈ entries.zip others → other.1 = entry.1) →
      (∀ entry other, (entry, other) ∈ entries.zip others → Renamed renames entry.2 other.2) →
      Renamed renames (.map entries span) (.map others span)
  | macroRef (name : DottedName) (span : Span) :
      Renamed renames (.macroRef name span) (.macroRef name span)
  | reference {target : Reference} {symbol : DottedName} (span : Span) :
      renames target.symbol symbol →
      Renamed renames (.reference target span) (.reference { target with symbol := symbol } span)

/-- The entry says what the assignment says with symbols renamed: that of the binding and those of
all references in the value. -/
inductive Assignment.Logged (renames : DottedName → DottedName → Prop) : Assignment → Event → Prop
  | macroDef {name : String} {value renamed : Expr} {origin : Location} :
      value.Renamed renames renamed →
      Logged renames (.macroDef name value) (.macroDef ⟨name, renamed, origin⟩)
  | binding {key : BindingKey} {symbol : DottedName} {value renamed : Expr} {origin : Location} :
      renames key.symbol symbol → value.Renamed renames renamed →
      Logged renames (.binding key value)
        (.binding ⟨{ key with symbol := symbol }, renamed, origin⟩)

/-- What the statements of a file log that stand behind the statements `ahead` of the same file. Of
the files that are being read, it is the last. The sources that were read are `files`.
* `own`: a statement that includes nothing logs its assignments in order, with their names as they
  are meant behind the statements ahead.
* `inclusion`: the included file logs its own statements, with nothing ahead of the first. -/
inductive Logs (registry : Registry) (load : SourceLoader) (files : List SourceFile) :
    IncludeChain → List Statement → List Statement → List Event → Prop
  | nil {chain : IncludeChain} {ahead : List Statement} :
      Logs registry load files chain ahead [] []
  | own {chain : IncludeChain} {ahead statements : List Statement} {statement : Statement}
      {entries rest : List Event} :
      statement.included? = none →
      List.Forall₂ (Assignment.Logged (Renaming registry ahead)) statement.body.assignments
        entries →
      Logs registry load files chain (ahead ++ [statement]) statements rest →
      Logs registry load files chain ahead (statement :: statements) (entries ++ rest)
  | inclusion {chain : IncludeChain} {ahead statements body : List Statement}
      {statement : Statement} {path : String} {included : LoadedSource} {number : Nat}
      {within rest : List Event} :
      statement.included? = some path → load path chain.current? = .ok included →
      files[number]? = some included.file →
      Statement.parseSource number included.text = .ok body →
      Logs registry load files (chain.extend included.id) [] body within →
      Logs registry load files chain (ahead ++ [statement]) statements rest →
      Logs registry load files chain ahead (statement :: statements) (within ++ rest)

/-! ## Values and assignments -/

namespace Expr

theorem mapReferences_id (e : Expr) : e.mapReferences (fun name => name) = e := by
  have entry {pair : String × Expr} (same : pair.2.mapReferences (fun name => name) = pair.2) :
      (pair.1, pair.2.mapReferences fun name => name) = pair :=
    Prod.ext rfl same
  induction e using Expr.induction with
  | literal value span => rfl
  | list items span ih => rw [mapReferences, mapReferencesInItems_eq, List.map_congr_left ih,
      List.map_id']
  | tuple items span ih => rw [mapReferences, mapReferencesInItems_eq, List.map_congr_left ih,
      List.map_id']
  | map entries span ih =>
    rw [mapReferences, mapReferencesInEntries_eq,
      List.map_congr_left fun pair member => entry (ih pair member), List.map_id']
  | macroRef name span => rfl
  | reference target span => rfl

theorem renamed_mapReferences {renames : DottedName → DottedName → Prop}
    {rename : DottedName → DottedName} (holds : ∀ name, renames name (rename name)) (e : Expr) :
    e.Renamed renames (e.mapReferences rename) := by
  have zipped {α : Type} {f : α → α} {as : List α} {a b : α}
      (member : (a, b) ∈ as.zip (as.map f)) : a ∈ as ∧ f a = b := by
    rw [← List.map_prod_left_eq_zip] at member
    obtain ⟨a, isMember, same⟩ := List.mem_map.mp member
    cases same
    exact ⟨isMember, rfl⟩
  induction e using Expr.induction with
  | literal value span => exact .literal value span
  | list items span ih =>
    rw [mapReferences, mapReferencesInItems_eq]
    refine .list span (List.length_map _).symm fun item other member => ?_
    obtain ⟨isItem, rfl⟩ := zipped member
    exact ih item isItem
  | tuple items span ih =>
    rw [mapReferences, mapReferencesInItems_eq]
    refine .tuple span (List.length_map _).symm fun item other member => ?_
    obtain ⟨isItem, rfl⟩ := zipped member
    exact ih item isItem
  | map entries span ih =>
    rw [mapReferences, mapReferencesInEntries_eq]
    refine .map span (List.length_map _).symm (fun entry other member => ?_)
      fun entry other member => ?_
    · obtain ⟨_, rfl⟩ := zipped member
      rfl
    · obtain ⟨isEntry, rfl⟩ := zipped member
      exact ih entry isEntry
  | macroRef name span => exact .macroRef name span
  | reference target span => exact .reference span (holds target.symbol)

end Expr

theorem FileScope.canonicalValue_eq (scope : FileScope) (registry : Registry) (value : Expr) :
    scope.canonicalValue registry value = value.mapReferences (scope.canonicalName registry) := by
  unfold canonicalValue canonicalName
  split
  · rfl
  · exact value.mapReferences_id.symm

theorem Assignment.logged_canonical (registry : Registry) (ahead : List Statement)
    (assignment : Assignment) (origin : Location) :
    assignment.Logged (Renaming registry ahead)
      ((assignment.canonical (FileScope.after ahead) registry).event origin) := by
  have renamed (value : Expr) : value.Renamed (Renaming registry ahead)
      ((FileScope.after ahead).canonicalValue registry value) := by
    rw [FileScope.canonicalValue_eq]
    exact value.renamed_mapReferences fun name => renaming_iff.mpr rfl
  cases assignment with
  | macroDef name value => exact .macroDef (renamed value)
  | binding key value => exact .binding (renaming_iff.mpr rfl) (renamed value)

/-! ## Files that are read -/

namespace Log

variable {registry : Registry} {load : SourceLoader} {files : List SourceFile} {fuel : Nat}
  {chain : IncludeChain} {source : LoadedSource} {log after : Log}

theorem stepwise_files (base : List SourceFile) :
    Stepwise fun log => base <+: log.sources.files where
  assign := by
    intro log next span assignment kept assigned
    obtain ⟨_, rfl⟩ := assign_eq_ok.mp assigned
    exact kept
  addSource := fun _ _ kept => kept.trans (List.prefix_append _ _)

/-- From the one log to the other, the source that is included by the last file of the chain logs
what it says. -/
def Tells (registry : Registry) (load : SourceLoader) (files : List SourceFile)
    (chain : IncludeChain) (source : LoadedSource) (log after : Log) : Prop :=
  ∃ statements events,
    files[log.sources.size]? = some source.file ∧
    Statement.parseSource log.sources.size source.text = .ok statements ∧
    after.events = log.events ++ events ∧
    Logs registry load files (chain.extend source.id) [] statements events

/-- The induction moves statements from those that are left to those ahead. -/
theorem logs_of_runStatements
    (ofInclusion : ∀ path place log after included, load path chain.current? = .ok included →
      readInclusion registry load fuel chain path place log = (.ok (), after) →
      after.sources.files <+: files → Tells registry load files chain included log after)
    {ahead statements : List Statement}
    (run : runStatements registry (readInclusion registry load fuel chain)
      (FileScope.after ahead) statements log = (.ok (), after))
    (kept : after.sources.files <+: files) :
    ∃ events, after.events = log.events ++ events ∧
      Logs registry load files chain ahead statements events := by
  induction statements generalizing ahead log with
  | nil =>
    cases run
    exact ⟨[], (List.append_nil _).symm, .nil⟩
  | cons statement statements ih =>
    cases included : statement.included? with
    | none =>
      rw [runStatements_own included, ← FileScope.after_append] at run
      obtain ⟨_, middle, begun, run⟩ := Attempt.ok_of_bind_run run
      obtain ⟨rest, restEvents, logs⟩ := ih run
      obtain ⟨_, events⟩ := of_assignAll_eq_ok begun
      rw [events, List.append_assoc] at restEvents
      refine ⟨_, restEvents, .own included ?_ logs⟩
      rw [List.map_map, List.forall₂_map_right_iff]
      exact List.forall₂_same.mpr fun assignment _ =>
        assignment.logged_canonical registry ahead _
    | some path =>
      rw [runStatements_inclusion included] at run
      obtain ⟨_, middle, begun, run⟩ := Attempt.ok_of_bind_run run
      rw [← FileScope.next_of_included included (FileScope.after ahead),
        ← FileScope.after_append] at run
      obtain ⟨rest, restEvents, logs⟩ := ih run
      cases loaded : load path chain.current? with
      | error failure =>
        rw [readInclusion, loaded] at begun
        cases begun
      | ok inner =>
        have grown : middle.sources.files <+: after.sources.files := by
          have keeps := keeps_runStatements (stepwise_files middle.sources.files) registry
            (fun path place => keeps_readInclusion (stepwise_files _) registry load fuel chain path
              place) (FileScope.after (ahead ++ [statement])) statements middle List.prefix_rfl
          rwa [run] at keeps
        obtain ⟨body, within, found, parsed, events, inside⟩ :=
          ofInclusion _ _ _ _ _ loaded begun (grown.trans kept)
        rw [events, List.append_assoc] at restEvents
        exact ⟨_, restEvents, .inclusion included loaded found parsed inside logs⟩

/-- The induction is on the fuel: an included file is read with less of it. -/
theorem tells_of_readSource {site : Option Location}
    (run : readSource registry load fuel source chain site log = (.ok (), after))
    (kept : after.sources.files <+: files) :
    Tells registry load files chain source log after := by
  induction fuel generalizing source chain site log after with
  | zero => cases run
  | succ fuel ih =>
    rw [readSource_succ] at run
    split at run
    · cases run
    rw [openSource_bind] at run
    split at run
    · cases parsed : Statement.parseSource log.sources.size source.text with
      | error error =>
        rw [parsed] at run
        cases run
      | ok statements =>
        rw [parsed] at run
        dsimp only at run
        have found : files[log.sources.size]? = some source.file := by
          have keeps := keeps_runStatements (stepwise_found log.sources.size source.file) registry
            (fun path place => keeps_readInclusion (stepwise_found _ _) registry load fuel
              (chain.extend source.id) path place) .start statements
            (log.addSource source.id source.text).1
            (log.sources.getElem?_add source.id source.text)
          rw [run] at keeps
          obtain ⟨others, rfl⟩ := kept
          rw [List.getElem?_append_left (List.getElem?_eq_some_iff.mp keeps).1]
          exact keeps
        have ofInclusion path place log after included
            (loaded : load path (chain.extend source.id).current? = .ok included)
            (run : readInclusion registry load fuel (chain.extend source.id) path place log =
              (.ok (), after)) (kept : after.sources.files <+: files) :
            Tells registry load files (chain.extend source.id) included log after := by
          rw [readInclusion, loaded] at run
          exact ih run kept
        have carried : runStatements registry
            (readInclusion registry load fuel (chain.extend source.id)) (FileScope.after [])
            statements (log.addSource source.id source.text).1 = (.ok (), after) := run
        obtain ⟨events, added, logs⟩ := logs_of_runStatements ofInclusion carried kept
        exact ⟨statements, events, found, parsed, added, logs⟩
    · cases run

end Log

/-! ## Calls -/

namespace LoadCall

/-- The call reads the source, as the last file of the chain includes it. -/
inductive Opens (load : SourceLoader) : LoadCall → IncludeChain → LoadedSource → Prop
  | loadFile {path : String} {source : LoadedSource} :
      load path none = .ok source → Opens load (.loadFile path) .empty source
  | loadText (id text : String) : Opens load (.loadText id text) .empty ⟨id, text⟩
  | process {path : String} {chain : IncludeChain} {source : LoadedSource} :
      load path chain.current? = .ok source → Opens load (.process path chain) chain source

variable {registry : Registry} {load : SourceLoader}

/-- A call that loads a file attempts to read the source that it opens. -/
theorem exists_opens {call : LoadCall} {loading next : Loading}
    (isFile : ∀ text, call ≠ .applyBinding text)
    (succeeds : call.run registry load loading = (.ok (), next)) :
    ∃ chain source, call.Opens load chain source ∧
      Log.readSource registry load SourceMap.capacity source chain none loading.log =
        (.ok (), next.log) := by
  have ofProcess {path : String} {chain : IncludeChain}
      (succeeds : loading.process registry load path chain = (.ok (), next)) :
      ∃ source, load path chain.current? = .ok source ∧
        Log.readSource registry load SourceMap.capacity source chain none loading.log =
          (.ok (), next.log) := by
    obtain ⟨source, _, _, _, loaded, _⟩ := Loading.exists_contribution succeeds
    rw [Loading.process_eq_attempt loaded] at succeeds
    exact ⟨source, loaded, Log.of_keepSize_eq_ok (Loading.of_attempt_eq_ok succeeds)⟩
  cases call with
  | loadFile path =>
    obtain ⟨source, loaded, run⟩ := ofProcess succeeds
    exact ⟨.empty, source, .loadFile loaded, run⟩
  | loadText id text =>
    exact ⟨.empty, ⟨id, text⟩, .loadText id text,
      Log.of_keepSize_eq_ok (Loading.of_attempt_eq_ok succeeds)⟩
  | process path chain =>
    obtain ⟨source, loaded, run⟩ := ofProcess succeeds
    exact ⟨chain, source, .process loaded, run⟩
  | applyBinding text => exact absurd rfl (isFile text)

/-- A file that is loaded logs what its statements say, and so do the files that it includes. Each
name is replaced as the statements ahead of it in the same file demand, and all else is logged as it
is written. -/
theorem logs_renamed {call : LoadCall} {loading next : Loading}
    (isFile : ∀ text, call ≠ .applyBinding text)
    (succeeds : call.run registry load loading = (.ok (), next)) :
    ∃ chain source statements events, call.Opens load chain source ∧
      next.log.sources.files[loading.log.sources.size]? = some source.file ∧
      Statement.parseSource loading.log.sources.size source.text = .ok statements ∧
      next.log.events = loading.log.events ++ events ∧
      Logs registry load next.log.sources.files (chain.extend source.id) [] statements events := by
  obtain ⟨chain, source, opens, run⟩ := exists_opens isFile succeeds
  obtain ⟨statements, events, found, parsed, added, logs⟩ :=
    Log.tells_of_readSource run List.prefix_rfl
  exact ⟨chain, source, statements, events, opens, found, parsed, added, logs⟩

/-- Of two files the inner one has imports of its own. The outer one imports under two starts of the
name of a reference, and twice under one of them. -/
def sampleImports : MemorySources where
  files := [
    ("outer", "import m.n as k\nfrom __gin__ import dynamic_registration\nimport m as k\n" ++
      "import k.l include 'inner' k.Box.content = [@k.Leaf(), \x7b'a': @k.l.Leaf\x7d, @k]"),
    ("inner", "import q as k\nLeaf.size = 2\nk.Leaf.size = 3")]

/-- The symbols in a log: for each entry that of the binding and those of the references. -/
def symbolTexts (log : Log) : List (String × List String) :=
  log.bindings.map fun event =>
    (event.key.symbol.toText, event.value.references.map fun target => target.symbol.toText)

theorem logs_renamed_sample :
    ∃ next, (LoadCall.loadFile "outer").run .sample sampleImports.load .start = (.ok (), next) ∧
      symbolTexts next.log = [("Leaf", []), ("k.Leaf", []),
        ("m.Box", ["m.Leaf", "k.l.Leaf", "m"])] ∧
      ∃ chain source statements events,
        (LoadCall.loadFile "outer").Opens sampleImports.load chain source ∧
        next.log.sources.files[0]? = some source.file ∧
        Statement.parseSource 0 source.text = .ok statements ∧ next.log.events = events ∧
        Logs .sample sampleImports.load next.log.sources.files (chain.extend source.id) []
          statements events := by
  have ends :
      ((LoadCall.loadFile "outer").run .sample sampleImports.load .start).1.isOk = true ∧
      symbolTexts ((LoadCall.loadFile "outer").run .sample sampleImports.load .start).2.log =
        [("Leaf", []), ("k.Leaf", []), ("m.Box", ["m.Leaf", "k.l.Leaf", "m"])] := by
    decide +kernel
  obtain ⟨succeeds, symbols⟩ := ends
  obtain ⟨next, run⟩ := Loading.exists_of_isOk succeeds
  rw [run] at symbols
  exact ⟨next, run, symbols, logs_renamed (by simp) run⟩

end LoadCall

end ConfigBinding
