import ConfigBinding.Proofs.DistinctTexts.Values
import ConfigBinding.Proofs.NodeScopes
import ConfigBinding.Proofs.Provenance
import ConfigBinding.Proofs.Replay

/-!
# What is reported of keys that are bound again

A log reports the keys that are bound more than once as they are written, and its table those that
are bound more than once under the registered names. Whether the bindings of a key differ is decided
by what is written for their values. This is right for all values that a loader can log: they were
read from a text, so their names are names of the language, also where imports renamed them, and
such values are written alike only if they are alike.

Results:
1. `Loading.Reachable.ofNames_log`: the names in a log that a loader can have.
2. `Override.exact_ofGroups`: what is reported of bindings that are grouped by key.
3. `Loading.Reachable.overrides_exact`: what is reported of a log and of its table.
-/

namespace ConfigBinding

/-! ## Names in a log -/

/-- The modules that are imported have names of the language. -/
def AliasTable.OfNames (aliases : AliasTable) : Prop := ∀ entry ∈ aliases.entries, entry.2.OfNames

theorem AliasTable.OfNames.canonicalizeUpTo {aliases : AliasTable} (known : aliases.OfNames)
    {name : DottedName} (named : name.OfNames) {count : Nat} {renamed : DottedName}
    (renames : aliases.canonicalizeUpTo name count = some renamed) : renamed.OfNames := by
  induction count with
  | zero => cases renames
  | succ count ih =>
    unfold AliasTable.canonicalizeUpTo at renames
    split at renames
    · rename_i path found
      cases renames
      have start := known _ (Entries.mem_of_get? found)
      refine ⟨List.append_ne_nil_of_left_ne_nil start.nonempty _,
        List.forall_mem_append.mpr ⟨start.segments, fun segment member => ?_⟩⟩
      exact named.segments segment (List.mem_of_mem_drop member)
    · exact ih renames

theorem AliasTable.OfNames.resolveAlias {aliases : AliasTable} (known : aliases.OfNames)
    (registry : Registry) {name : DottedName} (named : name.OfNames) :
    (registry.resolveAlias aliases name).OfNames := by
  unfold Registry.resolveAlias
  split
  · exact named
  · cases renames : aliases.canonicalize name with
    | none => exact named
    | some renamed => exact known.canonicalizeUpTo named renames

theorem Expr.OfNames.mapReferences {rename : DottedName → DottedName}
    (keeps : ∀ name : DottedName, name.OfNames → (rename name).OfNames) {e : Expr}
    (named : e.OfNames) : (e.mapReferences rename).OfNames := by
  induction named with
  | literal value span => exact .literal value span
  | list span _ ih =>
    rw [Expr.mapReferences, mapReferencesInItems_eq]
    exact .list span (List.forall_mem_map.mpr ih)
  | tuple span _ ih =>
    rw [Expr.mapReferences, mapReferencesInItems_eq]
    exact .tuple span (List.forall_mem_map.mpr ih)
  | map span _ ih =>
    rw [Expr.mapReferences, mapReferencesInEntries_eq]
    exact .map span (List.forall_mem_map.mpr ih)
  | macroRef span named => exact .macroRef span named
  | reference span inner named => exact .reference span inner (keeps _ named)

theorem Grammar.Body.ofNames_import {file : Nat} {ls : List Lexeme} {imported : Import}
    (derived : Grammar.Body file ls (.importPath imported)) (words : ∀ l ∈ ls, l.IsWord) :
    imported.path.OfNames := by
  cases derived with
  | importPath _ named =>
    obtain ⟨path, _⟩ := List.forall_mem_append.mp (List.forall_mem_cons.mp words).2
    exact named.ofNames path
  | importFrom _ named _ _ isName =>
    obtain ⟨path, behind⟩ := List.forall_mem_append.mp (List.forall_mem_cons.mp words).2
    obtain ⟨l, _⟩ := List.forall_mem_cons.mp (List.forall_mem_cons.mp behind).2
    have parent := named.ofNames path
    exact ⟨List.append_ne_nil_of_left_ne_nil parent.nonempty _,
      List.forall_mem_append.mpr ⟨parent.segments, List.forall_mem_singleton.mpr (l _ isName).1⟩⟩

/-- The imports among statements that were read have names of the language. -/
theorem FileScope.ofNames_after {statements : List Statement}
    (named : ∀ statement ∈ statements, ∀ imported, statement.body = .importPath imported →
      imported.path.OfNames) : (FileScope.after statements).aliases.OfNames := by
  induction statements using List.reverseRecOn with
  | nil => exact nofun
  | append_singleton statements last ih =>
    obtain ⟨earlier, here⟩ := List.forall_mem_append.mp named
    have known := ih earlier
    rw [show FileScope.after (statements ++ [last]) = (FileScope.after statements).next last from
      List.foldl_append]
    unfold FileScope.next
    split
    · rename_i imported same
      intro entry member
      rcases Entries.mem_insert member with rfl | old
      · exact here last List.mem_cons_self imported same
      · exact known entry old
    · exact known
    · exact known

theorem Statement.ofNames_import_of_parseSource {file : Nat} {text : String}
    {statements : List Statement} (read : parseSource file text = .ok statements) :
    ∀ statement ∈ statements, ∀ imported, statement.body = .importPath imported →
      imported.path.OfNames := by
  intro statement member imported same
  obtain ⟨lexemes, tokens, readLexemes⟩ := tokenize_of_parseSource read
  obtain ⟨ls, spelled, inside⟩ := (statements_of_ofLexemes readLexemes).spells member
  have derived := spelled.body
  rw [same] at derived
  exact derived.ofNames_import fun l here => Lexer.isName_of_tokenize tokens l (inside l here)

/-- The values in a log that a loader can have name macros and configurables by names of the
language. -/
theorem Loading.Reachable.ofNames_log {registry : Registry} {loading : Loading}
    (reachable : Loading.Reachable registry loading) :
    ∀ value ∈ loading.log.values, value.OfNames := by
  refine List.forall_mem_map.mpr fun event member => ?_
  obtain ⟨number, source, before, statement, after, said⟩ := reachable.traced event member
  obtain ⟨assignment, assigned, rfl⟩ := List.mem_map.mp said.assigns
  have imports := Statement.ofNames_import_of_parseSource said.parsed
  have known := FileScope.ofNames_after fun earlier inside =>
    imports earlier (List.mem_append_left _ inside)
  have plain := Statement.ofNames_of_parseSource said.parsed List.mem_append_cons_self _ assigned
  rw [Assignment.value_event, assignment.value_canonical, FileScope.canonicalValue]
  split
  · exact plain.mapReferences fun name named => known.resolveAlias registry named
  · exact plain

/-! ## Groups -/

/-- The groups are the chains of the keys that are bound, in the order in which each is first
bound. -/
structure Grouped (bound : List BindingKey) (chain : BindingKey → List BindingEvent)
    (groups : List (BindingKey × List BindingEvent)) : Prop where
  keys : groups.map Prod.fst = bound.eraseDups
  chains (key : BindingKey) : (Entries.get? key groups).getD [] = chain key

variable {bound : List BindingKey} {chain : BindingKey → List BindingEvent}

theorem Grouped.eq {groups : List (BindingKey × List BindingEvent)}
    (grouped : Grouped bound chain groups) :
    groups = bound.eraseDups.map fun key => (key, chain key) :=
  Entries.eq_map_of_keys grouped.keys grouped.chains

/-- The bindings as they are written are grouped by their keys. -/
theorem BindingEvent.grouped_group (events : List BindingEvent) :
    Grouped (events.map BindingEvent.key) (fun key => events.filter fun event => event.key == key)
      (group events) := by
  induction events using List.reverseRecOn with
  | nil => exact ⟨rfl, fun _ => rfl⟩
  | append_singleton events event ih =>
    have step : group (events ++ [event]) = Entries.update event.key
        (fun group? => group?.getD [] ++ [event]) (group events) := List.foldl_append
    refine ⟨?_, fun key => ?_⟩
    · rw [step, List.map_append, List.map_singleton]
      exact Entries.keys_update ih.keys _ _
    · rw [step, Entries.get?_update, List.filter_append, ← ih.chains]
      by_cases same : event.key = key
      · subst same
        simp
      · simp [same]

theorem BindingTable.Groups.grouped {registry : Registry} {events : List BindingEvent}
    {table : BindingTable} (groups : table.Groups registry events) :
    Grouped (events.filterMap (·.boundKey? registry))
      (fun key => (events.filter fun event => decide (event.Binds registry key)).map (·.under key))
      table.entries :=
  ⟨groups.keys, groups.history⟩

/-! ## Reports -/

/-- What is reported of keys that are bound in order, each with a chain of bindings.
* `keys`: the keys that are bound at least twice, once each, in the order in which each is first
  bound.
* `chains`: each with all its bindings, in order.
* `redundant`: it is said of a key that its bindings are the same just if all their values are
  alike.
* `conflicting`: it is said that they differ just if two of them are not. -/
structure Override.Exact (bound : List BindingKey) (chain : BindingKey → List BindingEvent)
    (overrides : List Override) : Prop where
  keys : overrides.map Override.key = bound.eraseDups.filter fun key => 2 ≤ bound.count key
  chains : ∀ override ∈ overrides, override.events = chain override.key
  redundant : ∀ override ∈ overrides, override.kind = .redundant ↔
    ∀ first ∈ override.events, ∀ second ∈ override.events, first.value.Alike second.value
  conflicting : ∀ override ∈ overrides, override.kind = .conflicting ↔
    ∃ first ∈ override.events, ∃ second ∈ override.events, ¬ first.value.Alike second.value

namespace Override

/-- Comparing with the first text is comparing all texts. -/
theorem kind_eq_redundant_iff {override : Override} :
    override.kind = .redundant ↔ ∀ first ∈ override.events, ∀ second ∈ override.events,
      first.value.toText = second.value.toText := by
  obtain ⟨key, events⟩ := override
  cases events with
  | nil => simp [kind]
  | cons head events =>
    have compared : (⟨key, head :: events⟩ : Override).kind = .redundant ↔
        ∀ event ∈ head :: events, head.value.toText = event.value.toText := by
      simp [kind]
    rw [compared]
    constructor
    · intro same first member second other
      rw [← same first member, ← same second other]
    · intro same event member
      exact same head List.mem_cons_self event member

theorem ofGroups_eq {groups : List (BindingKey × List BindingEvent)}
    (grouped : Grouped bound chain groups) (counts : ∀ key, (chain key).length = bound.count key) :
    ofGroups groups = (bound.eraseDups.filter fun key => 2 ≤ bound.count key).map fun key =>
      ⟨key, chain key⟩ := by
  rw [ofGroups, grouped.eq, List.filter_map, List.map_map]
  refine congrArg (List.map _) (List.filter_congr fun key _ => decide_eq_decide.mpr ?_)
  rw [← counts]
  exact Iff.rfl

/-- Bindings that are grouped by key are reported exactly if their values have names of the language
in them. -/
theorem exact_ofGroups {groups : List (BindingKey × List BindingEvent)}
    (grouped : Grouped bound chain groups) (counts : ∀ key, (chain key).length = bound.count key)
    (named : ∀ key, ∀ event ∈ chain key, event.value.OfNames) :
    Exact bound chain (ofGroups groups) := by
  have kinds (key : BindingKey) : (⟨key, chain key⟩ : Override).kind = .redundant ↔
      ∀ first ∈ chain key, ∀ second ∈ chain key, first.value.Alike second.value := by
    rw [kind_eq_redundant_iff]
    exact forall₂_congr fun first member => forall₂_congr fun second other =>
      (named key first member).toText_eq_iff (named key second other)
  rw [ofGroups_eq grouped counts]
  refine ⟨?_, List.forall_mem_map.mpr fun _ _ => rfl,
    List.forall_mem_map.mpr fun key _ => kinds key, List.forall_mem_map.mpr fun key _ => ?_⟩
  · rw [List.map_map]
    exact List.map_id _
  · have either : (⟨key, chain key⟩ : Override).kind = .conflicting ↔
        ¬ (⟨key, chain key⟩ : Override).kind = .redundant := by
      cases (⟨key, chain key⟩ : Override).kind <;> simp
    rw [either, kinds]
    push Not
    rfl

theorem exists_winner_of_mem {groups : List (BindingKey × List BindingEvent)} {override : Override}
    (member : override ∈ ofGroups groups) : ∃ last, override.winner? = some last := by
  obtain ⟨group, inside, rfl⟩ := List.mem_map.mp member
  have several := of_decide_eq_true (List.mem_filter.mp inside).2
  have nonempty := List.ne_nil_of_length_pos (Nat.zero_lt_of_lt several)
  exact ⟨_, List.getLast?_eq_some_getLast nonempty⟩

end Override

/-! ## Logs and tables -/

namespace Log

variable {log : Log} {registry : Registry} {table : BindingTable}

/-- The bindings of a log without a fault are grouped in its table. -/
theorem groups_of_replay (replayed : log.replay registry = .ok table) :
    table.Groups registry log.bindings := by
  rcases sound_or_first_fault registry log.bindings with sound | ⟨_, _, _, _, split, clean, fault⟩
  · obtain ⟨whole, run, groups⟩ := exists_groups_of_sound .empty sound
    cases replayed.symm.trans run
    exact groups
  · rw [replay, split, foldlM_of_fault clean fault] at replayed
    cases replayed

theorem exact_overrides (named : ∀ value ∈ log.values, value.OfNames) :
    Override.Exact (log.bindings.map BindingEvent.key) log.history log.overrides := by
  refine Override.exact_ofGroups (BindingEvent.grouped_group log.bindings) (fun key => ?_)
    fun key event member => named _ (mem_values_of_binding (List.mem_filter.mp member).1)
  rw [List.count_eq_countP, List.countP_map, List.countP_eq_length_filter]
  rfl

theorem exact_overrides_of_replay (named : ∀ value ∈ log.values, value.OfNames)
    (replayed : log.replay registry = .ok table) :
    Override.Exact (log.bindings.filterMap (·.boundKey? registry))
      (fun key => (log.bindingsOf registry key).map (·.under key)) table.overrides := by
  refine Override.exact_ofGroups (groups_of_replay replayed).grouped (fun key => ?_)
    (fun key => List.forall_mem_map.mpr fun event member =>
      named event.value (mem_values_of_binding (List.mem_filter.mp member).1))
  rw [List.length_map, List.count_eq_countP, List.countP_filterMap, List.countP_eq_length_filter]
  refine congrArg List.length (List.filter_congr fun event _ => ?_)
  rw [Bool.eq_iff_iff, decide_eq_true_iff, BindingEvent.binds_iff_boundKey?]
  cases event.boundKey? registry <;> simp

end Log

/-- Whatever calls a loader took:
* what its log reports is exact for the keys as they are written, and the last binding that is
  reported of a key is the one that a query finds;
* what its table reports is exact for the registered names, and the last binding that is reported of
  a key is the one that counts. -/
theorem Loading.Reachable.overrides_exact {registry : Registry} {loading : Loading}
    (reachable : Loading.Reachable registry loading) :
    Override.Exact (loading.log.bindings.map BindingEvent.key) loading.log.history
      loading.log.overrides ∧
    (∀ override ∈ loading.log.overrides, ∃ last, override.winner? = some last ∧
      loading.log.query override.key = some last.value) ∧
    ∀ table, loading.log.replay registry = .ok table →
      Override.Exact (loading.log.bindings.filterMap (·.boundKey? registry))
        (fun key => (loading.log.bindingsOf registry key).map (·.under key)) table.overrides ∧
      ∀ override ∈ table.overrides, ∃ last, override.winner? = some last ∧
        table.get? override.key = some last := by
  have named := reachable.ofNames_log
  have log := Log.exact_overrides named
  refine ⟨log, fun override member => ?_, fun table replayed => ?_⟩
  · obtain ⟨last, winner⟩ := Override.exists_winner_of_mem member
    refine ⟨last, winner, ?_⟩
    rw [Log.query, ← log.chains override member]
    exact congrArg (Option.map BindingEvent.value) winner
  · have whole := Log.exact_overrides_of_replay named replayed
    refine ⟨whole, fun override member => ?_⟩
    obtain ⟨last, winner⟩ := Override.exists_winner_of_mem member
    refine ⟨last, winner, ?_⟩
    rw [BindingTable.get?, (Log.groups_of_replay replayed).history, ← Log.bindingsOf,
      ← whole.chains override member]
    exact winner

/-- A value that is bound twice, also under the whole name of its symbol and there to another value,
and a reference that is spelled in two ways. -/
def Loading.withRepetitions : Loading :=
  .ofBindings ["Leaf.size = 1", "a/Box.content = [@Leaf(), 2.0]", "Leaf.size = 1",
    "m.Leaf.size = 2", "a/Box.content = [@m.Leaf(), 2.0]"]

/-- The keys of the reports, and what is said of each. -/
def Override.summary (overrides : List Override) : List (String × OverrideKind) :=
  overrides.map fun override => (override.key.toText, override.kind)

theorem Loading.overrides_exact_withRepetitions :
    Override.summary withRepetitions.log.overrides =
      [("Leaf.size", .redundant), ("a/Box.content", .conflicting)] ∧
    (withRepetitions.log.replay .sample).toOption.map
        (fun table => Override.summary table.overrides) =
      some [("m.Leaf.size", .conflicting), ("a/m.Box.content", .conflicting)] ∧
    Override.Exact (withRepetitions.log.bindings.map BindingEvent.key) withRepetitions.log.history
      withRepetitions.log.overrides := by
  have reachable : Loading.Reachable .sample withRepetitions := .applyBindings _ .start
  exact ⟨by decide +kernel, by decide +kernel, reachable.overrides_exact.1⟩

end ConfigBinding
