import ConfigBinding.Proofs.Governing
import Mathlib.Algebra.GroupWithZero.Nat

/-!
# The table of a log

Each binding of the log goes into one group of the table, the one of the parameter that it binds
under the registered name. The log has a table if every binding binds a parameter of a configurable;
if not, the first binding that does not is reported, with the place where it stands.

Results:
1. `BindingTable.Groups.insert`: one more binding extends one group, or opens one behind the others.
2. `BindingTable.Groups.unique`: the bindings leave no choice of a table.
3. `Log.replay_exact`: which logs have a table and which one, and what is reported of the others.
-/

namespace ConfigBinding

/-! ## Entries -/

namespace Entries

variable {κ α : Type} [DecidableEq κ]

/-- In a sum over all values an insertion puts the new value in the place of the one it replaces. -/
theorem sum_insert (measure : α → Nat) (key : κ) (a : α) (entries : List (κ × α)) :
    ((insert key a entries).map fun entry => measure entry.2).sum +
        ((get? key entries).elim 0 measure) =
      (entries.map fun entry => measure entry.2).sum + measure a := by
  induction entries with
  | nil => simp [insert, get?]
  | cons entry entries ih =>
    rw [insert, get?]
    split
    · simp only [List.map_cons, List.sum_cons, Option.elim_some]
      omega
    · simp only [List.map_cons, List.sum_cons]
      omega

/-- Entries that have each key once are their keys with what is found under them. -/
theorem eq_map_get? {entries : List (κ × α)} (nodup : (entries.map Prod.fst).Nodup)
    (default : α) :
    entries = (entries.map Prod.fst).map fun key => (key, (get? key entries).getD default) := by
  induction entries with
  | nil => rfl
  | cons entry entries ih =>
    obtain ⟨key, a⟩ := entry
    obtain ⟨fresh, nodup⟩ := List.nodup_cons.mp nodup
    have apart : ∀ other ∈ entries.map Prod.fst,
        (other, (get? other ((key, a) :: entries)).getD default) =
          (other, (get? other entries).getD default) := by
      rintro other member
      have differ : key ≠ other := fun same => fresh (by rwa [show key = other from same])
      rw [get?, if_neg differ]
    rw [List.map_cons, List.map_cons, List.map_congr_left apart, ← ih nodup]
    simp [get?]

end Entries

/-- One more member stands behind the others, if it is a new one. -/
theorem eraseDups_concat {α : Type} [DecidableEq α] (members : List α) (last : α) :
    (members ++ [last]).eraseDups =
      if last ∈ members then members.eraseDups else members.eraseDups ++ [last] := by
  rw [List.eraseDups_append]
  by_cases known : last ∈ members <;> simp [List.removeAll, List.eraseDups_cons, known]

/-- Without its repetitions a list has each member once. -/
theorem nodup_eraseDups {α : Type} [DecidableEq α] (members : List α) :
    members.eraseDups.Nodup := by
  induction members using List.reverseRecOn with
  | nil => exact List.nodup_nil
  | append_singleton members last ih =>
    rw [eraseDups_concat]
    split
    · exact ih
    · rename_i fresh
      refine List.nodup_append.mpr ⟨ih, List.pairwise_singleton _ last, ?_⟩
      intro member inside other isLast same
      rw [same, List.mem_singleton.mp isLast] at inside
      exact fresh (List.mem_eraseDups.mp inside)

namespace Entries

variable {κ α : Type} [DecidableEq κ]

/-- A changed entry comes behind the others, if its key is new. -/
theorem keys_update {entries : List (κ × α)} {keys : List κ}
    (same : entries.map Prod.fst = keys.eraseDups) (key : κ) (change : Option α → α) :
    (update key change entries).map Prod.fst = (keys ++ [key]).eraseDups := by
  have known : key ∈ entries.map Prod.fst ↔ key ∈ keys := by rw [same, List.mem_eraseDups]
  rw [update, keys_insert, eraseDups_concat, ← same]
  exact if_congr known rfl rfl

/-- Entries with the given keys are known by what is found under each key. -/
theorem eq_map_of_keys {entries : List (κ × α)} {keys : List κ}
    (same : entries.map Prod.fst = keys.eraseDups) {default : α} {found : κ → α}
    (finds : ∀ key, (get? key entries).getD default = found key) :
    entries = keys.eraseDups.map fun key => (key, found key) := by
  have nodup : (entries.map Prod.fst).Nodup := same ▸ nodup_eraseDups _
  refine (eq_map_get? nodup default).trans ?_
  rw [same]
  exact List.map_congr_left fun key _ => congrArg (Prod.mk key) (finds key)

end Entries

/-! ## Single bindings -/

theorem Registration.hasParam_iff {registration : Registration} {name : String} :
    registration.hasParam name = true ↔ name ∈ registration.params.map Param.name := by
  simp [hasParam, param?, List.find?_isSome]

namespace BindingEvent

/-- The binding binds a parameter of a configurable. -/
def Sound (registry : Registry) (event : BindingEvent) : Prop :=
  ∃ registration, registry.lookup event.key.symbol = .ok registration ∧
    event.key.param ∈ registration.params.map Param.name

/-- What is wrong with a binding that binds no parameter of a configurable: the symbol is not found,
for the reason that the search gives, or the configurable found has no such parameter. -/
inductive Fault (registry : Registry) (event : BindingEvent) : ConfigError → Prop
  | unknown {name : String}
      (missing : registry.lookup event.key.symbol = .error (.unknownConfigurable name none)) :
      Fault registry event (.unknownConfigurable name (some event.origin))
  | ambiguous {name : String} {candidates : List String}
      (several : registry.lookup event.key.symbol =
        .error (.ambiguousConfigurable name candidates none)) :
      Fault registry event (.ambiguousConfigurable name candidates (some event.origin))
  | unknownParameter {registration : Registration}
      (found : registry.lookup event.key.symbol = .ok registration)
      (undeclared : event.key.param ∉ registration.params.map Param.name) :
      Fault registry event
        (.unknownParameter registration.name.toText event.key.param (some event.origin))

/-- What the binding binds, under the registered name. -/
def boundKey? (registry : Registry) (event : BindingEvent) : Option BindingKey :=
  (registry.canonical? event.key.symbol).map fun name => { event.key with symbol := name }

/-- The same binding of another key. -/
def under (event : BindingEvent) (key : BindingKey) : BindingEvent := { event with key := key }

theorem binds_iff_boundKey? {registry : Registry} {event : BindingEvent} {key : BindingKey} :
    event.Binds registry key ↔ event.boundKey? registry = some key := by
  obtain ⟨scope, symbol, param⟩ := key
  simp only [Binds, boundKey?, Option.map_eq_some_iff, BindingKey.mk.injEq]
  constructor
  · rintro ⟨sameScope, sameParam, named⟩
    exact ⟨symbol, named, sameScope, rfl, sameParam⟩
  · rintro ⟨name, named, sameScope, rfl, sameParam⟩
    exact ⟨sameScope, sameParam, named⟩

/-- A sound binding is rewritten to what it binds, and only such a binding is. -/
theorem canonical_eq_ok {registry : Registry} {event canonical : BindingEvent} :
    event.canonical registry = .ok canonical ↔
      event.Sound registry ∧
        ∃ key, event.boundKey? registry = some key ∧ event.under key = canonical := by
  unfold BindingEvent.canonical Sound boundKey? Registry.canonical?
  cases found : registry.lookup event.key.symbol with
  | error error => simp
  | ok registration =>
    dsimp only
    by_cases declared : event.key.param ∈ registration.params.map Param.name
    · rw [if_pos (Registration.hasParam_iff.mpr declared)]
      simp only [Except.ok.injEq, exists_eq_left', Option.map_some, Option.some.injEq, declared,
        true_and, under]
    · rw [if_neg (mt Registration.hasParam_iff.mp declared)]
      simp only [Except.ok.injEq, exists_eq_left', declared, false_and, reduceCtorEq]

theorem exists_canonical_of_sound {registry : Registry} {event : BindingEvent}
    (sound : event.Sound registry) :
    ∃ key, event.boundKey? registry = some key ∧
      event.canonical registry = .ok (event.under key) := by
  obtain ⟨registration, found, _⟩ := id sound
  have named : registry.canonical? event.key.symbol = some registration.name := by
    rw [Registry.canonical?, found]
  have bound : event.boundKey? registry = some { event.key with symbol := registration.name } := by
    rw [boundKey?, named]
    rfl
  exact ⟨_, bound, canonical_eq_ok.mpr ⟨sound, _, bound, rfl⟩⟩

/-- The other bindings are refused for what is wrong with them. -/
theorem canonical_eq_error {registry : Registry} {event : BindingEvent} {error : ConfigError} :
    event.canonical registry = .error error ↔ event.Fault registry error := by
  have search : registry.lookup event.key.symbol =
        .error (.unknownConfigurable event.key.symbol.toText none) ∨
      (∃ candidates, registry.lookup event.key.symbol =
        .error (.ambiguousConfigurable event.key.symbol.toText candidates none)) ∨
      ∃ registration, registry.lookup event.key.symbol = .ok registration := by
    unfold Registry.lookup
    split
    · exact .inr (.inr ⟨_, rfl⟩)
    · split
      · exact .inl rfl
      · exact .inr (.inr ⟨_, rfl⟩)
      · exact .inr (.inl ⟨_, rfl⟩)
  unfold BindingEvent.canonical
  obtain missing | ⟨candidates, several⟩ | ⟨registration, found⟩ := search
  · rw [missing]
    constructor
    · rintro ⟨⟩
      exact .unknown missing
    · rintro (missing' | several | ⟨found, _⟩) <;> simp_all [ConfigError.at?]
  · rw [several]
    constructor
    · rintro ⟨⟩
      exact .ambiguous several
    · rintro (missing | several' | ⟨found, _⟩) <;> simp_all [ConfigError.at?]
  · rw [found]
    by_cases declared : event.key.param ∈ registration.params.map Param.name
    · simp only [if_pos (Registration.hasParam_iff.mpr declared), reduceCtorEq, false_iff]
      rintro (missing | several | ⟨found', undeclared⟩) <;> simp_all
    · simp only [if_neg (mt Registration.hasParam_iff.mp declared), Except.error.injEq]
      constructor
      · rintro rfl
        exact .unknownParameter found declared
      · rintro (missing | several | ⟨found', undeclared⟩) <;> simp_all

end BindingEvent

/-! ## Groups -/

/-- The table has the given bindings by what they bind. -/
structure BindingTable.Groups (registry : Registry) (events : List BindingEvent)
    (table : BindingTable) : Prop where
  /-- What stands under a key are the bindings of that parameter, in order, each under this key. -/
  history (key : BindingKey) : table.history key =
    (events.filter fun event => decide (event.Binds registry key)).map (·.under key)
  /-- The keys are those that are bound, in the order in which each is first bound. -/
  keys : table.entries.map Prod.fst = (events.filterMap (·.boundKey? registry)).eraseDups
  nonempty : ∀ group ∈ table.entries, group.2 ≠ []
  /-- Each binding stands in one group. -/
  lengths : (table.entries.map fun group => group.2.length).sum = events.length

namespace BindingTable.Groups

variable {registry : Registry} {events : List BindingEvent} {table : BindingTable}

theorem empty : BindingTable.empty.Groups registry [] where
  history _ := rfl
  keys := rfl
  nonempty _ member := nomatch member
  lengths := rfl

/-- One more binding extends the group of what it binds, or opens one behind the others. -/
theorem insert (groups : table.Groups registry events) {event : BindingEvent} {key : BindingKey}
    (bound : event.boundKey? registry = some key) :
    (table.insert (event.under key)).Groups registry (events ++ [event]) where
  history other := by
    have binds : event.Binds registry other ↔ key = other := by
      rw [BindingEvent.binds_iff_boundKey?, bound, Option.some.injEq]
    rw [BindingTable.history_insert, groups.history, List.filter_append, List.map_append]
    by_cases same : key = other
    · subst same
      simp [binds, BindingEvent.under]
    · simp [binds, same, BindingEvent.under]
  keys := by
    have single : [event].filterMap (·.boundKey? registry) = [key] := by simp [bound]
    rw [BindingTable.insert, List.filterMap_append, single]
    exact Entries.keys_update groups.keys key fun group? => group?.getD [] ++ [event.under key]
  nonempty group member := by
    rcases Entries.mem_insert member with rfl | old
    · simp
    · exact groups.nonempty group old
  lengths := by
    have sum := Entries.sum_insert List.length key
      ((Entries.get? key table.entries).getD [] ++ [event.under key]) table.entries
    have grown : ((Entries.get? key table.entries).getD [] ++ [event.under key]).length =
        (Entries.get? key table.entries).elim 0 List.length + 1 := by
      cases Entries.get? key table.entries <;> simp
    rw [groups.lengths, grown] at sum
    rw [List.length_append, List.length_singleton]
    exact Nat.add_right_cancel (sum.trans (by omega))

/-- The bindings leave no choice of a table. -/
theorem unique {other : BindingTable} (groups : table.Groups registry events)
    (others : other.Groups registry events) : table = other := by
  have rebuilt {table : BindingTable} (groups : table.Groups registry events) :
      table.entries = (events.filterMap (·.boundKey? registry)).eraseDups.map fun key =>
        (key, (events.filter fun event => decide (event.Binds registry key)).map
          (·.under key)) :=
    Entries.eq_map_of_keys groups.keys groups.history
  obtain ⟨entries⟩ := table
  obtain ⟨otherEntries⟩ := other
  exact congrArg BindingTable.mk ((rebuilt groups).trans (rebuilt others).symm)

end BindingTable.Groups

/-! ## The whole log -/

namespace Log

variable {registry : Registry}

/-- The table of the bindings behind those that are grouped already. -/
theorem exists_groups_of_sound {before events : List BindingEvent} {table : BindingTable}
    (groups : table.Groups registry before) (sound : ∀ event ∈ events, event.Sound registry) :
    ∃ whole, events.foldlM (fun table event => (event.canonical registry).map table.insert) table =
        .ok whole ∧ whole.Groups registry (before ++ events) := by
  induction events generalizing before table with
  | nil => exact ⟨table, rfl, by rwa [List.append_nil]⟩
  | cons event events ih =>
    obtain ⟨first, others⟩ := List.forall_mem_cons.mp sound
    obtain ⟨key, bound, renamed⟩ := event.exists_canonical_of_sound first
    obtain ⟨whole, run, grouped⟩ := ih (groups.insert bound) others
    refine ⟨whole, ?_, by rwa [← List.append_cons] at grouped⟩
    rw [List.foldlM_cons, renamed]
    exact run

/-- Bindings behind a first one that is refused are not looked at. -/
theorem foldlM_of_fault {before behind : List BindingEvent} {event : BindingEvent}
    {error : ConfigError} (sound : ∀ earlier ∈ before, earlier.Sound registry)
    (fault : event.Fault registry error) (table : BindingTable) :
    (before ++ event :: behind).foldlM
      (fun table event => (event.canonical registry).map table.insert) table = .error error := by
  induction before generalizing table with
  | nil =>
    rw [List.nil_append, List.foldlM_cons, BindingEvent.canonical_eq_error.mpr fault]
    rfl
  | cons earlier before ih =>
    obtain ⟨first, others⟩ := List.forall_mem_cons.mp sound
    obtain ⟨key, _, renamed⟩ := earlier.exists_canonical_of_sound first
    rw [List.cons_append, List.foldlM_cons, renamed]
    exact ih others (table.insert (earlier.under key))

/-- Either all bindings are sound, or there is a first one that is not. -/
theorem sound_or_first_fault (registry : Registry) (events : List BindingEvent) :
    (∀ event ∈ events, event.Sound registry) ∨
      ∃ before event behind error, events = before ++ event :: behind ∧
        (∀ earlier ∈ before, earlier.Sound registry) ∧ event.Fault registry error := by
  induction events with
  | nil => exact .inl fun _ member => nomatch member
  | cons event events ih =>
    cases renamed : event.canonical registry with
    | error error =>
      have fault := BindingEvent.canonical_eq_error.mp renamed
      exact .inr ⟨[], event, events, error, rfl, List.forall_mem_nil _, fault⟩
    | ok canonical =>
      have sound := (BindingEvent.canonical_eq_ok.mp renamed).1
      rcases ih with all | ⟨before, fault, behind, error, rfl, clean, wrong⟩
      · exact .inl (List.forall_mem_cons.mpr ⟨sound, all⟩)
      · exact .inr ⟨event :: before, fault, behind, error, rfl,
          List.forall_mem_cons.mpr ⟨sound, clean⟩, wrong⟩

/-- A log has a table if each of its bindings binds a parameter of a configurable. The table is the
one that groups all bindings by what they bind. In every other case the first binding that binds no
parameter is reported, with what is wrong with it. -/
theorem replay_exact (log : Log) (registry : Registry) :
    ((∃ table, log.replay registry = .ok table) ↔
        ∀ event ∈ log.bindings, event.Sound registry) ∧
      (∀ table, log.replay registry = .ok table ↔
        (∀ event ∈ log.bindings, event.Sound registry) ∧ table.Groups registry log.bindings) ∧
      ∀ error, log.replay registry = .error error ↔
        ∃ before event behind, log.bindings = before ++ event :: behind ∧
          (∀ earlier ∈ before, earlier.Sound registry) ∧ event.Fault registry error := by
  have grouped (sound : ∀ event ∈ log.bindings, event.Sound registry) :
      ∃ table, log.replay registry = .ok table ∧ table.Groups registry log.bindings :=
    exists_groups_of_sound .empty sound
  have refused {before event behind error} (split : log.bindings = before ++ event :: behind)
      (clean : ∀ earlier ∈ before, earlier.Sound registry) (fault : event.Fault registry error) :
      log.replay registry = .error error := by
    rw [replay, split]
    exact foldlM_of_fault clean fault .empty
  have sound {table} (replayed : log.replay registry = .ok table) :
      ∀ event ∈ log.bindings, event.Sound registry := by
    rcases sound_or_first_fault registry log.bindings with all | ⟨_, _, _, _, split, clean, fault⟩
    · exact all
    · cases replayed.symm.trans (refused split clean fault)
  refine ⟨⟨fun ⟨_, replayed⟩ => sound replayed, fun all => ?_⟩, fun table => ⟨?_, ?_⟩,
    fun error => ⟨?_, ?_⟩⟩
  · obtain ⟨table, replayed, _⟩ := grouped all
    exact ⟨table, replayed⟩
  · intro replayed
    obtain ⟨other, same, groups⟩ := grouped (sound replayed)
    cases replayed.symm.trans same
    exact ⟨sound replayed, groups⟩
  · rintro ⟨all, groups⟩
    obtain ⟨other, replayed, others⟩ := grouped all
    rw [groups.unique others, replayed]
  · intro failed
    rcases sound_or_first_fault registry log.bindings with
      all | ⟨before, event, behind, found, split, clean, fault⟩
    · obtain ⟨table, replayed, _⟩ := grouped all
      cases failed.symm.trans replayed
    · cases failed.symm.trans (refused split clean fault)
      exact ⟨before, event, behind, split, clean, fault⟩
  · rintro ⟨before, event, behind, split, clean, fault⟩
    exact refused split clean fault

end Log

end ConfigBinding
