import ConfigBinding.Attempt
import ConfigBinding.Manifest
import Mathlib.Data.List.Nodup

/-!
# Runs of registrations

A registry is filled by calls that register one configurable, or those that a manifest declares. A
call may fail, a manifest also half way. Whatever the calls are, configurables are only ever added
at the end (`Registry.Registers`), so that what holds of one registration holds of a run: the names
stay distinct, and what a name means changes only by a configurable of whose name it is a suffix.

How the text of a manifest is read is left open: any reader will do that gives the entries of a
manifest or fails.

Results:
1. `Registry.lookup_eq_iff`: what a name means.
2. `Registry.Registers.lookup_eq`: what registrations leave as it is.
3. `Registry.reached_spec`: registries after any calls, and what one more call does.
-/

namespace ConfigBinding

/-- The name is the name of the configurable, or the last segments of it. -/
def Registration.HasSuffix (registration : Registration) (name : DottedName) : Prop :=
  name.segments <:+ registration.name.segments

namespace Registry

/-- No two configurables have the same name, and no two parameters of one of them. -/
structure WellFormed (registry : Registry) : Prop where
  names : (registry.entries.map Registration.name).Nodup
  params : ∀ registration ∈ registry.entries, (registration.params.map Param.name).Nodup

/-- `registry.Means name result`: the result of looking up the name.
* It is the configurable of this name.
* Without one, it is the only configurable of whose name it is a suffix.
* If there is none, the name is unknown.
* If there are several, the name is ambiguous, and all of them are reported in order. -/
inductive Means (registry : Registry) (name : DottedName) : Except ConfigError Registration → Prop
  | exact {registration : Registration} :
      registration ∈ registry.entries → registration.name = name →
      Means registry name (.ok registration)
  | only {registration : Registration} :
      (∀ other ∈ registry.entries, other.name ≠ name) →
      registration ∈ registry.entries → registration.HasSuffix name →
      (∀ other ∈ registry.entries, other.HasSuffix name → other = registration) →
      Means registry name (.ok registration)
  | unknown :
      (∀ other ∈ registry.entries, ¬ other.HasSuffix name) →
      Means registry name (.error (.unknownConfigurable name.toText none))
  | ambiguous :
      (∀ other ∈ registry.entries, other.name ≠ name) →
      2 ≤ (registry.matching name).length →
      Means registry name (.error (.ambiguousConfigurable name.toText
        ((registry.matching name).map fun registration => registration.name.toText) none))

/-! ## Looking up -/

section

variable {registry : Registry} {name : DottedName}

theorem mem_matching {registration : Registration} : registration ∈ registry.matching name ↔
    registration ∈ registry.entries ∧ registration.HasSuffix name := by
  rw [matching, List.mem_filter, DottedName.endsWith_iff]
  rfl

theorem get?_eq_none :
    registry.get? name = none ↔ ∀ other ∈ registry.entries, other.name ≠ name := by
  simp [get?]

theorem means_lookup (registry : Registry) (name : DottedName) :
    registry.Means name (registry.lookup name) := by
  cases exact : registry.get? name with
  | some registration =>
    rw [lookup_exact exact]
    exact .exact (get?_eq_some exact).2 (get?_eq_some exact).1
  | none =>
    have apart := get?_eq_none.mp exact
    unfold lookup
    rw [exact]
    dsimp only
    split
    · rename_i none
      refine .unknown fun other member suffix => ?_
      have found := mem_matching.mpr ⟨member, suffix⟩
      rw [none] at found
      cases found
    · rename_i registration one
      have listed : registration ∈ registry.matching name := one ▸ List.mem_cons_self
      refine .only apart (mem_matching.mp listed).1 (mem_matching.mp listed).2
        fun other member suffix => ?_
      have found := mem_matching.mpr ⟨member, suffix⟩
      rw [one] at found
      exact List.mem_singleton.mp found
    · rename_i several notNone notOne
      refine .ambiguous apart ?_
      match matched : registry.matching name with
      | [] => exact absurd matched notNone
      | [registration] => exact absurd matched (notOne registration)
      | _ :: _ :: _ => exact Nat.le_add_left 2 _

theorem WellFormed.eq_of_name (wellFormed : registry.WellFormed) {first second : Registration}
    (isEntry : first ∈ registry.entries) (also : second ∈ registry.entries)
    (same : first.name = second.name) : first = second :=
  List.inj_on_of_nodup_map wellFormed.names isEntry also same

theorem Means.unique (wellFormed : registry.WellFormed)
    {first second : Except ConfigError Registration}
    (means : registry.Means name first) (also : registry.Means name second) : first = second := by
  have several {registration : Registration} (enough : 2 ≤ (registry.matching name).length)
      (only : ∀ other ∈ registry.entries, other.HasSuffix name → other = registration) : False := by
    have distinct : (registry.matching name).Nodup :=
      (List.Nodup.of_map _ wellFormed.names).filter _
    match matched : registry.matching name with
    | [] | [_] => rw [matched] at enough; simp at enough
    | one :: two :: more =>
      have same (other : Registration) (listed : other ∈ registry.matching name) :
          other = registration :=
        only other (mem_matching.mp listed).1 (mem_matching.mp listed).2
      rw [matched] at same distinct
      have equal : one = two := (same one (by simp)).trans (same two (by simp)).symm
      exact (List.nodup_cons.mp distinct).1 (equal ▸ List.mem_cons_self)
  have some (enough : 2 ≤ (registry.matching name).length)
      (none : ∀ other ∈ registry.entries, ¬ other.HasSuffix name) : False := by
    obtain ⟨one, listed⟩ := List.exists_mem_of_length_pos (Nat.lt_of_succ_lt enough)
    exact none one (mem_matching.mp listed).1 (mem_matching.mp listed).2
  cases means with
  | exact isEntry named =>
    cases also with
    | exact isEntryToo namedToo =>
      rw [wellFormed.eq_of_name isEntry isEntryToo (named.trans namedToo.symm)]
    | only apart => exact absurd named (apart _ isEntry)
    | unknown none => exact absurd (named ▸ List.suffix_refl _) (none _ isEntry)
    | ambiguous apart => exact absurd named (apart _ isEntry)
  | only apart isEntry suffix alone =>
    cases also with
    | exact isEntryToo namedToo => exact absurd namedToo (apart _ isEntryToo)
    | only _ isEntryToo suffixToo => rw [alone _ isEntryToo suffixToo]
    | unknown none => exact absurd suffix (none _ isEntry)
    | ambiguous _ enough => exact (several enough alone).elim
  | unknown none =>
    cases also with
    | exact isEntryToo namedToo =>
      exact absurd (namedToo ▸ List.suffix_refl _) (none _ isEntryToo)
    | only _ isEntryToo suffixToo => exact absurd suffixToo (none _ isEntryToo)
    | unknown => rfl
    | ambiguous _ enough => exact (some enough none).elim
  | ambiguous apart enough =>
    cases also with
    | exact isEntryToo namedToo => exact absurd namedToo (apart _ isEntryToo)
    | only _ _ _ alone => exact (several enough alone).elim
    | unknown none => exact (some enough none).elim
    | ambiguous => rfl

/-- Looking up gives what the name means. -/
theorem lookup_eq_iff (wellFormed : registry.WellFormed)
    {result : Except ConfigError Registration} :
    registry.lookup name = result ↔ registry.Means name result :=
  ⟨fun same => same ▸ registry.means_lookup name,
    fun means => (registry.means_lookup name).unique wellFormed means⟩

theorem mem_of_lookup {registration : Registration}
    (found : registry.lookup name = .ok registration) :
    registration ∈ registry.entries := by
  have means := registry.means_lookup name
  rw [found] at means
  cases means with
  | exact isEntry => exact isEntry
  | only _ isEntry => exact isEntry

/-- What was found is also found by its own name. -/
theorem lookup_own_name (wellFormed : registry.WellFormed) {registration : Registration}
    (found : registry.lookup name = .ok registration) :
    registry.lookup registration.name = .ok registration :=
  (lookup_eq_iff wellFormed).mpr (.exact (mem_of_lookup found) rfl)

end

/-! ## Registrations one after the other -/

/-- The configurables are registered one after the other. -/
inductive Registers : Registry → List Registration → Registry → Prop
  | nil (registry : Registry) : Registers registry [] registry
  | cons {registry middle last : Registry} {registration : Registration}
      {more : List Registration} :
      registry.register registration = .ok middle → Registers middle more last →
        Registers registry (registration :: more) last

section

variable {registry next : Registry} {added : List Registration}

theorem Registers.entries_eq (registers : registry.Registers added next) :
    next.entries = registry.entries ++ added := by
  induction registers with
  | nil => exact (List.append_nil _).symm
  | cons registered _ ih =>
    obtain ⟨_, _, rfl⟩ := register_eq_ok.mp registered
    rw [ih, List.append_assoc]
    rfl

theorem WellFormed.register (wellFormed : registry.WellFormed) {registration : Registration}
    (registered : registry.register registration = .ok next) : next.WellFormed := by
  obtain ⟨isNew, distinct, rfl⟩ := register_eq_ok.mp registered
  have apart : ∀ other ∈ registry.entries, other.name ≠ registration.name :=
    get?_eq_none.mp (Option.not_isSome_iff_eq_none.mp (by rw [contains] at isNew; simp [isNew]))
  constructor
  · rw [List.map_append, List.map_singleton]
    refine List.nodup_append.mpr ⟨wellFormed.names, List.nodup_singleton _, ?_⟩
    intro name member other same
    obtain ⟨entry, isEntry, rfl⟩ := List.mem_map.mp member
    rw [List.mem_singleton.mp same]
    exact apart entry isEntry
  · exact List.forall_mem_append.mpr ⟨wellFormed.params, List.forall_mem_singleton.mpr distinct⟩

theorem WellFormed.registers (wellFormed : registry.WellFormed)
    (registers : registry.Registers added next) : next.WellFormed := by
  induction registers with
  | nil => exact wellFormed
  | cons registered _ ih => exact ih (wellFormed.register registered)

/-- Configurables of whose names a name is no suffix do not change what it means. -/
theorem Registers.lookup_eq (registers : registry.Registers added next) {name : DottedName}
    (apart : ∀ registration ∈ added, ¬ registration.HasSuffix name) :
    next.lookup name = registry.lookup name := by
  have others : ∀ registration ∈ added, registration.name ≠ name :=
    fun registration member same => apart registration member (same ▸ List.suffix_refl _)
  have noneExact : added.find? (fun registration => decide (registration.name = name)) = none :=
    List.find?_eq_none.mpr fun registration member => by simpa using others registration member
  have noneMatch : added.filter (fun registration => registration.name.endsWith name) = [] :=
    List.filter_eq_nil_iff.mpr fun registration member =>
      mt DottedName.endsWith_iff.mp (apart registration member)
  have exact : next.get? name = registry.get? name := by
    rw [get?, registers.entries_eq, List.find?_append, noneExact, Option.or_none]
    rfl
  have matches' : next.matching name = registry.matching name := by
    rw [matching, registers.entries_eq, List.filter_append, noneMatch, List.append_nil]
    rfl
  rw [lookup, lookup, exact, matches']

end

/-! ## Calls -/

/-- Registers what a manifest declares that is read by `read`. -/
def loadManifestBy (read : String → Option (List ManifestEntry)) (registry : Registry)
    (text : String) : Except ConfigError Nat × Registry :=
  match read text with
  | none => (.error (.invalidManifest none), registry)
  | some entries =>
    match registry.registerAll entries with
    | (none, registry) => (.ok entries.length, registry)
    | (some error, registry) => (.error error, registry)

theorem loadManifest_eq (registry : Registry) (text : String) :
    registry.loadManifest text = registry.loadManifestBy Manifest.parse? text := rfl

/-- A call that registers configurables. -/
inductive Call
  | register (registration : Registration)
  | manifest (text : String)

variable (read : String → Option (List ManifestEntry))

/-- The error of a call, if it fails, and all that is registered then. -/
def Call.run (registry : Registry) : Call → Option ConfigError × Registry
  | .register registration =>
    match registry.register registration with
    | .ok next => (none, next)
    | .error error => (some error, registry)
  | .manifest text =>
    match registry.loadManifestBy read text with
    | (.ok _, next) => (none, next)
    | (.error error, next) => (some error, next)

/-- The registry after the calls, which started with an empty one. -/
def reached (calls : List Call) : Registry :=
  calls.foldl (fun registry call => (call.run read registry).2) Registry.empty

/-- The configurables are those of the first entries of a manifest, and a call that fails leaves out
those of the other entries: the next one gives the error. -/
def Declared (registry : Registry) (entries : List ManifestEntry) (error? : Option ConfigError)
    (added : List Registration) : Prop :=
  match error? with
  | none =>
    List.Forall₂ (fun entry registration => entry.registration = .ok registration) entries added
  | some error => ∃ done failed rest, entries = done ++ failed :: rest ∧
      List.Forall₂ (fun entry registration => entry.registration = .ok registration) done added ∧
      failed.registration >>= (Registry.mk (registry.entries ++ added)).register = .error error

/-- What a call adds to a registry.
* A single configurable is added if the call succeeds, and nothing if it fails.
* A manifest that cannot be read adds nothing. One that can adds the configurables that it declares,
  up to the one that fails. -/
def Call.Adds (registry : Registry) : Call → Option ConfigError → List Registration → Prop
  | .register registration, none, added => added = [registration]
  | .register _, some _, added => added = []
  | .manifest text, error?, added =>
    match read text with
    | none => error?.isSome = true ∧ added = []
    | some entries => Declared registry entries error? added

theorem registerAll_registers (registry : Registry) (entries : List ManifestEntry) :
    ∃ added, registry.Registers added (registry.registerAll entries).2 ∧
      Declared registry entries (registry.registerAll entries).1 added := by
  induction entries generalizing registry with
  | nil => exact ⟨[], .nil registry, .nil⟩
  | cons entry entries ih =>
    unfold registerAll
    cases registered : entry.registration >>= registry.register with
    | error error =>
      refine ⟨[], .nil registry, [], entry, entries, rfl, .nil, ?_⟩
      rw [List.append_nil]
      exact registered
    | ok middle =>
      obtain ⟨registration, declared, registers⟩ := ok_of_bind registered
      obtain ⟨added, more, declares⟩ := ih middle
      refine ⟨registration :: added, .cons registers more, ?_⟩
      obtain ⟨_, _, rfl⟩ := register_eq_ok.mp registers
      dsimp only
      cases failed : (registerAll ⟨registry.entries ++ [registration]⟩ entries).1 with
      | none =>
        rw [failed] at declares
        exact .cons declared declares
      | some error =>
        rw [failed] at declares
        obtain ⟨done, next, rest, rfl, each, fails⟩ := declares
        rw [List.append_assoc] at fails
        exact ⟨entry :: done, next, rest, rfl, .cons declared each, fails⟩

theorem Call.run_registers (registry : Registry) (call : Call) :
    ∃ added, registry.Registers added (call.run read registry).2 ∧
      call.Adds read registry (call.run read registry).1 added := by
  cases call with
  | register registration =>
    cases registered : registry.register registration with
    | ok next =>
      have run : (Call.register registration).run read registry = (none, next) := by
        simp only [Call.run, registered]
      rw [run]
      exact ⟨[registration], .cons registered (.nil next), rfl⟩
    | error error =>
      have run : (Call.register registration).run read registry = (some error, registry) := by
        simp only [Call.run, registered]
      rw [run]
      exact ⟨[], .nil registry, rfl⟩
  | manifest text =>
    cases parsed : read text with
    | none =>
      have run : (Call.manifest text).run read registry =
          (some (.invalidManifest none), registry) := by
        simp only [Call.run, loadManifestBy, parsed]
      rw [run]
      refine ⟨[], .nil registry, ?_⟩
      simp [Adds, parsed]
    | some entries =>
      have run : (Call.manifest text).run read registry = registry.registerAll entries := by
        simp only [Call.run, loadManifestBy, parsed]
        cases registry.registerAll entries with
        | mk error? next => cases error? <;> rfl
      obtain ⟨added, registers, declares⟩ := registerAll_registers registry entries
      rw [run]
      refine ⟨added, registers, ?_⟩
      simpa only [Adds, parsed] using declares

theorem reached_wellFormed (calls : List Call) : (reached read calls).WellFormed := by
  have from' (registry : Registry) (wellFormed : registry.WellFormed) :
      (calls.foldl (fun registry call => (call.run read registry).2) registry).WellFormed := by
    induction calls generalizing registry with
    | nil => exact wellFormed
    | cons call calls ih =>
      obtain ⟨_, registers, _⟩ := call.run_registers read registry
      exact ih _ (wellFormed.registers registers)
  exact from' Registry.empty ⟨.nil, List.forall_mem_nil _⟩

/-- Of a registry after any calls, failing or not.
* The names of the configurables are distinct, and so are those of the parameters of each.
* Looking up a name gives what it means, and what is found is found by its own name.
* One more call adds configurables at the end and changes nothing else: those that it registers
  before it fails, if it does. It changes the result of looking up a name only if this is the name
  of a new configurable, or the last segments of one. -/
theorem reached_spec (calls : List Call) :
    (reached read calls).WellFormed ∧
    (∀ name result, (reached read calls).lookup name = result ↔
      (reached read calls).Means name result) ∧
    (∀ name registration, (reached read calls).lookup name = .ok registration →
      (reached read calls).lookup registration.name = .ok registration) ∧
    ∀ call : Call, ∃ added,
      (call.run read (reached read calls)).2.entries = (reached read calls).entries ++ added ∧
      call.Adds read (reached read calls) (call.run read (reached read calls)).1 added ∧
      ∀ name,
        (call.run read (reached read calls)).2.lookup name ≠ (reached read calls).lookup name →
        ∃ registration ∈ added, registration.HasSuffix name := by
  have wellFormed := reached_wellFormed read calls
  refine ⟨wellFormed, fun _ _ => lookup_eq_iff wellFormed, fun _ _ => lookup_own_name wellFormed,
    fun call => ?_⟩
  obtain ⟨added, registers, adds⟩ := call.run_registers read (reached read calls)
  refine ⟨added, registers.entries_eq, adds, fun name changed => ?_⟩
  by_contra none
  exact changed (registers.lookup_eq fun registration member suffix =>
    none ⟨registration, member, suffix⟩)

end Registry

end ConfigBinding
