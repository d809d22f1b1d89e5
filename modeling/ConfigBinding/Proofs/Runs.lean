import ConfigBinding.Proofs.Caching
import ConfigBinding.Proofs.Cycles

/-!
# Calls of a resolver

A resolver takes calls in any order, of which some fail. Between calls nothing is under way, and all
that is in its cache was constructed in order. A call that fails leaves the resolver as it was.

Results:
1. `Resolver.Sound.resolve`: one call keeps the resolver sound.
2. `Resolver.sound_after`: a resolver is sound after any calls.
3. `Resolver.Sound.result_eq`: the result of a call is that of a resolution without a cache.
4. `Resolver.Sound.result_eq_ok_iff`: a call gives a node if and only if the configuration says so.
-/

namespace ConfigBinding

namespace Resolver

/-- What holds of a resolver between calls. -/
structure Sound (config : Config) (resolver : Resolver) : Prop where
  constructed : Constructed config resolver.cache
  pending_eq : resolver.pending = []
  macros_eq : resolver.macros = []
  roots_nodup : resolver.roots.Nodup
  roots_cached : ∀ key ∈ resolver.roots, key ∈ resolver.cache.map Node.key

theorem sound_start (config : Config) : start.Sound config where
  constructed := .nil
  pending_eq := rfl
  macros_eq := rfl
  roots_nodup := List.nodup_nil
  roots_cached := nofun

namespace Sound

variable {config : Config} {resolver : Resolver}

theorem steady (sound : resolver.Sound config) : Steady config [] [] [] resolver.progress where
  pending_eq := sound.pending_eq
  macros_eq := sound.macros_eq
  constructed := sound.constructed
  given_subset := List.nil_subset _

/-- What a call does, and that it would do the same if it could go deeper. -/
theorem outcome (sound : resolver.Sound config) (replayed : config.Replayed)
    (exhausted plainExhausted : ConfigError) {bound plainBound : Nat}
    (enough : depthLimit config.log ≤ bound) (plainEnough : depthLimit config.log ≤ plainBound)
    {key : NodeKey} (registered : config.Registered key) :
    resolveWithin config bound exhausted key resolver.progress =
        resolveNode config key resolver.progress ∧
      Outcome config [] [] [] config.familyOf
        (Uncached.node config
          (fun pending => Uncached.evaluate config plainExhausted plainBound pending []) [] key)
        resolver.progress (resolveNode config key resolver.progress) :=
  tracks_resolveWithin replayed (Nat.le_refl _) enough plainEnough registered _ sound.steady

/-- A call that only appends to the cache is taken back as a whole. -/
theorem rollBack_eq (sound : resolver.Sound config) {progress : Progress}
    (grows : Grows [] resolver.progress progress) : resolver.rollBack progress = resolver := by
  obtain ⟨added, cache, _⟩ := grows
  exact Resolver.rollBack_eq sound.pending_eq sound.macros_eq cache

theorem accept (sound : resolver.Sound config) {key : NodeKey} {node : Node} {progress : Progress}
    (keyed : node.key = key) (grows : Grows [] resolver.progress progress)
    (steady : Steady config [] [] (config.familyOf node) progress) :
    (resolver.accept key progress).Sound config := by
  have stored : key ∈ progress.cache.map Node.key :=
    List.mem_map.mpr ⟨node, steady.given_subset List.mem_cons_self, keyed⟩
  have old : ∀ root ∈ resolver.roots, root ∈ progress.cache.map Node.key := fun root member =>
    List.map_subset _ grows.subset (sound.roots_cached root member)
  refine ⟨steady.constructed, steady.pending_eq, steady.macros_eq, ?_, ?_⟩
  · show (if key ∈ resolver.roots then resolver.roots else resolver.roots ++ [key]).Nodup
    split
    · exact sound.roots_nodup
    · rename_i fresh
      refine List.nodup_append.mpr ⟨sound.roots_nodup, List.nodup_singleton key, ?_⟩
      rintro root member other inLast rfl
      rw [List.mem_singleton.mp inLast] at member
      exact fresh member
  · show ∀ root ∈ (if key ∈ resolver.roots then resolver.roots else resolver.roots ++ [key]),
      root ∈ progress.cache.map Node.key
    split
    · exact old
    · intro root member
      rcases List.mem_append.mp member with early | last
      · exact old root early
      · rw [List.mem_singleton.mp last]
        exact stored

/-- One call keeps a resolver sound, whether it succeeds or fails. -/
theorem resolve (sound : resolver.Sound config) (replayed : config.Replayed) (scope : Scope)
    (symbol : DottedName) : (resolver.resolve config scope symbol).resolver.Sound config := by
  unfold Resolver.resolve
  split
  · exact sound
  · rename_i registration found
    have registered := Config.registered_of_lookup scope found
    obtain ⟨_, outcome⟩ := sound.outcome replayed (.cyclicReference []) (.cyclicReference [])
      (Nat.le_refl _) (Nat.le_refl _) registered
    dsimp only
    split
    -- the call succeeded: what it constructed stays
    · rename_i node progress run
      rw [run] at outcome
      have given := outcome.result.symm
      have keyed := (Uncached.built_of_node replayed
        (fun _ _ _ _ => Uncached.denotes_of_evaluate replayed) registered given).1
      exact sound.accept keyed outcome.grows (outcome.steady node given)
    -- the call failed: what it constructed is taken back
    · rename_i error progress run
      rw [run] at outcome
      show (resolver.rollBack progress).Sound config
      rw [sound.rollBack_eq outcome.grows]
      exact sound

/-- The result of a call is that of a resolution without a cache. -/
theorem result_eq (sound : resolver.Sound config) (replayed : config.Replayed)
    (exhausted : ConfigError) {bound : Nat} (enough : depthLimit config.log ≤ bound)
    (scope : Scope) (symbol : DottedName) :
    (resolver.resolve config scope symbol).result =
      Uncached.resolve config exhausted bound scope symbol := by
  unfold Resolver.resolve Uncached.resolve
  cases found : config.registry.lookup symbol with
  | error error => rfl
  | ok registration =>
    obtain ⟨_, outcome⟩ := sound.outcome replayed (.cyclicReference []) exhausted (Nat.le_refl _)
      enough (Config.registered_of_lookup scope found)
    rw [ok_bind rfl, ← outcome.result]
    dsimp only
    split <;> rename_i run <;> rw [run]

/-- A call gives a node if and only if the symbol stands for its key and the configuration says the
node. -/
theorem result_eq_ok_iff (sound : resolver.Sound config) (replayed : config.Replayed)
    {scope : Scope} {symbol : DottedName} {node : Node} :
    (resolver.resolve config scope symbol).result = .ok node ↔
      ∃ registration, config.registry.lookup symbol = .ok registration ∧
        node.key = ⟨scope, registration.name⟩ ∧ Built config node := by
  rw [sound.result_eq replayed (.cyclicReference []) (Nat.le_refl _)]
  constructor
  · intro run
    obtain ⟨registration, found, _⟩ := ok_of_bind run
    exact ⟨registration, found, Uncached.built_of_resolve replayed found run⟩
  · rintro ⟨registration, found, keyed, built⟩
    unfold Uncached.resolve
    rw [ok_bind found, ← keyed]
    have needed : config.Needed (Item.underWay [] []) (.node node.key) := nofun
    obtain ⟨owner, owned, _⟩ := id built
    exact (Uncached.node_ok_iff replayed ⟨owner, owned⟩ needed
      (fun _ => Config.room_lt_depthLimit _) node rfl).mpr built

/-- A call for the key of what the configuration says is a node gives the node. -/
theorem result_of_built (sound : resolver.Sound config) (replayed : config.Replayed) {node : Node}
    (built : Built config node) :
    (resolver.resolve config node.key.scope node.key.symbol).result = .ok node := by
  obtain ⟨owner, owned, _⟩ := id built
  have sameName : owner.name = node.key.symbol := (Registry.get?_eq_some owned).1
  exact (sound.result_eq_ok_iff replayed).mpr
    ⟨owner, Config.lookup_of_owner? owned, by rw [sameName], built⟩

end Sound

theorem sound_after_of_replayed {config : Config} (replayed : config.Replayed)
    (calls : List (Scope × DottedName)) : (after config calls).Sound config := by
  have run : ∀ resolver : Resolver, resolver.Sound config →
      (calls.foldl (fun resolver call => (resolver.resolve config call.1 call.2).resolver)
        resolver).Sound config := by
    induction calls with
    | nil => exact fun _ => id
    | cons call calls ih => exact fun resolver sound => ih _ (sound.resolve replayed call.1 call.2)
  exact run start (sound_start config)

theorem sound_after {config : Config} (loaded : config.Loaded) (calls : List (Scope × DottedName)) :
    (after config calls).Sound config :=
  sound_after_of_replayed loaded calls

end Resolver

end ConfigBinding
