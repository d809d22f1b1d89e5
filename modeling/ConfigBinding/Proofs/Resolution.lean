import ConfigBinding.Proofs.Runs

/-!
# What resolution gives

What the calls of a resolver give, whatever calls were made before: the nodes are those that the log
says, the results do not depend on what is cached, cycles are found where there are any, and the
graph has each node once, after all that it refers to.

Results:
1. `Resolver.cached_params_denote`: each parameter of each node that is ever cached has the meaning
   of what the log binds it to.
2. `Resolver.resolve_eq_uncached`: the cache and the calls before make no difference.
3. `Resolver.cycles_exact`: resolution ends, and it fails where there is a cycle.
4. `Resolver.graph_coherent`: the graph is in order after any calls.
-/

namespace ConfigBinding

theorem HasValue.unique {config : Config} {key : NodeKey} {param : Param} {value other : Value}
    (has : HasValue config key param value) (otherHas : HasValue config key param other) :
    other = value := by
  unfold HasValue at has otherHas
  cases governed : config.governing? key param.name with
  | some e =>
    rw [governed] at has otherHas
    exact Denotes.unique otherHas has
  | none =>
    rw [governed] at has otherHas
    exact Option.some.inj (otherHas.symm.trans has)

/-! ## Graphs -/

namespace Graph

/-- The node with the key `outer` holds by reference the node with the key `inner`. -/
def Holds (config : Config) (graph : Graph) (outer inner : NodeKey) : Prop :=
  ∃ node ∈ graph.nodes, node.key = outer ∧ ∃ part ∈ config.partsOf node, part.key = inner

/-- A graph in order: it has each node once, under its own key, with parameters as they are
declared, and after all nodes that it holds by reference, at any depth. -/
structure Coherent (config : Config) (graph : Graph) : Prop where
  stored : ∀ node ∈ graph.nodes, graph.get? node.key = some node
  keys_nodup : (graph.nodes.map Node.key).Nodup
  declared : ∀ node ∈ graph.nodes, ∃ owner,
    config.registry.get? node.key.symbol = some owner ∧ owner.name = node.key.symbol ∧
    List.Forall₂ (fun param entry => entry.1 = param.name ∧ param.kind.accepts entry.2 = true)
      owner.params node.params.entries
  ordered : ∀ (i : Nat) (node : Node), graph.nodes[i]? = some node → ∀ part ∈ config.partsOf node,
    graph.get? part.key = some part ∧ ∃ j < i, graph.nodes[j]? = some part
  acyclic : ∀ key, ¬ Relation.TransGen (graph.Holds config) key key
  roots_nodup : graph.roots.Nodup
  roots_stored : ∀ key ∈ graph.roots, ∃ node, graph.get? key = some node

end Graph

namespace Constructed

variable {config : Config} {graph : Graph}

/-- The key of a node leads only to keys of nodes that stand ahead of it. -/
theorem holds_before (constructed : Constructed config graph.nodes) {outer inner : NodeKey}
    (holds : Relation.TransGen (graph.Holds config) outer inner) {i : Nat} {node : Node}
    (at_i : graph.nodes[i]? = some node) (keyed : node.key = outer) :
    ∃ j < i, ∃ part, graph.nodes[j]? = some part ∧ part.key = inner := by
  have step {outer inner : NodeKey} (holds : graph.Holds config outer inner) {i : Nat} {node : Node}
      (at_i : graph.nodes[i]? = some node) (keyed : node.key = outer) :
      ∃ j < i, ∃ part, graph.nodes[j]? = some part ∧ part.key = inner := by
    obtain ⟨holder, member, sameKey, part, inside, partKey⟩ := holds
    have same : holder = node := List.inj_on_of_nodup_map constructed.keys_nodup member
      (List.mem_of_getElem? at_i) (sameKey.trans keyed.symm)
    rw [same] at inside
    obtain ⟨j, before, at_j⟩ := constructed.parts_before at_i inside
    exact ⟨j, before, part, at_j, partKey⟩
  induction holds with
  | single holds => exact step holds at_i keyed
  | tail _ holds ih =>
    obtain ⟨j, before, middle, at_j, middleKey⟩ := ih
    obtain ⟨k, earlier, part, at_k, partKey⟩ := step holds at_j middleKey
    exact ⟨k, Nat.lt_trans earlier before, part, at_k, partKey⟩

/-- No key leads to itself: its node would stand ahead of its node, and so on without end. -/
theorem acyclic (constructed : Constructed config graph.nodes) (key : NodeKey) :
    ¬ Relation.TransGen (graph.Holds config) key key := by
  intro cycle
  -- a cycle leads from each place of `key` to an earlier one
  have nowhere (i : Nat) : ∀ node, graph.nodes[i]? = some node → node.key ≠ key := by
    induction i using Nat.strongRecOn with
    | ind i ih =>
      intro node at_i keyed
      obtain ⟨j, before, part, at_j, partKey⟩ := constructed.holds_before cycle at_i keyed
      exact ih j before part at_j partKey
  obtain ⟨next, ⟨node, member, keyed, _⟩, _⟩ := Relation.TransGen.head'_iff.mp cycle
  obtain ⟨i, at_i⟩ := List.mem_iff_getElem?.mp member
  exact nowhere i node at_i keyed

end Constructed

namespace Resolver

variable {config : Config}

theorem Sound.coherent {resolver : Resolver} (sound : resolver.Sound config) :
    resolver.graph.Coherent config where
  stored _ member := sound.constructed.find? member
  keys_nodup := sound.constructed.keys_nodup
  declared node member := by
    obtain ⟨owner, owned, params, _⟩ := sound.constructed.built member
    have named := (Registry.get?_eq_some owned).1
    exact ⟨owner, owned, named, params.imp fun param entry fills => ⟨fills.1, fills.2.1⟩⟩
  ordered i node at_i part inside := by
    have before := sound.constructed.parts_before at_i inside
    refine ⟨sound.constructed.find? ?_, before⟩
    obtain ⟨j, _, at_j⟩ := before
    exact List.mem_of_getElem? at_j
  acyclic := sound.constructed.acyclic
  roots_nodup := sound.roots_nodup
  roots_stored key member := by
    obtain ⟨node, stored, rfl⟩ := List.mem_map.mp (sound.roots_cached key member)
    exact ⟨node, sound.constructed.find? stored⟩

/-! ## Results -/

/-- Each node that is ever cached, in a call that succeeds or in one that fails, has the parameters
of its configurable in order. Each has the one value that the log gives it: the meaning of the last
binding in the innermost scope that has one, or the default. The nodes inside that references stand
for are those that are cached under their keys. -/
theorem cached_params_denote (loaded : config.Loaded) (calls : List (Scope × DottedName))
    (scope : Scope) (symbol : DottedName) {registration : Registration}
    (found : config.registry.lookup symbol = .ok registration)
    {result : Except ConfigError Node} {progress : Progress}
    (run : resolveNode config ⟨scope, registration.name⟩ (after config calls).progress =
      (result, progress))
    {node : Node} (member : node ∈ progress.cache) :
    (∃ owner, config.registry.get? node.key.symbol = some owner ∧
      List.Forall₂ (fun param entry => entry.1 = param.name ∧
        HasValue config node.key param entry.2 ∧
        ∀ other, HasValue config node.key param other → other = entry.2)
        owner.params node.params.entries) ∧
    ∀ part ∈ config.partsOf node, Node.find? part.key progress.cache = some part := by
  obtain ⟨_, outcome⟩ := (sound_after loaded calls).outcome loaded (.cyclicReference [])
    (.cyclicReference []) (Nat.le_refl _) (Nat.le_refl _)
    (Config.registered_of_lookup scope found)
  rw [run] at outcome
  have constructed := outcome.constructed
  obtain ⟨owner, owned, params, _⟩ := constructed.built member
  refine ⟨⟨owner, owned, params.imp ?_⟩, ?_⟩
  · rintro param entry ⟨sameName, _, has⟩
    exact ⟨sameName, has, fun other otherHas => has.unique otherHas⟩
  · intro part inside
    exact constructed.find? (constructed.parts member inside)

theorem cached_params_denote_sample :
    ∃ (node : Node) (progress : Progress), node ∈ progress.cache ∧
      node.params.same ⟨[("size", .int 3)]⟩ = true ∧
      (∃ owner, Config.sample.registry.get? node.key.symbol = some owner ∧
        List.Forall₂ (fun param entry => entry.1 = param.name ∧
          HasValue .sample node.key param entry.2 ∧
          ∀ other, HasValue .sample node.key param other → other = entry.2)
          owner.params node.params.entries) ∧
      ∀ part ∈ Config.sample.partsOf node,
        Node.find? part.key progress.cache = some part := by
  have constructed : ((resolveNode .sample ⟨⟨["a", "b"]⟩, ⟨["m", "Leaf"]⟩⟩
      (after .sample [(⟨[]⟩, ⟨["Loop"]⟩)]).progress).2.cache.any
        fun node => node.params.same ⟨[("size", .int 3)]⟩) = true := by decide +kernel
  have found : Config.sample.registry.lookup ⟨["Leaf"]⟩ =
      .ok ⟨⟨["m", "Leaf"]⟩, [⟨"size", some (.int 1), .scalar⟩], none⟩ := rfl
  cases run : resolveNode .sample ⟨⟨["a", "b"]⟩, ⟨["m", "Leaf"]⟩⟩
      (after .sample [(⟨[]⟩, ⟨["Loop"]⟩)]).progress with
  | mk result progress =>
    rw [run] at constructed
    obtain ⟨node, member, same⟩ := List.any_eq_true.mp constructed
    have denotes := cached_params_denote Config.loaded_sample [(⟨[]⟩, ⟨["Loop"]⟩)] ⟨["a", "b"]⟩
      ⟨["Leaf"]⟩ found run member
    exact ⟨node, progress, member, same, denotes⟩

/-- The result of a call, be it a node or an error, is that of a resolution that starts anew and
remembers nothing, whatever calls were made before. How deep that one may go makes no difference as
long as it is deep enough. -/
theorem resolve_eq_uncached (loaded : config.Loaded) (calls : List (Scope × DottedName))
    (scope : Scope) (symbol : DottedName) (exhausted : ConfigError) {bound : Nat}
    (enough : depthLimit config.log ≤ bound) :
    ((after config calls).resolve config scope symbol).result =
      Uncached.resolve config exhausted bound scope symbol :=
  (sound_after loaded calls).result_eq loaded exhausted enough scope symbol

theorem resolve_eq_uncached_sample :
    ((after .sample [(⟨[]⟩, ⟨["Loop"]⟩), (⟨[]⟩, ⟨["Box"]⟩)]).resolve .sample ⟨["a"]⟩
        ⟨["m", "Box"]⟩).result =
      Uncached.resolve .sample .tooManySources (depthLimit Config.sample.log) ⟨["a"]⟩
        ⟨["m", "Box"]⟩ :=
  resolve_eq_uncached Config.loaded_sample _ _ _ _ (Nat.le_refl _)

/-- Resolution ends: it never goes as deep as it may, and so would do the same if it could go
deeper. If it reports a cycle, one can be reached from the root, and if one can be reached from the
root, it gives no node. -/
theorem cycles_exact (loaded : config.Loaded) (calls : List (Scope × DottedName)) (scope : Scope)
    (symbol : DottedName) :
    (∀ registration, config.registry.lookup symbol = .ok registration →
      ∀ bound exhausted, depthLimit config.log ≤ bound →
        resolveWithin config bound exhausted ⟨scope, registration.name⟩
            (after config calls).progress =
          resolveNode config ⟨scope, registration.name⟩ (after config calls).progress) ∧
    (∀ chain, ((after config calls).resolve config scope symbol).result =
        .error (.cyclicReference chain) →
      ∃ registration, config.registry.lookup symbol = .ok registration ∧
        config.CycleFrom (.node ⟨scope, registration.name⟩)) ∧
    (∀ registration, config.registry.lookup symbol = .ok registration →
      config.CycleFrom (.node ⟨scope, registration.name⟩) →
      ∀ node, ((after config calls).resolve config scope symbol).result ≠ .ok node) := by
  have sound := sound_after loaded calls
  have plain := sound.result_eq loaded (.cyclicReference []) (Nat.le_refl _) scope symbol
  refine ⟨?_, ?_, ?_⟩
  · intro registration found bound exhausted enough
    exact (sound.outcome loaded exhausted exhausted enough enough
      (Config.registered_of_lookup scope found)).1
  · intro chain failed
    rw [plain] at failed
    exact Uncached.cycle_of_resolve loaded failed (Nat.le_refl _)
  · intro registration found cycle node finished
    rw [plain] at finished
    exact Uncached.no_cycle_of_resolve loaded found finished cycle

theorem cycles_exact_sample :
    ((after .sample []).resolve .sample ⟨[]⟩ ⟨["Loop"]⟩).result.map (fun _ => ()) =
        .error (.cyclicReference ["m.Loop", "m.Loop"]) ∧
      ∃ registration, Config.sample.registry.lookup ⟨["Loop"]⟩ = .ok registration ∧
        Config.sample.CycleFrom (.node ⟨⟨[]⟩, registration.name⟩) := by
  have failed : ((after .sample []).resolve .sample ⟨[]⟩ ⟨["Loop"]⟩).result.map (fun _ => ()) =
      .error (.cyclicReference ["m.Loop", "m.Loop"]) := by decide +kernel
  refine ⟨failed, ?_⟩
  cases ended : ((after .sample []).resolve .sample ⟨[]⟩ ⟨["Loop"]⟩).result with
  | ok node =>
    rw [ended] at failed
    cases failed
  | error error =>
    rw [ended] at failed
    cases failed
    exact (cycles_exact Config.loaded_sample [] ⟨[]⟩ ⟨["Loop"]⟩).2.1 _ ended

/-- After any calls the graph is in order and nothing is under way. The order is that of references;
where no default holds a node, these lead to all nodes inside another. -/
theorem graph_coherent (loaded : config.Loaded) (calls : List (Scope × DottedName)) :
    (after config calls).graph.Coherent config ∧
      (after config calls).pending = [] ∧ (after config calls).macros = [] ∧
      (config.registry.PlainDefaults →
        ∀ node ∈ (after config calls).graph.nodes, node.parts ⊆ config.partsOf node) :=
  have sound := sound_after loaded calls
  ⟨sound.coherent, sound.pending_eq, sound.macros_eq,
    fun plain _ member => (sound.constructed.built member).parts_subset plain⟩

theorem graph_coherent_sample :
    (after .sample [(⟨[]⟩, ⟨["Box"]⟩), (⟨[]⟩, ⟨["Loop"]⟩)]).graph.size = 2 ∧
      (after .sample [(⟨[]⟩, ⟨["Box"]⟩), (⟨[]⟩, ⟨["Loop"]⟩)]).graph.Coherent .sample :=
  ⟨by decide +kernel, (graph_coherent Config.loaded_sample _).1⟩

/-- The graph has a crate but not the leaf in it, which a default holds. -/
theorem default_uncached :
    Config.crate.Loaded ∧
      ∃ crate ∈ (after .crate [(⟨[]⟩, ⟨["Crate"]⟩)]).graph.nodes, ∃ leaf ∈ crate.parts,
        (after .crate [(⟨[]⟩, ⟨["Crate"]⟩)]).graph.get? leaf.key = none := by
  have found : ((after .crate [(⟨[]⟩, ⟨["Crate"]⟩)]).graph.nodes.any fun crate =>
      crate.parts.any fun leaf =>
        ((after .crate [(⟨[]⟩, ⟨["Crate"]⟩)]).graph.get? leaf.key).isNone) = true := by
    decide +kernel
  simp only [List.any_eq_true, Option.isNone_iff_eq_none] at found
  exact ⟨Config.loaded_crate, found⟩

end Resolver

end ConfigBinding
