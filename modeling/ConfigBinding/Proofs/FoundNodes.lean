import ConfigBinding.Proofs.ConstructorCalls
import ConfigBinding.Proofs.Registrations

/-!
# Nodes that are found again

A graph looks for a symbol in another way than a registry does. The registry takes the configurable
with this very name ahead of all longer names that end with it; the graph takes the first node in
order of construction whose name ends with the symbol. So a node that a call gave for its full name
may be hidden by one with a longer name that was constructed earlier in the same scope. Where no
node is hidden, the graph finds what the call gave.

Results:
1. `Constructed.find?_or_hides`: a graph finds the node itself or one that hides it.
2. `Resolver.find?_resolved`: what is found for a symbol for which a call gave a node.
3. `Resolver.find?_hidden`: it need not be the node of the call.
-/

namespace ConfigBinding

namespace Graph

/-- The node answers to the symbol in the scope. -/
structure Answers (scope : Scope) (symbol : DottedName) (node : Node) : Prop where
  scope_eq : node.key.scope = scope
  suffix : node.key.symbol.endsWith symbol = true

/-- `graph.Hides symbol other node`: under the symbol, which is the full name of `node`, the graph
comes to `other` first. That is a node of the same scope with a longer name that ends with the
symbol, and it was constructed earlier. -/
structure Hides (graph : Graph) (symbol : DottedName) (other node : Node) : Prop where
  full : node.key.symbol = symbol
  longer : other.key.symbol ≠ symbol
  answers : Answers node.key.scope symbol other
  ahead : [other, node].Sublist graph.nodes

/-- The node that is found is the first one that answers. -/
theorem find?_eq_some_iff {graph : Graph} {scope : Scope} {symbol : DottedName} {node : Node} :
    graph.find? scope symbol = some node ↔
      Answers scope symbol node ∧ ∃ before behind, graph.nodes = before ++ node :: behind ∧
        ∀ other ∈ before, ¬ Answers scope symbol other := by
  have test (other : Node) :
      (other.key.scope == scope && other.key.symbol.endsWith symbol) = true ↔
        Answers scope symbol other := by
    rw [Bool.and_eq_true, beq_iff_eq]
    exact ⟨fun ⟨same, suffix⟩ => ⟨same, suffix⟩, fun answers => ⟨answers.1, answers.2⟩⟩
  simp only [find?, List.find?_eq_some_iff_append, test, Bool.not_eq_true', ← Bool.not_eq_true,
    exists_and_right]

end Graph

/-! ## Which node is found -/

namespace Constructed

open ConfigBinding.Graph (Answers Hides)

variable {config : Config} {graph : Graph} {scope : Scope} {symbol : DottedName}
  {registration : Registration} {node other : Node}

theorem eq_of_key (constructed : Constructed config graph.nodes) (member : node ∈ graph.nodes)
    (otherMember : other ∈ graph.nodes) (same : other.key = node.key) : other = node :=
  List.inj_on_of_nodup_map constructed.keys_nodup otherMember member same

/-- A node has the name of a configurable. -/
theorem exists_owner (constructed : Constructed config graph.nodes) (member : node ∈ graph.nodes) :
    ∃ owner ∈ config.registry.entries, owner.name = node.key.symbol := by
  obtain ⟨owner, owned, _⟩ := constructed.built member
  exact ⟨owner, (Registry.get?_eq_some owned).2, (Registry.get?_eq_some owned).1⟩

/-- Two nodes of a scope that answer to a symbol are the same, unless the symbol is the full name
of the one that the registry means, and not that of the other. -/
theorem eq_or_longer (constructed : Constructed config graph.nodes)
    (found : config.registry.lookup symbol = .ok registration) (member : node ∈ graph.nodes)
    (keyed : node.key = ⟨scope, registration.name⟩) (otherMember : other ∈ graph.nodes)
    (answers : Answers scope symbol other) :
    other = node ∨ (node.key.symbol = symbol ∧ other.key.symbol ≠ symbol) := by
  have same_of_symbol (same : other.key.symbol = node.key.symbol) : other = node := by
    have scopes : other.key.scope = node.key.scope := answers.scope_eq.trans (by rw [keyed])
    refine constructed.eq_of_key member otherMember ?_
    calc
      other.key = ⟨other.key.scope, other.key.symbol⟩ := rfl
      _ = node.key := by rw [scopes, same]
  have means := config.registry.means_lookup symbol
  rw [found] at means
  have symbols : node.key.symbol = registration.name := by rw [keyed]
  cases means with
  | exact isEntry named =>
    by_cases same : other.key.symbol = symbol
    · exact .inl (same_of_symbol (same.trans (symbols.trans named).symm))
    · exact .inr ⟨symbols.trans named, same⟩
  | only apart isEntry suffix alone =>
    obtain ⟨owner, isOwner, named⟩ := constructed.exists_owner otherMember
    have ends : owner.HasSuffix symbol := by
      rw [Registration.HasSuffix, named]
      exact DottedName.endsWith_iff.mp answers.suffix
    rw [alone owner isOwner ends] at named
    exact .inl (same_of_symbol (named.symm.trans symbols.symm))

/-- What is found for a symbol is the node that the registry means, if it is there, or a node that
hides it. -/
theorem find?_or_hides (constructed : Constructed config graph.nodes)
    (found : config.registry.lookup symbol = .ok registration) (member : node ∈ graph.nodes)
    (keyed : node.key = ⟨scope, registration.name⟩) (answers : Answers scope symbol node) :
    ∃ first, graph.find? scope symbol = some first ∧
      (first = node ∨ graph.Hides symbol first node) := by
  cases search : graph.find? scope symbol with
  | none =>
    have passed := List.find?_eq_none.mp search node member
    rw [answers.scope_eq, answers.suffix] at passed
    simp at passed
  | some first =>
    refine ⟨first, rfl, ?_⟩
    obtain ⟨firstAnswers, before, behind, split, unanswered⟩ := Graph.find?_eq_some_iff.mp search
    have firstMember : first ∈ graph.nodes := split ▸ List.mem_append_cons_self
    rcases constructed.eq_or_longer found member keyed firstMember firstAnswers with
      same | ⟨full, longer⟩
    · exact .inl same
    · -- the node answers too, so it is not among those that were passed over
      have later : node ∈ behind := by
        rw [split] at member
        rcases List.mem_append.mp member with passed | rest
        · exact absurd answers (unanswered node passed)
        · rcases List.mem_cons.mp rest with same | later
          · exact absurd (same ▸ full) longer
          · exact later
      refine .inr ⟨full, longer, answers.scope_eq ▸ firstAnswers, ?_⟩
      rw [split]
      exact ((List.singleton_sublist.mpr later).cons_cons first).trans
        (List.sublist_append_right before _)

/-- A node that is hidden is not found. -/
theorem find?_ne_of_hides (constructed : Constructed config graph.nodes)
    (hides : graph.Hides symbol other node) :
    graph.find? node.key.scope symbol ≠ some node := by
  intro search
  obtain ⟨_, before, behind, split, unanswered⟩ := Graph.find?_eq_some_iff.mp search
  have distinct : (before ++ node :: behind).Nodup :=
    split ▸ List.Nodup.of_map _ constructed.keys_nodup
  have ahead := hides.ahead
  rw [split] at ahead
  obtain ⟨first, second, pair, inBefore, inRest⟩ := List.sublist_append_iff.mp ahead
  cases first with
  | nil =>
    obtain rfl : [other, node] = second := pair
    have repeated : node ∈ behind := List.singleton_sublist.mp inRest.tail
    exact (List.nodup_cons.mp (List.nodup_append.mp distinct).2.1).1 repeated
  | cons head first =>
    obtain rfl : other = head := (List.cons.inj pair).1
    exact unanswered other (inBefore.subset List.mem_cons_self) hides.answers

end Constructed

namespace Resolver

variable {config : Config}

/-- A node that a call gives is in the cache from then on. -/
theorem Sound.mem_cache {resolver : Resolver} (sound : resolver.Sound config)
    (replayed : config.Replayed) {scope : Scope} {symbol : DottedName} {node : Node}
    (done : (resolver.resolve config scope symbol).result = .ok node) :
    node ∈ (resolver.resolve config scope symbol).resolver.cache := by
  obtain ⟨registration, progress, found, run, same⟩ := resolve_of_ok done
  obtain ⟨_, outcome⟩ := sound.outcome replayed (.cyclicReference []) (.cyclicReference [])
    (Nat.le_refl _) (Nat.le_refl _) (Config.registered_of_lookup scope found)
  rw [run] at outcome
  rw [same]
  exact (outcome.steady node outcome.result.symm).given_subset List.mem_cons_self

/-- A node that a call gave is in the cache after all later calls. -/
theorem mem_cache_after (loaded : config.Loaded) {earlier : List (Scope × DottedName)}
    {scope : Scope} {symbol : DottedName} {node : Node}
    (done : ((after config earlier).resolve config scope symbol).result = .ok node)
    (later : List (Scope × DottedName)) :
    node ∈ (after config (earlier ++ (scope, symbol) :: later)).cache := by
  have cached := (sound_after loaded earlier).mem_cache loaded done
  rw [← after_concat] at cached
  rw [List.append_cons]
  exact (cache_initial config _ later).subset cached

/-- After any calls, failing or not, among which one gave a node for a symbol in a scope, the graph
finds a node for the symbol in the scope.
* It is the node of the call or one that hides it.
* It is the node of the call if and only if no node hides it.
* So it is the node of the call if the symbol is only the end of its name, or if no other
  configurable has a name that ends with the symbol. -/
theorem find?_resolved (loaded : config.Loaded) {earlier : List (Scope × DottedName)}
    {scope : Scope} {symbol : DottedName} {node : Node}
    (done : ((after config earlier).resolve config scope symbol).result = .ok node)
    (later : List (Scope × DottedName)) :
    let graph := (after config (earlier ++ (scope, symbol) :: later)).graph
    (∃ found, graph.find? scope symbol = some found ∧
      (found = node ∨ graph.Hides symbol found node)) ∧
    (graph.find? scope symbol = some node ↔ ∀ other, ¬ graph.Hides symbol other node) ∧
    ((node.key.symbol ≠ symbol ∨ ∀ other ∈ config.registry.entries,
        other.HasSuffix symbol → other.name = symbol) →
      graph.find? scope symbol = some node) := by
  intro graph
  have constructed : Constructed config graph.nodes :=
    (sound_after loaded (earlier ++ (scope, symbol) :: later)).constructed
  have member : node ∈ graph.nodes := mem_cache_after loaded done later
  obtain ⟨registration, found, keyed, _⟩ :=
    ((sound_after loaded earlier).result_eq_ok_iff loaded).mp done
  have suffix : registration.HasSuffix symbol := by
    have means := config.registry.means_lookup symbol
    rw [found] at means
    cases means with
    | exact _ named => exact named ▸ List.suffix_refl _
    | only _ _ suffix => exact suffix
  have answers : Graph.Answers scope symbol node :=
    ⟨by rw [keyed], by rw [keyed]; exact DottedName.endsWith_iff.mpr suffix⟩
  have search := constructed.find?_or_hides found member keyed answers
  have exactly :
      graph.find? scope symbol = some node ↔ ∀ other, ¬ graph.Hides symbol other node := by
    refine ⟨fun same other hides => ?_, fun none => ?_⟩
    · exact constructed.find?_ne_of_hides hides (answers.scope_eq ▸ same)
    · obtain ⟨first, isFirst, same | hides⟩ := search
      · exact same ▸ isFirst
      · exact absurd hides (none first)
  refine ⟨search, exactly, fun apart => exactly.mpr fun other hides => ?_⟩
  rcases apart with partOnly | alone
  · exact partOnly hides.full
  · obtain ⟨owner, isOwner, named⟩ := constructed.exists_owner (hides.ahead.subset List.mem_cons_self)
    have ends : owner.HasSuffix symbol := by
      rw [Registration.HasSuffix, named]
      exact DottedName.endsWith_iff.mp hides.answers.suffix
    exact hides.longer (named.symm.trans (alone owner isOwner ends))

/-- The leaf was made for the box, before it was asked for. The last call fails. -/
theorem find?_resolved_sample :
    ∃ node : Node, node.key = ⟨⟨["a", "b"]⟩, ⟨["m", "Leaf"]⟩⟩ ∧
      ((after .sample [(⟨[]⟩, ⟨["Box"]⟩)]).resolve .sample ⟨["a", "b"]⟩ ⟨["Leaf"]⟩).result =
        .ok node ∧
      (after .sample [(⟨[]⟩, ⟨["Box"]⟩), (⟨["a", "b"]⟩, ⟨["Leaf"]⟩),
        (⟨[]⟩, ⟨["Loop"]⟩)]).graph.find? ⟨["a", "b"]⟩ ⟨["Leaf"]⟩ = some node := by
  have keyed : ((after .sample [(⟨[]⟩, ⟨["Box"]⟩)]).resolve .sample ⟨["a", "b"]⟩
      ⟨["Leaf"]⟩).result.map Node.key = .ok ⟨⟨["a", "b"]⟩, ⟨["m", "Leaf"]⟩⟩ := by decide +kernel
  cases ended : ((after .sample [(⟨[]⟩, ⟨["Box"]⟩)]).resolve .sample ⟨["a", "b"]⟩
      ⟨["Leaf"]⟩).result with
  | error error =>
    rw [ended] at keyed
    cases keyed
  | ok node =>
    rw [ended] at keyed
    have keyed : node.key = ⟨⟨["a", "b"]⟩, ⟨["m", "Leaf"]⟩⟩ := Except.ok.inj keyed
    have search := find?_resolved Config.loaded_sample ended [(⟨[]⟩, ⟨["Loop"]⟩)]
    exact ⟨node, keyed, rfl, search.2.2 (.inl (by rw [keyed]; decide))⟩

end Resolver

/-! ## A hidden node -/

/-- Two configurables without parameters, of which one has a name that the name of the other ends
with. -/
def Registry.namesakes : Registry where
  entries := [⟨⟨["m", "Leaf"]⟩, [], none⟩, ⟨⟨["Leaf"]⟩, [], none⟩]

def Config.namesakes : Config := .ofBindings .namesakes []

theorem Config.loaded_namesakes : Config.namesakes.Loaded :=
  loaded_ofBindings (by decide)

namespace Resolver

/-- The longer name was asked for first, so it is found for the shorter one, though that was
resolved to a node of its own. -/
theorem find?_hidden :
    Config.namesakes.Loaded ∧
    ((after .namesakes [(⟨[]⟩, ⟨["m", "Leaf"]⟩)]).resolve .namesakes ⟨[]⟩ ⟨["Leaf"]⟩).result.map
        Node.key = .ok ⟨⟨[]⟩, ⟨["Leaf"]⟩⟩ ∧
      ((after .namesakes [(⟨[]⟩, ⟨["m", "Leaf"]⟩), (⟨[]⟩, ⟨["Leaf"]⟩)]).graph.find? ⟨[]⟩
        ⟨["Leaf"]⟩).map Node.key = some ⟨⟨[]⟩, ⟨["m", "Leaf"]⟩⟩ :=
  ⟨Config.loaded_namesakes, by decide, by decide⟩

end Resolver

end ConfigBinding
