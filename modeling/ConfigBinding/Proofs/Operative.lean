import ConfigBinding.Proofs.LoadedBindings
import ConfigBinding.Proofs.OperativeText
import ConfigBinding.Proofs.Resolution

/-!
# Operative configurations

The text of a graph, loaded as the only file over the same registry, gives a configuration in which
each node of the graph is what its key stands for. So the roots resolve to the nodes that they were.

The text says no more than the graph: what a macro or an outer scope gave is bound directly, and so
is each default. A node is found again if those that it holds are: the text binds each of its
parameters, in its own scope, to an expression of its value. For a node that only a default holds
the text has no bindings, so a graph is reproduced if it has all nodes that it holds.

Results:
1. `Value.KeysOnce.denotes`: the expression of a value means the value.
2. `Built.rebuilt_nodes`: nodes are what they were where their parameters are bound to their values.
3. `Constructed.closed`: a graph has all nodes that it holds if no default holds one.
4. `Resolver.operative_reproduces`: the text of a graph reproduces the graph.
-/

namespace ConfigBinding

/-! ## Keys of mappings -/

/-- Each mapping in the value has each key once. What a constructed configurable holds belongs to
it. -/
inductive Value.KeysOnce : Value → Prop
  | literal (literal : Literal) : KeysOnce (.ofLiteral literal)
  | list {items : List Value} : (∀ item ∈ items, KeysOnce item) → KeysOnce (.list items)
  | tuple {items : List Value} : (∀ item ∈ items, KeysOnce item) → KeysOnce (.tuple items)
  | map {entries : List (String × Value)} : (entries.map Prod.fst).Nodup →
      (∀ entry ∈ entries, KeysOnce entry.2) → KeysOnce (.map entries)
  | object (key : NodeKey) (params : List (String × Value)) (product : Option String) :
      KeysOnce (.object key params product)

section

variable {config : Config}

/-- A mapping that an expression means has each key once. -/
theorem Denotes.keysOnce {e : Expr} {value : Value} (denotes : Denotes config e value) :
    value.KeysOnce := by
  induction denotes with
  | literal value span => exact .literal value
  | list span sameLength _ ih => exact .list (forall_right_of_zip sameLength ih)
  | tuple span sameLength _ ih => exact .tuple (forall_right_of_zip sameLength ih)
  | map span sameLength _ _ ih =>
    exact .map (Entries.nodup_keys_ofList _) fun entry member =>
      forall_right_of_zip sameLength ih entry (Entries.mem_ofList member)
  | macroRef _ _ _ _ ih => exact ih
  | reference => exact .object _ _ _

/-! ## Meaning of written values -/

theorem Built.target? {node : Node} (built : Built config node) (call : Bool) :
    config.target? ⟨node.key.scope, node.key.symbol, call⟩ = some node.key := by
  obtain ⟨owner, owned, _⟩ := built
  unfold Config.target? Registry.canonical?
  rw [Registry.lookup_exact owned]
  exact congrArg (fun symbol => some (NodeKey.mk node.key.scope symbol))
    (Registry.get?_eq_some owned).1

/-- The expression of a value means the value wherever the nodes in it are built. -/
theorem Value.KeysOnce.denotes {value : Value} (once : value.KeysOnce)
    (built : ∀ node ∈ value.nodes, Built config node) {e : Expr}
    (alike : e.withoutSpans = value.toExpr) : Denotes config e value := by
  -- Only an expression of the value's own form is like its expression.
  induction once generalizing e with
  | literal literal =>
    rw [toExpr_ofLiteral] at alike
    cases e with
    | literal other span =>
      cases alike
      exact .literal _ _
    | _ => cases alike
  | @list items _ ih =>
    rw [nodes, nodesOfItems_eq] at built
    cases e with
    | list exprs span =>
      rw [Expr.withoutSpans_list, toExpr, toExprs_eq] at alike
      injection alike with same
      obtain ⟨sameLength, each⟩ := List.forall₂_iff_zip.mp (forall₂_of_map_eq same)
      refine .list span sameLength fun item value member => ?_
      have inside := (List.of_mem_zip member).2
      exact ih value inside (fun node held => built node (List.mem_flatMap_of_mem inside held))
        (each member)
    | _ => cases alike
  | @tuple items _ ih =>
    rw [nodes, nodesOfItems_eq] at built
    cases e with
    | tuple exprs span =>
      rw [Expr.withoutSpans_tuple, toExpr, toExprs_eq] at alike
      injection alike with same
      obtain ⟨sameLength, each⟩ := List.forall₂_iff_zip.mp (forall₂_of_map_eq same)
      refine .tuple span sameLength fun item value member => ?_
      have inside := (List.of_mem_zip member).2
      exact ih value inside (fun node held => built node (List.mem_flatMap_of_mem inside held))
        (each member)
    | _ => cases alike
  | @map entries nodup _ ih =>
    rw [nodes, nodesOfEntries_eq] at built
    cases e with
    | map exprs span =>
      rw [Expr.withoutSpans_map, toExpr, toEntryExprs_eq] at alike
      injection alike with same
      obtain ⟨sameLength, each⟩ := List.forall₂_iff_zip.mp (forall₂_of_map_eq same)
      rw [← Entries.ofList_of_nodup nodup]
      refine .map span sameLength ?_ fun entry pair member => ?_
      · exact fun entry pair member => (congrArg Prod.fst (each member)).symm
      · have inside := (List.of_mem_zip member).2
        exact ih pair inside (fun node held => built node (List.mem_flatMap_of_mem inside held))
          (congrArg Prod.snd (each member))
    | _ => cases alike
  | object key params product =>
    have node : Built config ⟨key, ⟨params⟩, product⟩ := built _ List.mem_cons_self
    cases e with
    | reference target span =>
      cases alike
      exact Denotes.reference_of_built span (node.target? true) node
    | _ => cases alike

end

/-! ## Registries -/

/-- A registry that was made by registering. A mapping in a default has each key once, as every
mapping has. -/
inductive Registry.Assembled : Registry → Prop
  | empty : Assembled .empty
  | register {registry next : Registry} {registration : Registration} : Assembled registry →
      (∀ param ∈ registration.params, ∀ value, param.default = some value → value.KeysOnce) →
      registry.register registration = .ok next → Assembled next

namespace Registry.Assembled

variable {registry : Registry} {registration : Registration}

theorem params_nodup (assembled : registry.Assembled)
    (member : registration ∈ registry.entries) : (registration.params.map Param.name).Nodup := by
  induction assembled with
  | empty => cases member
  | register _ _ registered ih =>
    obtain ⟨_, nodup, rfl⟩ := register_eq_ok.mp registered
    rcases List.mem_append.mp member with old | new
    · exact ih old
    · rw [List.mem_singleton.mp new]
      exact nodup

theorem default_keysOnce (assembled : registry.Assembled)
    (member : registration ∈ registry.entries) {param : Param}
    (declared : param ∈ registration.params) {value : Value}
    (default : param.default = some value) : value.KeysOnce := by
  induction assembled with
  | empty => cases member
  | register _ once registered ih =>
    obtain ⟨_, _, rfl⟩ := register_eq_ok.mp registered
    rcases List.mem_append.mp member with old | new
    · exact ih old
    · rw [List.mem_singleton.mp new] at declared
      exact once param declared value default

end Registry.Assembled

/-! ## Nodes -/

section

variable {config : Config} {node : Node} {nodes : List Node}

namespace Built

/-- A node has the parameters that are registered, in order. -/
theorem names_eq (built : Built config node) :
    ∃ owner, config.owner? node.key = some owner ∧
      node.params.entries.map Prod.fst = owner.params.map Param.name := by
  obtain ⟨owner, owned, params, _⟩ := built
  refine ⟨owner, owned, ?_⟩
  rw [← List.forall₂_eq_eq_eq, List.forall₂_map_left_iff, List.forall₂_map_right_iff]
  exact (params.imp fun _ _ fills => fills.1).flip

/-- The parameters of a node differ in name. -/
theorem names_nodup (built : Built config node) (assembled : config.registry.Assembled) :
    (node.params.entries.map Prod.fst).Nodup := by
  obtain ⟨owner, owned, names⟩ := built.names_eq
  rw [names]
  exact assembled.params_nodup (Registry.get?_eq_some owned).2

theorem keysOnce (built : Built config node) (assembled : config.registry.Assembled) :
    ∀ entry ∈ node.params.entries, entry.2.KeysOnce := by
  intro entry member
  obtain ⟨owner, owned, params, _⟩ := built
  obtain ⟨param, declared, _, _, has⟩ := exists_left_of_forall₂ params member
  unfold HasValue at has
  cases governed : config.governing? node.key param.name with
  | some e =>
    rw [governed] at has
    exact Denotes.keysOnce has
  | none =>
    rw [governed] at has
    exact assembled.default_keysOnce (Registry.get?_eq_some owned).2 declared has

theorem declared (built : Built config node) {entry : String × Value}
    (member : entry ∈ node.params.entries) :
    ∃ owner, config.registry.get? node.key.symbol = some owner ∧
      owner.hasParam entry.1 = true := by
  obtain ⟨owner, owned, params, _⟩ := built
  obtain ⟨param, declared, sameName, _⟩ := exists_left_of_forall₂ params member
  refine ⟨owner, owned, ?_⟩
  rw [Registration.hasParam, Registration.param?, List.find?_isSome]
  exact ⟨param, declared, beq_iff_eq.mpr sameName.symm⟩

end Built

/-- A node is what it was in a configuration over the same registry that binds each of its
parameters to its value, if what it holds is. -/
theorem Built.rebuilt {other : Config} (built : Built config node)
    (sameRegistry : other.registry = config.registry) (assembled : config.registry.Assembled)
    (governs : ∀ entry ∈ node.params.entries, ∃ e,
      other.governing? node.key entry.1 = some e ∧ e.withoutSpans = entry.2.toExpr)
    (inner : ∀ entry ∈ node.params.entries, ∀ part ∈ entry.2.nodes, Built other part) :
    Built other node := by
  obtain ⟨owner, owned, params, made⟩ := id built
  obtain ⟨sameLength, each⟩ := List.forall₂_iff_zip.mp params
  refine ⟨owner, ?_, List.forall₂_iff_zip.mpr ⟨sameLength, fun {param entry} member => ?_⟩, made⟩
  · rw [Config.owner?, sameRegistry]
    exact owned
  · obtain ⟨sameName, accepted, _⟩ := each member
    have inside := (List.of_mem_zip member).2
    obtain ⟨e, governed, alike⟩ := governs entry inside
    refine ⟨sameName, accepted, ?_⟩
    rw [HasValue, ← sameName, governed]
    exact (built.keysOnce assembled entry inside).denotes (inner entry inside) alike

/-- The nodes inside a value are what they were where the parameters of all nodes are bound to their
values, if they are among these. The induction is on the value, not on the order of construction:
what a default holds may stand anywhere. -/
theorem Built.rebuilt_nodes {other : Config} (built : ∀ node ∈ nodes, Built config node)
    (sameRegistry : other.registry = config.registry) (assembled : config.registry.Assembled)
    (governs : ∀ node ∈ nodes, ∀ entry ∈ node.params.entries, ∃ e,
      other.governing? node.key entry.1 = some e ∧ e.withoutSpans = entry.2.toExpr)
    (value : Value) (stored : ∀ part ∈ value.nodes, part ∈ nodes) :
    ∀ part ∈ value.nodes, Built other part := by
  induction value using Value.induction with
  | literal literal =>
    rw [Value.nodes_ofLiteral]
    exact List.forall_mem_nil _
  | list items ih =>
    rw [Value.nodes, Value.nodesOfItems_eq, List.forall_mem_flatMap] at stored ⊢
    exact fun item member => ih item member (stored item member)
  | tuple items ih =>
    rw [Value.nodes, Value.nodesOfItems_eq, List.forall_mem_flatMap] at stored ⊢
    exact fun item member => ih item member (stored item member)
  | map entries ih =>
    rw [Value.nodes, Value.nodesOfEntries_eq, List.forall_mem_flatMap] at stored ⊢
    exact fun entry member => ih entry member (stored entry member)
  | object key params product ih =>
    rw [Value.nodes, Value.nodesOfEntries_eq] at stored ⊢
    obtain ⟨isStored, held⟩ := List.forall_mem_cons.mp stored
    have inner : ∀ entry ∈ params, ∀ part ∈ entry.2.nodes, Built other part := fun entry member =>
      ih entry member fun part inside => held part (List.mem_flatMap_of_mem member inside)
    refine List.forall_mem_cons.mpr ⟨?_, fun part inside => ?_⟩
    · exact (built _ isStored).rebuilt sameRegistry assembled (governs _ isStored) inner
    · obtain ⟨entry, member, inEntry⟩ := List.mem_flatMap.mp inside
      exact inner entry member part inEntry

/-- Each node that the graph holds at any depth is the one that it has under that key. -/
def Graph.Closed (graph : Graph) : Prop :=
  ∀ node ∈ graph.nodes, ∀ part ∈ node.parts, graph.get? part.key = some part

theorem Graph.Closed.mem {graph : Graph} (closed : graph.Closed) (member : node ∈ graph.nodes)
    {part : Node} (inside : part ∈ node.parts) : part ∈ graph.nodes :=
  (Graph.get?_eq_some (closed node member part inside)).2

/-- Where no default holds a node, a graph is closed. -/
theorem Constructed.closed {graph : Graph} (constructed : Constructed config graph.nodes)
    (plain : config.registry.PlainDefaults) : graph.Closed := by
  intro node member part inside
  have referenced := (constructed.built member).parts_subset plain inside
  exact constructed.find? (constructed.parts member referenced)

/-- What a closed graph holds is named as its nodes are. -/
theorem Graph.Closed.partsNamed {graph : Graph} (closed : graph.Closed)
    (constructed : Constructed config graph.nodes) (names : config.registry.OfNames)
    (inner : ∀ node ∈ graph.nodes, node.key.scope.OfNames) : graph.PartsNamed :=
  fun _ member part inside =>
    have stored := closed.mem member inside
    ⟨inner part stored, (constructed.named names stored).1⟩

/-- A graph binds no parameter in two ways. -/
theorem Constructed.bindings_oneWay {graph : Graph} (constructed : Constructed config graph.nodes)
    (assembled : config.registry.Assembled) :
    ∀ first ∈ graph.bindings, ∀ second ∈ graph.bindings, first.1 = second.1 → first = second := by
  intro first member second otherMember same
  obtain ⟨node, inGraph, entry, inside, rfl⟩ := Graph.mem_bindings.mp member
  obtain ⟨other, otherInGraph, otherEntry, otherInside, rfl⟩ := Graph.mem_bindings.mp otherMember
  injection same with sameScope sameSymbol sameParam
  have sameKey : node.key = other.key := by
    rw [show node.key = ⟨node.key.scope, node.key.symbol⟩ from rfl, sameScope, sameSymbol]
  obtain rfl := List.inj_on_of_nodup_map constructed.keys_nodup inGraph otherInGraph sameKey
  have names := (constructed.built inGraph).names_nodup assembled
  obtain rfl := List.inj_on_of_nodup_map names inside otherInside sameParam
  rfl

end

/-! ## An example -/

theorem Registry.assembled_sample : Registry.sample.Assembled := by
  have leaf : Assembled ⟨sample.entries.take 1⟩ := by
    refine .register .empty ?_ (register_eq_ok.mpr ⟨?_, ?_, rfl⟩)
    · intro param member value default
      obtain rfl := List.mem_singleton.mp member
      cases default
      exact .literal (.int 1)
    · decide
    · decide
  have box : Assembled ⟨sample.entries.take 2⟩ := by
    refine .register leaf ?_ (register_eq_ok.mpr ⟨?_, ?_, rfl⟩)
    · intro param member value default
      obtain rfl := List.mem_singleton.mp member
      cases default
    · decide
    · decide
  refine .register box ?_ (register_eq_ok.mpr ⟨?_, ?_, rfl⟩)
  · intro param member value default
    obtain rfl := List.mem_singleton.mp member
    cases default
  · decide
  · decide

theorem Registry.ofNames_sample : Registry.sample.OfNames where
  named := by decide
  params := by decide

theorem Registry.plainDefaults_sample : Registry.sample.PlainDefaults := by decide

/-- A mapping with a tuple of one number in a list and a leaf in a scope. -/
def Config.shelf : Config :=
  .ofBindings .sample ["x/Leaf.size = 0.5",
    "Loop.next = \x7b\x27a\x27: [1, (0.5,)], \x27b\x27: @x/y/Leaf()\x7d"]

theorem Config.loaded_shelf : Config.shelf.Loaded := loaded_ofBindings (by decide +kernel)

theorem Registry.assembled_crate : Registry.crate.Assembled := by
  have leaf : Assembled ⟨crate.entries.take 1⟩ := by
    refine .register .empty ?_ (register_eq_ok.mpr ⟨?_, ?_, rfl⟩)
    · intro param member value default
      obtain rfl := List.mem_singleton.mp member
      cases default
      exact .literal (.int 1)
    · decide
    · decide
  refine .register leaf ?_ (register_eq_ok.mpr ⟨?_, ?_, rfl⟩)
  · intro param member value default
    obtain rfl := List.mem_singleton.mp member
    cases default
    exact .object _ _ _
  · decide
  · decide

theorem Registry.ofNames_crate : Registry.crate.OfNames where
  named := by decide
  params := by decide

/-- The parameters of the nodes inside a node, as they are written. -/
def Node.partTexts (node : Node) : List (List (String × String)) :=
  node.parts.map fun part => part.params.entries.map (Prod.map id Value.toText)

/-! ## Reproduction -/

namespace Resolver

variable {config : Config}

theorem closed_after (loaded : config.Loaded) (plain : config.registry.PlainDefaults)
    (calls : List (Scope × DottedName)) : (after config calls).graph.Closed :=
  Constructed.closed (sound_after loaded calls).constructed plain

/-- The text of a graph that has all nodes that it holds, loaded as the only file over the same
registry, reproduces the graph: the file is loaded, loading ends with a configuration, and each
root, read from the scope and the symbol that are written for it, resolves to the node that it
was. -/
theorem operative_reproduces (loaded : config.Loaded) (assembled : config.registry.Assembled)
    (names : config.registry.OfNames) (calls : List (Scope × DottedName))
    (readable : (after config calls).graph.Readable) (closed : (after config calls).graph.Closed)
    {load : SourceLoader} {path id : String}
    (found : load path none = .ok ⟨id, (after config calls).graph.operativeText⟩) :
    ∃ loading other, Loading.start.loadFile config.registry load path = (.ok (), loading) ∧
      Config.ofLoading config.registry loading = .ok other ∧
      ∀ root ∈ (after config calls).graph.roots, ∃ node,
        (after config calls).graph.get? root = some node ∧
        ∀ later, ((after other later).resolve other (Scope.parse root.scope.toText)
          (DottedName.parse root.symbol.toText)).result = .ok node := by
  have sound := sound_after loaded calls
  have constructed : Constructed config (after config calls).graph.nodes := sound.constructed
  have plain : ∀ binding ∈ (after config calls).graph.bindings, binding.2.macroRefs = [] := by
    intro binding member
    obtain ⟨node, _, entry, _, rfl⟩ := Graph.mem_bindings.mp member
    exact entry.2.macroRefs_toExpr
  have declared : ∀ binding ∈ (after config calls).graph.bindings, ∃ owner,
      config.registry.get? binding.1.symbol = some owner ∧
        owner.hasParam binding.1.param = true := by
    intro binding member
    obtain ⟨node, stored, entry, inside, rfl⟩ := Graph.mem_bindings.mp member
    exact (constructed.built stored).declared inside
  obtain ⟨loading, other, read, finished, sameRegistry, otherLoaded, governs⟩ :=
    Loading.exists_config_of_bindings found
      (readable.parseSource names (closed.partsNamed constructed names readable.inner) constructed)
      plain declared (constructed.bindings_oneWay assembled)
  -- Each parameter of a node is bound in the node's own scope, so nothing else governs it.
  have binds : ∀ node ∈ (after config calls).graph.nodes, ∀ entry ∈ node.params.entries, ∃ e,
      other.governing? node.key entry.1 = some e ∧ e.withoutSpans = entry.2.toExpr := by
    intro node stored entry inside
    obtain ⟨e, governed, alike⟩ :=
      governs _ (Graph.mem_bindings.mpr ⟨node, stored, entry, inside, rfl⟩)
    rw [← sameRegistry] at governed
    exact ⟨e, governed, alike.trans entry.2.withoutSpans_toExpr⟩
  refine ⟨loading, other, read, finished, fun root asked => ?_⟩
  obtain ⟨node, stored, rfl⟩ := List.mem_map.mp (sound.roots_cached root asked)
  refine ⟨node, constructed.find? stored, fun later => ?_⟩
  rw [(readable.inner node stored).parse_toText, (constructed.named names stored).1.parse_toText]
  have rebuilt : Built other node := by
    refine Built.rebuilt_nodes (fun _ => constructed.built) sameRegistry assembled binds
      node.toValue ?_ node List.mem_cons_self
    exact List.forall_mem_cons.mpr ⟨stored, fun _ inside => closed.mem stored inside⟩
  exact (sound_after otherLoaded later).result_of_built otherLoaded rebuilt

/-- A root with a leaf inside, and a root that has its parameter from a default. -/
theorem operative_reproduces_shelf :
    (after .shelf [(⟨[]⟩, ⟨["Loop"]⟩), (⟨["k"]⟩, ⟨["Leaf"]⟩)]).graph.roots =
        [⟨⟨[]⟩, ⟨["m", "Loop"]⟩⟩, ⟨⟨["k"]⟩, ⟨["m", "Leaf"]⟩⟩] ∧
      ∃ loading other,
        Loading.start.loadFile .sample
          (MemorySources.load ⟨[("operative.gin",
            (after .shelf [(⟨[]⟩, ⟨["Loop"]⟩), (⟨["k"]⟩, ⟨["Leaf"]⟩)]).graph.operativeText)]⟩)
          "operative.gin" = (.ok (), loading) ∧
        Config.ofLoading .sample loading = .ok other ∧
        ∀ root ∈ (after .shelf [(⟨[]⟩, ⟨["Loop"]⟩), (⟨["k"]⟩, ⟨["Leaf"]⟩)]).graph.roots, ∃ node,
          (after .shelf [(⟨[]⟩, ⟨["Loop"]⟩), (⟨["k"]⟩, ⟨["Leaf"]⟩)]).graph.get? root = some node ∧
          ∀ later, ((after other later).resolve other (Scope.parse root.scope.toText)
            (DottedName.parse root.symbol.toText)).result = .ok node := by
  have name : MemorySources.spelling (FilePath.parse "operative.gin") = "operative.gin" := by
    decide
  have found (text : String) : MemorySources.load ⟨[("operative.gin", text)]⟩ "operative.gin" none =
      .ok ⟨"operative.gin", text⟩ := by
    rw [MemorySources.load_toplevel, name]
    rfl
  have written : (after .shelf [(⟨[]⟩, ⟨["Loop"]⟩), (⟨["k"]⟩, ⟨["Leaf"]⟩)]).graph.roots =
      [⟨⟨[]⟩, ⟨["m", "Loop"]⟩⟩, ⟨⟨["k"]⟩, ⟨["m", "Leaf"]⟩⟩] ∧
      (after .shelf [(⟨[]⟩, ⟨["Loop"]⟩), (⟨["k"]⟩, ⟨["Leaf"]⟩)]).graph.Readable := by
    decide +kernel
  exact ⟨written.1, operative_reproduces Config.loaded_shelf Registry.assembled_sample
    Registry.ofNames_sample _ written.2
    (closed_after Config.loaded_shelf Registry.plainDefaults_sample _) (found _)⟩

/-- The text of the crate says nothing about the leaf in it, which a default holds. A leaf is made
anew for the reference in the text, and it has a size of its own. -/
theorem operative_differs :
    Config.crate.Loaded ∧ Registry.crate.Assembled ∧ Registry.crate.OfNames ∧
      (after .crate [(⟨[]⟩, ⟨["Crate"]⟩)]).graph.Readable ∧
      ((after .crate [(⟨[]⟩, ⟨["Crate"]⟩)]).graph.get? ⟨⟨[]⟩, ⟨["m", "Crate"]⟩⟩).map
        Node.partTexts = some [[("size", "5")]] ∧
      ∃ loading other,
        Loading.start.loadFile .crate
          (MemorySources.load ⟨[("operative.gin",
            (after .crate [(⟨[]⟩, ⟨["Crate"]⟩)]).graph.operativeText)]⟩)
          "operative.gin" = (.ok (), loading) ∧
        Config.ofLoading .crate loading = .ok other ∧
        (start.resolve other ⟨[]⟩ ⟨["m", "Crate"]⟩).result.toOption.map Node.partTexts =
          some [[("size", "1")]] := by
  refine ⟨Config.loaded_crate, Registry.assembled_crate, Registry.ofNames_crate, ?_⟩
  rw [← and_assoc]
  refine ⟨by decide +kernel, ?_⟩
  have reread : (Loading.start.loadFile .crate
      (MemorySources.load ⟨[("operative.gin",
        (after .crate [(⟨[]⟩, ⟨["Crate"]⟩)]).graph.operativeText)]⟩)
      "operative.gin").1.isOk = true ∧
      (Config.ofLoading .crate (Loading.start.loadFile .crate
        (MemorySources.load ⟨[("operative.gin",
          (after .crate [(⟨[]⟩, ⟨["Crate"]⟩)]).graph.operativeText)]⟩)
        "operative.gin").2).toOption.map (fun other =>
          (start.resolve other ⟨[]⟩ ⟨["m", "Crate"]⟩).result.toOption.map Node.partTexts) =
        some (some [[("size", "1")]]) := by
    decide +kernel
  obtain ⟨read, made⟩ := reread
  generalize Loading.start.loadFile .crate _ "operative.gin" = run at read made ⊢
  obtain ⟨result, loading⟩ := run
  cases result with
  | error error => cases read
  | ok _ =>
    refine ⟨loading, ?_⟩
    cases finished : Config.ofLoading .crate loading with
    | error error =>
      rw [finished] at made
      cases made
    | ok other =>
      rw [finished] at made
      exact ⟨other, rfl, rfl, Option.some.inj made⟩

end Resolver

end ConfigBinding
