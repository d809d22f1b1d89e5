import ConfigBinding.Proofs.NodeScopes
import ConfigBinding.Proofs.Operative

/-!
# What an operative text says

The text of a graph says one binding for each parameter of each node, and each value is written
again as it was. Where a node stands in a reference or is asked for, any names do for its scope and
its symbol. At the start of a binding a name may be taken for the keyword of another statement
instead; a binding that begins so makes the text as a whole unreadable.

Results:
1. `Graph.Readable.sets`: a text that is read says what the graph holds, in order.
2. `Resolver.operative_statements`: the text of a graph that was resolved is read just if none of
   its bindings begins with such a keyword.
-/

namespace ConfigBinding

/-- The bindings of the node begin with a word that begins another statement. A node without
parameters is not written. -/
def Node.Opens (node : Node) : Prop :=
  node.params.isEmpty = false ∧
    ∃ first ∈ firstSegment? node.key.scope node.key.symbol, first ∈ Statement.openingWords

instance (node : Node) : Decidable node.Opens := by
  unfold Node.Opens
  infer_instance

/-- The parameters of all nodes in order, each with the key of its node. -/
def Graph.settings (graph : Graph) : List (NodeKey × String × Value) :=
  graph.nodes.flatMap fun node => node.params.entries.map (Prod.mk node.key)

/-- The statement binds just this parameter of the node, to what is written like the value. -/
def Statement.Sets (statement : Statement) (setting : NodeKey × String × Value) : Prop :=
  ∃ value, statement.body =
      .binding ⟨setting.1.scope, setting.1.symbol, .single setting.2.1 value⟩ ∧
    value.toText = setting.2.2.toText

theorem Graph.bindings_eq (graph : Graph) :
    graph.bindings = graph.settings.map fun setting =>
      (⟨setting.1.scope, setting.1.symbol, setting.2.1⟩, setting.2.2.toExpr) := by
  unfold bindings settings
  rw [List.map_flatMap]
  refine List.flatMap_congr fun node _ => ?_
  rw [List.map_map]
  rfl

/-- Expressions that are alike but for their spans are written alike. -/
theorem Expr.toText_eq_of_withoutSpans {e other : Expr}
    (alike : e.withoutSpans = other.withoutSpans) : e.toText = other.toText := by
  rw [← e.toText_mapSpans fun _ => Span.zero 0, ← other.toText_mapSpans fun _ => Span.zero 0]
  exact congrArg Expr.toText alike

namespace Graph

variable {graph : Graph}

/-- If a node opens another statement, one of the bindings does. -/
theorem someOpens {node : Node} (member : node ∈ graph.nodes) (opens : node.Opens) :
    Statement.SomeOpens graph.bindings := by
  obtain ⟨filled, first, starts, word⟩ := opens
  obtain ⟨entry, inside⟩ := List.isEmpty_eq_false_iff_exists_mem.mp filled
  exact ⟨_, mem_bindings.mpr ⟨node, member, entry, inside, rfl⟩, first, starts, word⟩

/-- What is read from the text of a graph is written like what the graph holds. -/
theorem Readable.sets {config : Config} (readable : graph.Readable)
    (names : config.registry.OfNames) (partsNamed : graph.PartsNamed)
    (constructed : Constructed config graph.nodes) (file : Nat) :
    ∃ statements, Statement.parseSource file graph.operativeText = .ok statements ∧
      List.Forall₂ Statement.Sets statements graph.settings := by
  obtain ⟨statements, read, each⟩ := readable.parseSource names partsNamed constructed file
  rw [bindings_eq, List.forall₂_map_right_iff] at each
  refine ⟨statements, read, each.imp fun statement setting gives => ?_⟩
  obtain ⟨value, body, alike⟩ := gives
  refine ⟨value, body, ?_⟩
  rw [Expr.toText_eq_of_withoutSpans alike, Value.toText_toExpr]

end Graph

/-! ## Resolved graphs -/

/-- A configuration that binds nothing. -/
def Config.bare : Config := .ofBindings .sample []

namespace Resolver

variable {config : Config}

/-- The nodes of a loaded configuration have the parameters of their configurables, in order. Their
text can be read just if no node with parameters begins with a keyword of another statement. Then it
says one binding for each parameter of each node, in order, with the scope, the symbol and the name
of the parameter and with a value that is written as it was.

The scopes that are asked for and the registry have names of the language, and so has what defaults
hold, if they hold anything constructed. The floating point numbers are read back as they are
written. -/
theorem operative_statements (loaded : config.Loaded) (names : config.registry.OfNames)
    (defaults : config.registry.NamedDefaults) (calls : List (Scope × DottedName))
    (asked : ∀ call ∈ calls, call.1.OfNames)
    (floats : ∀ node ∈ (after config calls).graph.nodes, ∀ entry ∈ node.params.entries,
      ∀ x ∈ entry.2.floats, x.ReadsBack) (file : Nat) :
    (∀ node ∈ (after config calls).graph.nodes, ∃ owner,
      config.registry.get? node.key.symbol = some owner ∧
        node.params.entries.map Prod.fst = owner.params.map Param.name) ∧
    ((∃ statements, Statement.parseSource file (after config calls).graph.operativeText =
        .ok statements) ↔
      ∀ node ∈ (after config calls).graph.nodes, ¬ node.Opens) ∧
    ∀ statements, Statement.parseSource file (after config calls).graph.operativeText =
        .ok statements →
      List.Forall₂ Statement.Sets statements (after config calls).graph.settings := by
  have constructed : Constructed config (after config calls).graph.nodes :=
    (sound_after loaded calls).constructed
  have inner := scopesIn_after loaded loaded.scopesIn_log asked
  have partsNamed := constructed.partsNamed names defaults inner
  refine ⟨fun node member => (constructed.built member).names_eq, ?_⟩
  by_cases plain : ∀ node ∈ (after config calls).graph.nodes, ¬ node.Opens
  · have readable : (after config calls).graph.Readable := by
      refine ⟨inner, fun node member filled first starts word => ?_, floats⟩
      exact plain node member ⟨filled, first, starts, word⟩
    obtain ⟨statements, read, each⟩ := readable.sets names partsNamed constructed file
    refine ⟨⟨fun _ => plain, fun _ => ⟨statements, read⟩⟩, fun others readOthers => ?_⟩
    cases read.symm.trans readOthers
    exact each
  · obtain ⟨node, member, opens⟩ : ∃ node ∈ (after config calls).graph.nodes, node.Opens := by
      simpa using plain
    have legible := constructed.legible names partsNamed inner floats
    obtain ⟨error, failed⟩ := Statement.parseSource_error_of_opening legible
      (Graph.someOpens member opens) (constructed.reads names inner legible) file
    have unread (statements : List Statement) : Statement.parseSource file
        (after config calls).graph.operativeText ≠ .ok statements := by
      rw [failed]
      exact nofun
    exact ⟨⟨fun ⟨statements, read⟩ => absurd read (unread statements), fun all => absurd all plain⟩,
      fun statements read => absurd read (unread statements)⟩

/-- Three bindings of three nodes, one of which was in a mapping. -/
theorem operative_statements_shelf :
    ∃ statements, Statement.parseSource 7
        (after .shelf [(⟨[]⟩, ⟨["Loop"]⟩), (⟨["k"]⟩, ⟨["Leaf"]⟩)]).graph.operativeText =
          .ok statements ∧
      statements.length = 3 ∧
      List.Forall₂ Statement.Sets statements
        (after .shelf [(⟨[]⟩, ⟨["Loop"]⟩), (⟨["k"]⟩, ⟨["Leaf"]⟩)]).graph.settings := by
  obtain ⟨_, readable, said⟩ := operative_statements Config.loaded_shelf Registry.ofNames_sample
    Registry.plainDefaults_sample.named [(⟨[]⟩, ⟨["Loop"]⟩), (⟨["k"]⟩, ⟨["Leaf"]⟩)]
    (by decide +kernel) (by decide +kernel) 7
  obtain ⟨statements, read⟩ := readable.mpr (by decide +kernel)
  have each := said statements read
  refine ⟨statements, read, ?_, each⟩
  rw [each.length_eq]
  decide +kernel

/-- A leaf in a scope with the name of a keyword resolves, but its text cannot be read. -/
theorem operative_unreadable :
    Config.bare.Loaded ∧ Config.bare.registry.OfNames ∧ Scope.OfNames ⟨["include"]⟩ ∧
      ((start.resolve .bare ⟨["include"]⟩ ⟨["Leaf"]⟩).result.isOk = true) ∧
      (∀ node ∈ (after .bare [(⟨["include"]⟩, ⟨["Leaf"]⟩)]).graph.nodes,
        ∀ entry ∈ node.params.entries, ∀ x ∈ entry.2.floats, x.ReadsBack) ∧
      ∀ statements, Statement.parseSource 0
        (after .bare [(⟨["include"]⟩, ⟨["Leaf"]⟩)]).graph.operativeText ≠ .ok statements := by
  refine ⟨Config.loaded_ofBindings (by decide), Registry.ofNames_sample,
    by decide, by decide, by decide, fun statements read => ?_⟩
  have failed : (Statement.parseSource 0
      (after .bare [(⟨["include"]⟩, ⟨["Leaf"]⟩)]).graph.operativeText).isOk = false := by
    decide +kernel
  rw [read] at failed
  cases failed

end Resolver

end ConfigBinding
