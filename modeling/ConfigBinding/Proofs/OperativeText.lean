import ConfigBinding.Proofs.Construction
import ConfigBinding.Proofs.Reading.Bindings

/-!
# A graph as a configuration

A graph is written as one binding for each parameter of each node, under comments that name the
nodes. The text is read as these bindings, in this order: a value becomes an expression without
macros, in which each constructed configurable is the call that makes it.

Results:
1. `Value.toText_toExpr`: a value is written like its expression.
2. `Graph.Readable.parseSource`: the text of a graph is read as its bindings.
-/

namespace ConfigBinding

open Lexer

/-! ## Values as expressions -/

namespace Value

mutual

/-- The expression as which a value is written. -/
def toExpr : Value → Expr
  | .none => .literal .none (.zero 0)
  | .bool value => .literal (.bool value) (.zero 0)
  | .int value => .literal (.int value) (.zero 0)
  | .float value => .literal (.float value) (.zero 0)
  | .str text => .literal (.str text) (.zero 0)
  | .list items => .list (toExprs items) (.zero 0)
  | .tuple items => .tuple (toExprs items) (.zero 0)
  | .map entries => .map (toEntryExprs entries) (.zero 0)
  | .object key _ _ => .reference ⟨key.scope, key.symbol, true⟩ (.zero 0)

def toExprs : List Value → List Expr
  | [] => []
  | item :: items => item.toExpr :: toExprs items

def toEntryExprs : List (String × Value) → List (String × Expr)
  | [] => []
  | (key, value) :: entries => (key, value.toExpr) :: toEntryExprs entries

end

mutual

/-- The floating point numbers in a value. Those in a constructed configurable belong to it. -/
def floats : Value → List Binary64
  | .none | .bool _ | .int _ | .str _ | .object _ _ _ => []
  | .float value => [value]
  | .list items => floatsOfItems items
  | .tuple items => floatsOfItems items
  | .map entries => floatsOfEntries entries

def floatsOfItems : List Value → List Binary64
  | [] => []
  | item :: items => item.floats ++ floatsOfItems items

def floatsOfEntries : List (String × Value) → List Binary64
  | [] => []
  | (_, value) :: entries => value.floats ++ floatsOfEntries entries

end

theorem toExprs_eq (items : List Value) : toExprs items = items.map toExpr := by
  induction items with
  | nil => rfl
  | cons item items ih => rw [toExprs, ih, List.map_cons]

theorem toEntryExprs_eq (entries : List (String × Value)) :
    toEntryExprs entries = entries.map (Prod.map id toExpr) := by
  induction entries with
  | nil => rfl
  | cons entry entries ih =>
    rw [toEntryExprs, ih, List.map_cons]
    rfl

theorem floatsOfItems_eq (items : List Value) : floatsOfItems items = items.flatMap floats := by
  induction items with
  | nil => rfl
  | cons item items ih => rw [floatsOfItems, ih, List.flatMap_cons]

theorem floatsOfEntries_eq (entries : List (String × Value)) :
    floatsOfEntries entries = entries.flatMap fun entry => entry.2.floats := by
  induction entries with
  | nil => rfl
  | cons entry entries ih => rw [floatsOfEntries, ih, List.flatMap_cons]

theorem toExpr_ofLiteral (literal : Literal) :
    (ofLiteral literal).toExpr = .literal literal (.zero 0) := by
  cases literal <;> rfl

/-- A value is written like its expression. -/
theorem toText_toExpr (value : Value) : value.toExpr.toText = value.toText := by
  induction value using Value.induction with
  | literal literal => rw [toExpr_ofLiteral, toText_literal, Expr.toText]
  | list items ih =>
    rw [toExpr, Expr.toText, toText, toTexts_eq, Expr.toTexts_eq, toExprs_eq, List.map_map]
    exact congrArg _ (List.map_congr_left ih)
  | tuple items ih =>
    rw [toExpr, Expr.toText, toText, toTexts_eq, Expr.toTexts_eq, toExprs_eq, List.map_map]
    exact congrArg _ (List.map_congr_left ih)
  | map entries ih =>
    rw [toExpr, Expr.toText, toText, entryTexts_eq, Expr.entryTexts_eq, toEntryExprs_eq,
      List.map_map]
    refine congrArg _ (List.map_congr_left fun entry member => ?_)
    rw [Function.comp_apply, Prod.map, ih entry member]
    rfl
  | object key params product _ => rfl

theorem withoutSpans_toExpr (value : Value) : value.toExpr.withoutSpans = value.toExpr := by
  induction value using Value.induction with
  | literal literal => cases literal <;> rfl
  | list items ih =>
    rw [toExpr, Expr.withoutSpans_list, toExprs_eq, List.map_map]
    exact congrArg (Expr.list · _) (List.map_congr_left ih)
  | tuple items ih =>
    rw [toExpr, Expr.withoutSpans_tuple, toExprs_eq, List.map_map]
    exact congrArg (Expr.tuple · _) (List.map_congr_left ih)
  | map entries ih =>
    rw [toExpr, Expr.withoutSpans_map, toEntryExprs_eq, List.map_map]
    refine congrArg (Expr.map · _) (List.map_congr_left fun entry member => ?_)
    exact congrArg (Prod.mk entry.1) (ih entry member)
  | object key params product _ => rfl

/-- A value has no macros in it any more. -/
theorem macroRefs_toExpr (value : Value) : value.toExpr.macroRefs = [] := by
  induction value using Value.induction with
  | literal literal => cases literal <;> rfl
  | list items ih =>
    rw [toExpr, Expr.macroRefs, Expr.macroRefsOfItems_eq, toExprs_eq, List.flatMap_map]
    exact List.flatMap_eq_nil_iff.mpr ih
  | tuple items ih =>
    rw [toExpr, Expr.macroRefs, Expr.macroRefsOfItems_eq, toExprs_eq, List.flatMap_map]
    exact List.flatMap_eq_nil_iff.mpr ih
  | map entries ih =>
    rw [toExpr, Expr.macroRefs, Expr.macroRefsOfEntries_eq, toEntryExprs_eq, List.flatMap_map]
    exact List.flatMap_eq_nil_iff.mpr ih
  | object key params product _ => rfl

/-- A value can be read as it is written if its numbers and the names of what it refers to can. -/
theorem writable_toExpr {value : Value} (floats : ∀ x ∈ value.floats, x.ReadsBack)
    (named : ∀ node ∈ value.nodes, node.key.scope.OfNames ∧ node.key.symbol.OfNames) :
    value.toExpr.Writable := by
  induction value using Value.induction with
  | literal literal =>
    rw [toExpr_ofLiteral]
    refine .literal _ fun x same => ?_
    subst same
    exact floats x List.mem_cons_self
  | list items ih =>
    rw [toExpr, toExprs_eq]
    rw [Value.floats, floatsOfItems_eq] at floats
    rw [nodes, nodesOfItems_eq] at named
    refine .list _ (List.forall_mem_map.mpr fun item member => ih item member ?_ ?_)
    · exact fun x inside => floats x (List.mem_flatMap_of_mem member inside)
    · exact fun node inside => named node (List.mem_flatMap_of_mem member inside)
  | tuple items ih =>
    rw [toExpr, toExprs_eq]
    rw [Value.floats, floatsOfItems_eq] at floats
    rw [nodes, nodesOfItems_eq] at named
    refine .tuple _ (List.forall_mem_map.mpr fun item member => ih item member ?_ ?_)
    · exact fun x inside => floats x (List.mem_flatMap_of_mem member inside)
    · exact fun node inside => named node (List.mem_flatMap_of_mem member inside)
  | map entries ih =>
    rw [toExpr, toEntryExprs_eq]
    rw [Value.floats, floatsOfEntries_eq] at floats
    rw [nodes, nodesOfEntries_eq] at named
    refine .map _ (List.forall_mem_map.mpr fun entry member => ih entry member ?_ ?_)
    · exact fun x inside => floats x (List.mem_flatMap_of_mem member inside)
    · exact fun node inside => named node (List.mem_flatMap_of_mem member inside)
  | object key params product _ =>
    obtain ⟨inner, symbol⟩ := named _ List.mem_cons_self
    exact .reference _ inner symbol

end Value

/-! ## Nodes -/

namespace NodeKey

/-- The key is written on one line. -/
theorem oneLine {key : NodeKey} (inner : key.scope.OfNames) (named : key.symbol.OfNames) :
    '\n' ∉ key.toText.toList := by
  have inText (sep : String) (apart : '\n' ∉ sep.toList) {segments : List String}
      (names : ∀ segment ∈ segments, isName segment = true) :
      '\n' ∉ (Text.join sep segments).toList := by
    intro member
    rcases Text.mem_join member with between | ⟨segment, member, inside⟩
    · exact apart between
    · cases isNameChar_of_mem (names segment member) inside
  have symbol : '\n' ∉ key.symbol.toText.toList := inText "." (by decide) named.segments
  have scope : '\n' ∉ key.scope.toText.toList := inText "/" (by decide) inner
  unfold toText Scope.qualify
  split
  · exact symbol
  · simp [scope, symbol]

end NodeKey

namespace Node

/-- The bindings as which the parameters of a node are written. -/
def bindings (node : Node) : List (BindingKey × Expr) :=
  node.params.entries.map fun entry =>
    (⟨node.key.scope, node.key.symbol, entry.1⟩, entry.2.toExpr)

/-- The text of a binding on a line of its own. -/
theorem lexes_line {binding : BindingKey × Expr} (legible : Statement.Legible binding) :
    Lexes nothing (binding.1.toText ++ " = " ++ binding.2.toText ++ "\n").toList
      (Statement.bindingTokens binding) := by
  have line : Lexes nothing "\n".toList [] := lexes_blank (c := '\n') rfl
  have whole := (Statement.lexes_binding legible).append line
    fun _ _ => stops_cons (c := '\n') rfl _
  rw [List.append_nil] at whole
  rw [String.toList_append]
  exact whole

/-- The comments above the bindings of a node. -/
theorem lexes_heading {name rule : String} (nameLine : '\n' ∉ name.toList)
    (ruleLine : '\n' ∉ rule.toList) :
    Lexes nothing ("# Parameters for " ++ name ++ ":\n# " ++ rule ++ "\n").toList [] := by
  have first : Lexes nothing
      ('#' :: ((" Parameters for ".toList ++ name.toList ++ [':']) ++ ['\n'])) [] :=
    lexes_comment (by simp [nameLine])
  have second : Lexes nothing ('#' :: ((' ' :: rule.toList) ++ ['\n'])) [] :=
    lexes_comment (by simp [ruleLine])
  have both := first.append second fun _ _ => stops_nothing _
  have text : ("# Parameters for " ++ name ++ ":\n# " ++ rule ++ "\n").toList =
      ('#' :: ((" Parameters for ".toList ++ name.toList ++ [':']) ++ ['\n'])) ++
        ('#' :: ((' ' :: rule.toList) ++ ['\n'])) := by
    simp
  rw [text]
  exact both

/-- The text of a node reads as its bindings. -/
theorem lexes_operativeText {node : Node} (oneLine : '\n' ∉ node.key.toText.toList)
    (legible : ∀ binding ∈ node.bindings, Statement.Legible binding) :
    Lexes nothing node.operativeText.toList (node.bindings.flatMap Statement.bindingTokens) := by
  have lines : Lexes nothing (node.bindings.flatMap fun binding =>
      (binding.1.toText ++ " = " ++ binding.2.toText ++ "\n").toList)
      (node.bindings.flatMap Statement.bindingTokens) :=
    lexes_flatMap fun binding member => lexes_line (legible binding member)
  have text : (String.join (node.params.entries.map fun entry =>
      (BindingKey.mk node.key.scope node.key.symbol entry.1).toText ++ " = " ++ entry.2.toText
        ++ "\n")).toList =
      node.bindings.flatMap fun binding =>
        (binding.1.toText ++ " = " ++ binding.2.toText ++ "\n").toList := by
    rw [String.toList_join, List.flatMap_map, bindings, List.flatMap_map]
    simp only [Value.toText_toExpr]
  have ruleLine : '\n' ∉ (String.ofList (List.replicate 78 '=')).toList := by
    rw [String.toList_ofList]
    exact fun member => absurd (List.eq_of_mem_replicate member) (by decide)
  unfold operativeText
  dsimp only
  rw [String.toList_append, text]
  exact (lexes_heading oneLine ruleLine).append lines fun _ _ => stops_nothing _

end Node

/-! ## Graphs -/

namespace Graph

/-- The bindings as which a graph is written. -/
def bindings (graph : Graph) : List (BindingKey × Expr) := graph.nodes.flatMap Node.bindings

theorem mem_bindings {graph : Graph} {binding : BindingKey × Expr} :
    binding ∈ graph.bindings ↔ ∃ node ∈ graph.nodes, ∃ entry ∈ node.params.entries,
      (⟨node.key.scope, node.key.symbol, entry.1⟩, entry.2.toExpr) = binding := by
  simp only [bindings, Node.bindings, List.mem_flatMap, List.mem_map]

/-- Nodes without parameters have no bindings. -/
theorem bindings_filter (graph : Graph) :
    (graph.nodes.filter fun node => !node.params.isEmpty).flatMap Node.bindings =
      graph.bindings := by
  unfold bindings
  induction graph.nodes with
  | nil => rfl
  | cons node nodes ih =>
    rw [List.filter_cons, List.flatMap_cons, ← ih]
    split
    · rw [List.flatMap_cons]
    · rename_i empty
      have none : node.params.entries = [] := by simpa [Params.isEmpty] using empty
      rw [Node.bindings, none, List.map_nil, List.nil_append]

/-- The text of a graph reads as its bindings. -/
theorem reads_operativeText {graph : Graph}
    (oneLine : ∀ node ∈ graph.nodes, '\n' ∉ node.key.toText.toList)
    (legible : ∀ binding ∈ graph.bindings, Statement.Legible binding) :
    Lexer.Reads graph.operativeText.toList
      (graph.bindings.flatMap Statement.bindingTokens) := by
  have line : Lexes nothing "\n".toList [] := lexes_blank (c := '\n') rfl
  have each : List.Forall₂ (fun text tokens => Lexes nothing text.toList tokens)
      ((graph.nodes.filter fun node => !node.params.isEmpty).map Node.operativeText)
      ((graph.nodes.filter fun node => !node.params.isEmpty).map
        fun node => node.bindings.flatMap Statement.bindingTokens) := by
    rw [List.forall₂_map_left_iff, List.forall₂_map_right_iff]
    refine List.forall₂_same.mpr fun node member => ?_
    have inGraph := List.mem_of_mem_filter member
    exact Node.lexes_operativeText (oneLine node inGraph) fun binding inNode =>
      legible binding (List.mem_flatMap_of_mem inGraph inNode)
  have reads := (lexes_join line (fun _ => stops_nothing _) each).reads
  rw [joined_nothing, ← List.flatMap_def, ← List.flatMap_assoc, bindings_filter] at reads
  exact reads

/-- The graph can be read as it is written. Only nodes with parameters are written. -/
structure Readable (graph : Graph) : Prop where
  inner : ∀ node ∈ graph.nodes, node.key.scope.OfNames
  plain : ∀ node ∈ graph.nodes, node.params.isEmpty = false →
    ∀ first ∈ firstSegment? node.key.scope node.key.symbol, first ∉ Statement.openingWords
  floats : ∀ node ∈ graph.nodes, ∀ entry ∈ node.params.entries,
    ∀ x ∈ entry.2.floats, x.ReadsBack

instance (graph : Graph) : Decidable graph.Readable :=
  decidable_of_iff
    ((∀ node ∈ graph.nodes, node.key.scope.OfNames) ∧
      (∀ node ∈ graph.nodes, node.params.isEmpty = false →
        ∀ first ∈ firstSegment? node.key.scope node.key.symbol,
          first ∉ Statement.openingWords) ∧
      ∀ node ∈ graph.nodes, ∀ entry ∈ node.params.entries, ∀ x ∈ entry.2.floats, x.ReadsBack)
    ⟨fun ⟨inner, plain, floats⟩ => ⟨inner, plain, floats⟩,
      fun readable => ⟨readable.inner, readable.plain, readable.floats⟩⟩

end Graph

/-- What the nodes of a graph hold has a scope and a symbol of names of the language. -/
def Graph.PartsNamed (graph : Graph) : Prop :=
  ∀ node ∈ graph.nodes, ∀ part ∈ node.parts, part.key.scope.OfNames ∧ part.key.symbol.OfNames

/-- Configurables and their parameters are named by names of the language. -/
structure Registry.OfNames (registry : Registry) : Prop where
  named : ∀ registration ∈ registry.entries, registration.name.OfNames
  params : ∀ registration ∈ registry.entries, ∀ param ∈ registration.params,
    isName param.name = true

/-- What a default holds has a scope and a symbol of names of the language. -/
def Registry.NamedDefaults (registry : Registry) : Prop :=
  ∀ part, registry.DefaultHolds part → part.key.scope.OfNames ∧ part.key.symbol.OfNames

theorem Registry.PlainDefaults.named {registry : Registry} (plain : registry.PlainDefaults) :
    registry.NamedDefaults :=
  fun part held => absurd held (plain.not_defaultHolds part)

section

variable {config : Config} {nodes : List Node}

/-- A constructed node has the name of its configurable, and its parameters have the names of those
that are registered. -/
theorem Constructed.named (constructed : Constructed config nodes)
    (names : config.registry.OfNames) {node : Node} (member : node ∈ nodes) :
    node.key.symbol.OfNames ∧ ∀ entry ∈ node.params.entries, isName entry.1 = true := by
  obtain ⟨owner, owned, params, _⟩ := constructed.built member
  obtain ⟨sameName, registered⟩ := Registry.get?_eq_some owned
  refine ⟨sameName ▸ names.named owner registered, fun entry inside => ?_⟩
  obtain ⟨param, declared, fills⟩ := exists_left_of_forall₂ params inside
  rw [fills.1]
  exact names.params owner registered param declared

variable {graph : Graph}

/-- What is held by reference is in the graph, and all else is held by defaults. -/
theorem Constructed.partsNamed (constructed : Constructed config graph.nodes)
    (names : config.registry.OfNames) (defaults : config.registry.NamedDefaults)
    (inner : ∀ node ∈ graph.nodes, node.key.scope.OfNames) : graph.PartsNamed := by
  intro node inGraph part inside
  rcases (constructed.built inGraph).referenced_or_default part inside with referenced | held
  · have stored := constructed.parts inGraph referenced
    exact ⟨inner part stored, (constructed.named names stored).1⟩
  · exact defaults part held

/-- The bindings of a graph have names of the language if its nodes have scopes of such names, and
so has what they hold. -/
theorem Constructed.legible (constructed : Constructed config graph.nodes)
    (names : config.registry.OfNames) (partsNamed : graph.PartsNamed)
    (inner : ∀ node ∈ graph.nodes, node.key.scope.OfNames)
    (floats : ∀ node ∈ graph.nodes, ∀ entry ∈ node.params.entries,
      ∀ x ∈ entry.2.floats, x.ReadsBack) :
    ∀ binding ∈ graph.bindings, Statement.Legible binding := by
  intro binding member
  obtain ⟨node, inGraph, entry, inside, rfl⟩ := Graph.mem_bindings.mp member
  obtain ⟨symbol, params⟩ := constructed.named names inGraph
  refine ⟨⟨inner node inGraph, symbol, params entry inside⟩, ?_⟩
  refine Value.writable_toExpr (floats node inGraph entry inside) fun part held => ?_
  refine partsNamed node inGraph part ?_
  rw [Node.parts, Value.nodesOfEntries_eq]
  exact List.mem_flatMap_of_mem inside held

/-- The text of a graph reads as its bindings if these have names of the language. -/
theorem Constructed.reads (constructed : Constructed config graph.nodes)
    (names : config.registry.OfNames) (inner : ∀ node ∈ graph.nodes, node.key.scope.OfNames)
    (legible : ∀ binding ∈ graph.bindings, Statement.Legible binding) :
    Lexer.Reads graph.operativeText.toList (graph.bindings.flatMap Statement.bindingTokens) :=
  Graph.reads_operativeText (fun node member =>
    NodeKey.oneLine (inner node member) (constructed.named names member).1) legible

namespace Graph.Readable

theorem bindings (readable : graph.Readable) (names : config.registry.OfNames)
    (partsNamed : graph.PartsNamed) (constructed : Constructed config graph.nodes) :
    ∀ binding ∈ graph.bindings, Statement.Readable binding := by
  intro binding member
  obtain ⟨named, writable⟩ :=
    constructed.legible names partsNamed readable.inner readable.floats binding member
  obtain ⟨node, inGraph, entry, inside, rfl⟩ := mem_bindings.mp member
  have filled : node.params.isEmpty = false :=
    List.isEmpty_eq_false_iff_exists_mem.mpr ⟨entry, inside⟩
  exact ⟨named, readable.plain node inGraph filled, writable⟩

/-- The text of a graph is read as its bindings. -/
theorem parseSource (readable : graph.Readable) (names : config.registry.OfNames)
    (partsNamed : graph.PartsNamed) (constructed : Constructed config graph.nodes) (file : Nat) :
    ∃ statements, Statement.parseSource file graph.operativeText = .ok statements ∧
      List.Forall₂ Statement.Gives statements graph.bindings := by
  have each := readable.bindings names partsNamed constructed
  exact Statement.parseSource_bindings each (constructed.reads names readable.inner
    fun binding member => (each binding member).legible) file

end Graph.Readable

end

end ConfigBinding
