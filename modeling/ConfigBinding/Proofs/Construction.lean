import ConfigBinding.Proofs.Denotation
import Mathlib.Data.List.Nodup

/-!
# What is constructed from what

The nodes inside a value are those that it holds at any depth, also as parameters of other nodes.
There are two ways in which a node comes to be there. It is what a reference stands for, or a
default holds it, which is a value from the start. A list of nodes is in order of construction if
each node stands for its key, has a key of its own and holds by reference only nodes that stand
further ahead.

Results:
1. `Built.referenced_or_default`: a reference or a default leads to each node inside another.
2. `Constructed.find?`: each node is found under its key.
3. `Constructed.parts_before`: what a node holds by reference stands ahead of it.
-/

namespace ConfigBinding

/-! ## Nodes inside values -/

namespace Value

mutual

/-- The nodes inside a value, each with those that it holds. -/
def nodes : Value → List Node
  | .none | .bool _ | .int _ | .float _ | .str _ => []
  | .list items => nodesOfItems items
  | .tuple items => nodesOfItems items
  | .map entries => nodesOfEntries entries
  | .object key params product => ⟨key, ⟨params⟩, product⟩ :: nodesOfEntries params

def nodesOfItems : List Value → List Node
  | [] => []
  | item :: items => nodes item ++ nodesOfItems items

def nodesOfEntries : List (String × Value) → List Node
  | [] => []
  | (_, value) :: entries => nodes value ++ nodesOfEntries entries

end

theorem nodesOfItems_eq (items : List Value) : nodesOfItems items = items.flatMap nodes := by
  induction items with
  | nil => rfl
  | cons item items ih => rw [nodesOfItems, ih, List.flatMap_cons]

theorem nodesOfEntries_eq (entries : List (String × Value)) :
    nodesOfEntries entries = entries.flatMap fun entry => nodes entry.2 := by
  induction entries with
  | nil => rfl
  | cons entry entries ih => rw [nodesOfEntries, ih, List.flatMap_cons]

theorem nodes_ofLiteral (literal : Literal) : (ofLiteral literal).nodes = [] := by
  cases literal <;> rfl

mutual

theorem nodes_of_isPlain {value : Value} (plain : value.isPlain = true) : value.nodes = [] := by
  cases value with
  | none | bool | int | float | str => rfl
  | list items => exact nodesOfItems_of_arePlain plain
  | tuple items => exact nodesOfItems_of_arePlain plain
  | map entries => exact nodesOfEntries_of_arePlain plain
  | object key params product => cases plain

theorem nodesOfItems_of_arePlain {items : List Value} (plain : arePlain items = true) :
    nodesOfItems items = [] := by
  cases items with
  | nil => rfl
  | cons item items =>
    obtain ⟨first, rest⟩ := Bool.and_eq_true_iff.mp plain
    rw [nodesOfItems, nodes_of_isPlain first, nodesOfItems_of_arePlain rest, List.append_nil]

theorem nodesOfEntries_of_arePlain {entries : List (String × Value)}
    (plain : entriesArePlain entries = true) : nodesOfEntries entries = [] := by
  cases entries with
  | nil => rfl
  | cons entry entries =>
    obtain ⟨first, rest⟩ := Bool.and_eq_true_iff.mp plain
    rw [nodesOfEntries, nodes_of_isPlain first, nodesOfEntries_of_arePlain rest, List.append_nil]

end

end Value

namespace Node

/-- The nodes inside the parameters of a node. -/
def parts (node : Node) : List Node := Value.nodesOfEntries node.params.entries

theorem find?_eq_some {key : NodeKey} {nodes : List Node} {node : Node}
    (found : find? key nodes = some node) : node.key = key ∧ node ∈ nodes :=
  ⟨eq_of_beq (List.find?_some (p := fun node : Node => node.key == key) found),
    List.mem_of_find?_eq_some found⟩

theorem find?_eq_none {key : NodeKey} {nodes : List Node} :
    find? key nodes = none ↔ key ∉ nodes.map Node.key := by
  simp [find?]

end Node

/-! ## Nodes of references -/

namespace Config

variable (config : Config)

mutual

/-- The nodes inside a value that references stand for, each with those that it holds by reference.
Of the parameters of a node only those count that the log binds. -/
def referenced : Value → List Node
  | .none | .bool _ | .int _ | .float _ | .str _ => []
  | .list items => referencedInItems items
  | .tuple items => referencedInItems items
  | .map entries => referencedInEntries entries
  | .object key params product => ⟨key, ⟨params⟩, product⟩ :: referencedInParams key params

def referencedInItems : List Value → List Node
  | [] => []
  | item :: items => referenced item ++ referencedInItems items

def referencedInEntries : List (String × Value) → List Node
  | [] => []
  | (_, value) :: entries => referenced value ++ referencedInEntries entries

def referencedInParams (key : NodeKey) : List (String × Value) → List Node
  | [] => []
  | (param, value) :: params =>
    (if (config.governing? key param).isSome then referenced value else []) ++
      referencedInParams key params

end

variable {config : Config}

theorem referencedInItems_eq (items : List Value) :
    config.referencedInItems items = items.flatMap config.referenced := by
  induction items with
  | nil => rfl
  | cons item items ih => rw [referencedInItems, ih, List.flatMap_cons]

theorem referencedInEntries_eq (entries : List (String × Value)) :
    config.referencedInEntries entries =
      entries.flatMap fun entry => config.referenced entry.2 := by
  induction entries with
  | nil => rfl
  | cons entry entries ih => rw [referencedInEntries, ih, List.flatMap_cons]

theorem mem_referencedInParams {key : NodeKey} {params : List (String × Value)} {part : Node} :
    part ∈ config.referencedInParams key params ↔ ∃ entry ∈ params,
      (config.governing? key entry.1).isSome = true ∧ part ∈ config.referenced entry.2 := by
  induction params with
  | nil => simp [referencedInParams]
  | cons entry params ih =>
    rw [referencedInParams, List.mem_append, ih, List.exists_mem_cons_iff]
    split <;> simp_all

theorem referenced_ofLiteral (literal : Literal) :
    config.referenced (.ofLiteral literal) = [] := by
  cases literal <;> rfl

/-- A mapping holds nothing but what its entries hold. -/
theorem referencedInEntries_ofList (entries : List (String × Value)) :
    config.referencedInEntries (Entries.ofList entries) ⊆ config.referencedInEntries entries := by
  intro node member
  rw [referencedInEntries_eq] at member ⊢
  obtain ⟨entry, inTable, member⟩ := List.mem_flatMap.mp member
  exact List.mem_flatMap.mpr ⟨entry, Entries.mem_ofList inTable, member⟩

/-- The nodes inside a node that references stand for. -/
def partsOf (config : Config) (node : Node) : List Node :=
  config.referencedInParams node.key node.params.entries

/-- The node and those inside that references stand for. -/
def familyOf (config : Config) (node : Node) : List Node := node :: config.partsOf node

end Config

/-- A default of the registry holds the node, perhaps inside another. -/
def Registry.DefaultHolds (registry : Registry) (part : Node) : Prop :=
  ∃ registration ∈ registry.entries, ∃ param ∈ registration.params, ∃ value,
    param.default = some value ∧ part ∈ value.nodes

theorem Registry.PlainDefaults.not_defaultHolds {registry : Registry}
    (plain : registry.PlainDefaults) (part : Node) : ¬ registry.DefaultHolds part := by
  rintro ⟨registration, member, param, declared, value, default, held⟩
  have isPlain := plain registration member param declared
  rw [default] at isPlain
  rw [Value.nodes_of_isPlain isPlain] at held
  cases held

/-- A reference or a default leads to each node inside the value. -/
def Value.Traced (config : Config) (value : Value) : Prop :=
  ∀ part ∈ value.nodes, part ∈ config.referenced value ∨ config.registry.DefaultHolds part

section

variable {config : Config} {node : Node}

theorem Value.traced_items {items : List Value} (each : ∀ item ∈ items, item.Traced config) :
    ∀ part ∈ Value.nodesOfItems items,
      part ∈ config.referencedInItems items ∨ config.registry.DefaultHolds part := by
  intro part inside
  rw [Value.nodesOfItems_eq] at inside
  obtain ⟨item, member, held⟩ := List.mem_flatMap.mp inside
  rw [Config.referencedInItems_eq]
  exact (each item member part held).imp_left (List.mem_flatMap_of_mem member)

/-- The entry has its value from a default, unless the parameter is bound to a value that is
traced. -/
def TracesParam (config : Config) (key : NodeKey) (param : Param) (entry : String × Value) : Prop :=
  entry.1 = param.name ∧
    (config.governing? key param.name = none → param.default = some entry.2) ∧
    ∀ e, config.governing? key param.name = some e → entry.2.Traced config

theorem Node.traced_parts {owner : Registration} (owned : config.owner? node.key = some owner)
    (params : List.Forall₂ (TracesParam config node.key) owner.params node.params.entries) :
    ∀ part ∈ node.parts, part ∈ config.partsOf node ∨ config.registry.DefaultHolds part := by
  intro part inside
  rw [parts, Value.nodesOfEntries_eq] at inside
  obtain ⟨entry, member, held⟩ := List.mem_flatMap.mp inside
  obtain ⟨param, declared, sameName, default, traced⟩ := exists_left_of_forall₂ params member
  cases governed : config.governing? node.key param.name with
  | none =>
    exact .inr ⟨owner, (Registry.get?_eq_some owned).2, param, declared, entry.2,
      default governed, held⟩
  | some e =>
    refine (traced e governed part held).imp_left fun reached => ?_
    refine Config.mem_referencedInParams.mpr ⟨entry, member, ?_, reached⟩
    rw [sameName, governed]
    rfl

/-- A value that an expression means is traced. -/
theorem Denotes.traced {e : Expr} {value : Value} (denotes : Denotes config e value) :
    value.Traced config := by
  induction denotes with
  | literal value span =>
    intro part inside
    rw [Value.nodes_ofLiteral] at inside
    cases inside
  | list span sameLength _ ih => exact Value.traced_items (forall_right_of_zip sameLength ih)
  | tuple span sameLength _ ih => exact Value.traced_items (forall_right_of_zip sameLength ih)
  | map span sameLength _ _ ih =>
    intro part inside
    rw [Value.nodes, Value.nodesOfEntries_eq] at inside
    obtain ⟨entry, member, held⟩ := List.mem_flatMap.mp inside
    rw [Config.referenced, Config.referencedInEntries_eq]
    exact (forall_right_of_zip (P := fun pair => pair.2.Traced config) sameLength ih entry
      (Entries.mem_ofList member) part held).imp_left (List.mem_flatMap_of_mem member)
  | macroRef _ _ _ _ ih => exact ih
  | @reference target owner node span named owned sameLength shapes _ _ ih =>
    intro part inside
    have params : List.Forall₂ (TracesParam config node.key) owner.params node.params.entries := by
      refine List.forall₂_iff_zip.mpr ⟨sameLength, fun {param entry} member => ?_⟩
      obtain ⟨sameName, _, default⟩ := shapes param entry member
      exact ⟨sameName, default, fun e governed => ih param entry e member governed⟩
    rcases List.mem_cons.mp inside with rfl | inner
    · exact .inl List.mem_cons_self
    · exact (Node.traced_parts owned params part inner).imp_left (List.mem_cons_of_mem _)

/-- A reference or a default leads to each node inside another. -/
theorem Built.referenced_or_default (built : Built config node) :
    ∀ part ∈ node.parts, part ∈ config.partsOf node ∨ config.registry.DefaultHolds part := by
  obtain ⟨owner, owned, params, _⟩ := built
  refine Node.traced_parts owned (params.imp fun param entry fills => ?_)
  obtain ⟨sameName, _, has⟩ := fills
  refine ⟨sameName, fun ungoverned => ?_, fun e governed => ?_⟩
  · rwa [HasValue, ungoverned] at has
  · rw [HasValue, governed] at has
    exact Denotes.traced has

/-- Where no default holds a node, there are references to all nodes inside another. -/
theorem Built.parts_subset (built : Built config node) (plain : config.registry.PlainDefaults) :
    node.parts ⊆ config.partsOf node :=
  fun part inside => (built.referenced_or_default part inside).resolve_right
    (plain.not_defaultHolds part)

end

/-! ## An example -/

/-- A leaf, and a crate that holds one by default. Both have constructors. -/
def Registry.crate : Registry where
  entries := [
    ⟨⟨["m", "Leaf"]⟩, [⟨"size", some (.int 1), .scalar⟩], some fun _ => .ok "leaf"⟩,
    ⟨⟨["m", "Crate"]⟩, [⟨"content",
      some (.object ⟨⟨[]⟩, ⟨["m", "Leaf"]⟩⟩ [("size", .int 5)] (some "leaf")), .reference⟩],
      some fun _ => .ok "crate"⟩]

/-- The leaf of the configuration is like the one in the crate, to which nothing refers. -/
def Config.crate : Config := .ofBindings .crate ["Leaf.size = 5"]

theorem Config.loaded_crate : Config.crate.Loaded := loaded_ofBindings (by decide +kernel)

/-! ## Order of construction -/

/-- The nodes are those that the configuration says, in an order in which they can be constructed,
and none is there twice. -/
inductive Constructed (config : Config) : List Node → Prop
  | nil : Constructed config []
  | snoc {nodes : List Node} {node : Node} :
      Constructed config nodes → node.key ∉ nodes.map Node.key → Built config node →
      config.partsOf node ⊆ nodes → Constructed config (nodes ++ [node])

namespace Constructed

variable {config : Config} {nodes : List Node}

theorem built (constructed : Constructed config nodes) {node : Node} (member : node ∈ nodes) :
    Built config node := by
  induction constructed with
  | nil => cases member
  | snoc _ _ built _ ih =>
    rcases List.mem_append.mp member with old | new
    · exact ih old
    · obtain rfl := List.mem_singleton.mp new
      exact built

theorem parts (constructed : Constructed config nodes) {node : Node} (member : node ∈ nodes) :
    config.partsOf node ⊆ nodes := by
  induction constructed with
  | nil => cases member
  | snoc _ _ _ closed ih =>
    rcases List.mem_append.mp member with old | new
    · exact fun part inside => List.mem_append_left _ (ih old inside)
    · obtain rfl := List.mem_singleton.mp new
      exact fun part inside => List.mem_append_left _ (closed inside)

theorem keys_nodup (constructed : Constructed config nodes) : (nodes.map Node.key).Nodup := by
  induction constructed with
  | nil => exact List.nodup_nil
  | snoc _ fresh _ _ ih =>
    rw [List.map_append, List.nodup_append]
    refine ⟨ih, List.nodup_singleton _, ?_⟩
    rintro key member other inLast rfl
    obtain rfl := List.mem_singleton.mp inLast
    exact fresh member

theorem find? (constructed : Constructed config nodes) {node : Node} (member : node ∈ nodes) :
    Node.find? node.key nodes = some node := by
  cases found : Node.find? node.key nodes with
  | none =>
    exact absurd (List.mem_map_of_mem member) (Node.find?_eq_none.mp found)
  | some other =>
    obtain ⟨sameKey, otherMember⟩ := Node.find?_eq_some found
    rw [List.inj_on_of_nodup_map constructed.keys_nodup otherMember member sameKey]

/-- What a node holds by reference stands ahead of it. The induction is on the order of
construction: only the last node can hold what the step before has not settled. -/
theorem parts_before (constructed : Constructed config nodes) {i : Nat} {node part : Node}
    (at_i : nodes[i]? = some node) (inside : part ∈ config.partsOf node) :
    ∃ j < i, nodes[j]? = some part := by
  induction constructed generalizing i with
  | nil => cases at_i
  | @snoc nodes last _ _ _ closed ih =>
    rcases Nat.lt_or_ge i nodes.length with early | late
    · rw [List.getElem?_append_left early] at at_i
      obtain ⟨j, before, at_j⟩ := ih at_i
      refine ⟨j, before, ?_⟩
      rw [List.getElem?_append_left (Nat.lt_trans before early)]
      exact at_j
    · have is_last : node = last := by
        have member := List.mem_of_getElem? (List.getElem?_append_right late ▸ at_i)
        exact List.mem_singleton.mp member
      subst is_last
      obtain ⟨j, before, at_j⟩ := List.mem_iff_getElem.mp (closed inside)
      refine ⟨j, Nat.lt_of_lt_of_le before late, ?_⟩
      rw [List.getElem?_append_left before, List.getElem?_eq_getElem before, at_j]

end Constructed

end ConfigBinding
