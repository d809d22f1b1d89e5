import ConfigBinding.Log
import ConfigBinding.Value.Params

/-!
# Object graphs

The configurables that were constructed, in the order of construction, and which of them were asked
for. A graph is written as a configuration: all values of all parameters, with macros substituted
and each reference as the call that makes it.

Results:
1. `get?_eq_some`: what is found under a key has this key.
-/

namespace ConfigBinding

/-- A constructed configurable. Without a product it is the plain record of its parameters. -/
structure Node where
  key : NodeKey
  params : Params
  product : Option String

namespace Node

/-- The node as the value of a parameter. -/
def toValue (node : Node) : Value := .object node.key node.params.entries node.product

/-- The node with the given key in a list. -/
def find? (key : NodeKey) (nodes : List Node) : Option Node :=
  nodes.find? fun node => node.key == key

/-- The parameters of the node as a configuration, under a comment that names it. -/
def operativeText (node : Node) : String :=
  "# Parameters for " ++ node.key.toText ++ ":\n# " ++ String.ofList (List.replicate 78 '=') ++ "\n"
    ++ String.join (node.params.entries.map fun (param, value) =>
      (BindingKey.mk node.key.scope node.key.symbol param).toText ++ " = " ++ value.toText ++ "\n")

end Node

/-- Constructed configurables. -/
structure Graph where
  nodes : List Node
  /-- The keys that were asked for. -/
  roots : List NodeKey

namespace Graph

def size (graph : Graph) : Nat := graph.nodes.length

def isEmpty (graph : Graph) : Bool := graph.nodes.isEmpty

def get? (graph : Graph) (key : NodeKey) : Option Node := Node.find? key graph.nodes

/-- The first node in the scope whose symbol ends with the given one. -/
def find? (graph : Graph) (scope : Scope) (symbol : DottedName) : Option Node :=
  graph.nodes.find? fun node => node.key.scope == scope && node.key.symbol.endsWith symbol

/-- The nodes that were asked for. -/
def rootNodes (graph : Graph) : List Node := graph.roots.filterMap graph.get?

/-- The parameters of all nodes as a configuration. -/
def operativeText (graph : Graph) : String :=
  Text.join "\n" ((graph.nodes.filter fun node => !node.params.isEmpty).map Node.operativeText)

theorem get?_eq_some {graph : Graph} {key : NodeKey} {node : Node}
    (found : graph.get? key = some node) : node.key = key ∧ node ∈ graph.nodes :=
  ⟨eq_of_beq (List.find?_some (p := fun node : Node => node.key == key) found),
    List.mem_of_find?_eq_some found⟩

end Graph

end ConfigBinding
