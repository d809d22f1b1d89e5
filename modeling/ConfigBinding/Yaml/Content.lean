import ConfigBinding.Yaml.Node

/-!
# Content of a YAML document

The content of a document is its tree with every alias replaced by the node that it stands for.
Collections may be nested 128 deep, and the number of aliases followed is bounded by the size of the
document, so that a few short lines cannot stand for an endless tree. A node that holds an alias of
itself exceeds the depth.
-/

namespace ConfigBinding.Yaml

/-- A tree of scalars, sequences and mappings. -/
inductive Content
  | scalar (tag : Option Tag) (text : String) (plain : Bool)
  | sequence (tag : Option Tag) (items : List Content)
  | mapping (tag : Option Tag) (entries : List (Content × Content))

namespace Node

mutual

/-- The nodes that carry an anchor, each with its number, in the order of the anchors. -/
def anchored : Node → List (Nat × Node)
  | .aliasOf _ => []
  | .scalar properties text plain =>
    properties.anchor.toList.map fun number => (number, .scalar properties text plain)
  | .sequence properties items =>
    (properties.anchor.toList.map fun number => (number, .sequence properties items))
      ++ anchoredInItems items
  | .mapping properties entries =>
    (properties.anchor.toList.map fun number => (number, .mapping properties entries))
      ++ anchoredInEntries entries

def anchoredInItems : List Node → List (Nat × Node)
  | [] => []
  | item :: items => item.anchored ++ anchoredInItems items

def anchoredInEntries : List (Node × Node) → List (Nat × Node)
  | [] => []
  | (key, value) :: entries => key.anchored ++ value.anchored ++ anchoredInEntries entries

end

mutual

/-- The size of a tree: each collection counts for its start and its end. -/
def size : Node → Nat
  | .aliasOf _ | .scalar _ _ _ => 1
  | .sequence _ items => sizeOfItems items + 2
  | .mapping _ entries => sizeOfEntries entries + 2

def sizeOfItems : List Node → Nat
  | [] => 0
  | item :: items => item.size + sizeOfItems items

def sizeOfEntries : List (Node × Node) → Nat
  | [] => 0
  | (key, value) :: entries => key.size + value.size + sizeOfEntries entries

end

end Node

namespace Content

/-- How deep collections may be nested. -/
def depthLimit : Nat := 128

/-- How many aliases may be followed for each unit of a document's size. -/
def aliasRate : Nat := 100

/-- Expands the nodes one after the other; `budget` is the number of aliases that may be
followed. -/
def expandItems (expand : Node → Nat → Option (Content × Nat)) :
    List Node → Nat → Option (List Content × Nat)
  | [], budget => some ([], budget)
  | item :: items, budget => do
    let (item, budget) ← expand item budget
    let (items, budget) ← expandItems expand items budget
    return (item :: items, budget)

/-- Expands the entries one after the other, each key before its value. -/
def expandEntries (expand : Node → Nat → Option (Content × Nat)) :
    List (Node × Node) → Nat → Option (List (Content × Content) × Nat)
  | [], budget => some ([], budget)
  | (key, value) :: entries, budget => do
    let (key, budget) ← expand key budget
    let (value, budget) ← expand value budget
    let (entries, budget) ← expandEntries expand entries budget
    return ((key, value) :: entries, budget)

/-- The node behind an alias; every other node is itself. -/
def follow (anchors : List (Nat × Node)) (node : Node) (budget : Nat) : Option (Node × Nat) :=
  match node, budget with
  | .aliasOf number, budget + 1 => (Entries.get? number anchors).map (·, budget)
  | .aliasOf _, 0 => none
  | node, budget => some (node, budget)

/-- The content of a node whose collections may be nested `depth` deep. -/
def expand (anchors : List (Nat × Node)) : Nat → Node → Nat → Option (Content × Nat)
  | depth, node, budget => do
    let (node, budget) ← follow anchors node budget
    match node, depth with
    | .scalar properties text plain, _ => return (.scalar properties.tag text plain, budget)
    | .sequence properties items, depth + 1 =>
      let (items, budget) ← expandItems (expand anchors depth) items budget
      return (.sequence properties.tag items, budget)
    | .mapping properties entries, depth + 1 =>
      let (entries, budget) ← expandEntries (expand anchors depth) entries budget
      return (.mapping properties.tag entries, budget)
    | _, _ => none

/-- The content of a document. -/
def ofNode? (node : Node) : Option Content :=
  (expand (Entries.ofList node.anchored) depthLimit node (aliasRate * node.size)).map Prod.fst

/-- The content of the only document of a text; a text may be without a document. -/
def parse? (text : String) : Option (Option Content) := do
  let tokens ← tokenize? text
  match ← Node.ofTokens? tokens with
  | some node => (ofNode? node).map some
  | none => return none

end Content

end ConfigBinding.Yaml
