import ConfigBinding.Entries
import ConfigBinding.Yaml.Token.Layout

/-!
# From tokens of YAML to a tree

A node is a scalar, a sequence or a mapping, or the alias of one that carries an anchor. The
readers follow the grammar of the marks; each gives what it read and the state behind it, or nothing
if the tokens are malformed.

Anchors are numbered as they come. An anchor that comes again is numbered anew, with the number of
different anchors so far, so its number may come again as well; then the last node with this number
counts.
-/

namespace ConfigBinding.Yaml

/-- What may stand before a node. -/
structure Properties where
  anchor : Option Nat
  tag : Option Tag
deriving DecidableEq, Repr

def Properties.none : Properties := ⟨.none, .none⟩

/-- A node of a YAML document. -/
inductive Node
  | aliasOf (anchor : Nat)
  | scalar (properties : Properties) (text : String) (plain : Bool)
  | sequence (properties : Properties) (items : List Node)
  | mapping (properties : Properties) (entries : List (Node × Node))

namespace Node

/-- The node that stands where nothing is written. -/
def empty : Node := .scalar .none "" true

/-- The state of reading nodes. -/
structure Reading where
  rest : List Token
  /-- The numbers of the anchors so far. -/
  anchors : List (String × Nat)

abbrev Reader (α : Type) := Reading → Option (α × Reading)

namespace Reading

def setRest (s : Reading) (rest : List Token) : Reading := { s with rest := rest }

/-- Numbers an anchor. -/
def addAnchor (s : Reading) (name : String) : Nat × Reading :=
  (s.anchors.length, { s with anchors := Entries.insert name s.anchors.length s.anchors })

end Reading

/-- The bytes that each declared handle of tags stands for. -/
abbrev Handles := List (String × List UInt8)

/-- The tag that a handle and a suffix give. A handle has to be declared unless it is empty. -/
def tagOf? (handles : Handles) (handle : String) (suffix : List UInt8) : Option Tag :=
  if handle.isEmpty then some (.ofParts [] suffix)
  else (Entries.get? handle handles).map (Tag.ofParts · suffix)

/-- Reads the properties before a node, an anchor and a tag in either order. -/
def readProperties (handles : Handles) : Reader Properties := fun s =>
  match s.rest with
  | .anchor name :: .tag handle suffix :: rest | .tag handle suffix :: .anchor name :: rest => do
    let tag ← tagOf? handles handle suffix
    let (number, s) := s.addAnchor name
    return (⟨some number, some tag⟩, s.setRest rest)
  | .anchor name :: rest =>
    let (number, s) := s.addAnchor name
    some (⟨some number, Option.none⟩, s.setRest rest)
  | .tag handle suffix :: rest => do
    let tag ← tagOf? handles handle suffix
    return (⟨Option.none, some tag⟩, s.setRest rest)
  | _ => some (.none, s)

/-- The empty node if one of the tokens `stops` comes next, else what `one` reads. -/
def readUnless (stops : List Token) (one : Reader Node) : Reader Node := fun s =>
  if s.rest.head?.any (· ∈ stops) then some (empty, s) else one s

/-! ## Collections -/

/-- Reads the items of a block sequence up to its end. -/
def readBlockItems (one : Reader Node) : Nat → Reader (List Node)
  | 0, _ => none
  | fuel + 1, s =>
    match s.rest with
    | .blockEntry :: rest => do
      let (item, s) ← readUnless [.blockEntry, .blockEnd] one (s.setRest rest)
      let (items, s) ← readBlockItems one fuel s
      return (item :: items, s)
    | .blockEnd :: rest => some ([], s.setRest rest)
    | _ => none

/-- Reads the items of a sequence that has no indentation of its own; it ends where no item
comes. -/
def readInnerItems (one : Reader Node) : Nat → Reader (List Node)
  | 0, _ => none
  | fuel + 1, s =>
    match s.rest with
    | .blockEntry :: rest => do
      let (item, s) ← readUnless [.blockEntry, .key, .value, .blockEnd] one (s.setRest rest)
      let (items, s) ← readInnerItems one fuel s
      return (item :: items, s)
    | _ => some ([], s)

/-- Reads the value of an entry; without the mark of a value it is empty. -/
def readValue (stops : List Token) (one : Reader Node) : Reader Node := fun s =>
  match s.rest with
  | .value :: rest => readUnless stops one (s.setRest rest)
  | _ => some (empty, s)

/-- Reads the entries of a block mapping up to its end. -/
def readBlockEntries (one : Reader Node) : Nat → Reader (List (Node × Node))
  | 0, _ => none
  | fuel + 1, s =>
    match s.rest with
    | .key :: rest => do
      let (key, s) ← readUnless [.key, .value, .blockEnd] one (s.setRest rest)
      let (value, s) ← readValue [.key, .value, .blockEnd] one s
      let (entries, s) ← readBlockEntries one fuel s
      return ((key, value) :: entries, s)
    | .blockEnd :: rest => some ([], s.setRest rest)
    | _ => none

/-- Passes over the comma before an item that is not the first. -/
def skipComma (first : Bool) (s : Reading) : Option Reading :=
  if first then some s
  else match s.rest with
    | .flowEntry :: rest => some (s.setRest rest)
    | _ => none

/-- Reads the key of an entry that is an item of a sequence in brackets. Where the key is missing,
the token in its place is passed over. -/
def readItemKey (one : Reader Node) : Reader Node := fun s =>
  match s.rest with
  | .value :: rest | .flowEntry :: rest | .flowSequenceEnd :: rest => some (empty, s.setRest rest)
  | _ => one s

/-- Reads the items of a sequence in brackets up to its end. An item with a key is a mapping of one
entry. -/
def readFlowItems (one : Reader Node) : Nat → Bool → Reader (List Node)
  | 0, _, _ => none
  | fuel + 1, first, s =>
    match s.rest with
    | .flowSequenceEnd :: rest => some ([], s.setRest rest)
    | _ => do
      let s ← skipComma first s
      match s.rest with
      | .flowSequenceEnd :: rest => return ([], s.setRest rest)
      | .key :: rest =>
        let (key, s) ← readItemKey one (s.setRest rest)
        let (value, s) ← readValue [.flowEntry, .flowSequenceEnd] one s
        let (items, s) ← readFlowItems one fuel false s
        return (.mapping .none [(key, value)] :: items, s)
      | _ =>
        let (item, s) ← one s
        let (items, s) ← readFlowItems one fuel false s
        return (item :: items, s)

/-- Reads the entries of a mapping in braces up to its end. An item without a key is a key without a
value. -/
def readFlowEntries (one : Reader Node) : Nat → Bool → Reader (List (Node × Node))
  | 0, _, _ => none
  | fuel + 1, first, s =>
    match s.rest with
    | .flowMappingEnd :: rest => some ([], s.setRest rest)
    | _ => do
      let s ← skipComma first s
      match s.rest with
      | .flowMappingEnd :: rest => return ([], s.setRest rest)
      | .key :: rest =>
        let (key, s) ← readUnless [.value, .flowEntry, .flowMappingEnd] one (s.setRest rest)
        let (value, s) ← readValue [.flowEntry, .flowMappingEnd] one s
        let (entries, s) ← readFlowEntries one fuel false s
        return ((key, value) :: entries, s)
      | _ =>
        let (key, s) ← one s
        let (entries, s) ← readFlowEntries one fuel false s
        return ((key, empty) :: entries, s)

/-! ## Nodes -/

/-- Reads a node. In brackets and braces `block` is false, and no block collection can stand there.
The items of a sequence may stand at the column of the keys around it if `inner` is true. -/
def read (handles : Handles) : Nat → Bool → Bool → Reader Node
  | 0, _, _, _ => none
  | fuel + 1, block, inner, s =>
    match s.rest with
    | .aliasOf name :: rest => (Entries.get? name s.anchors).map fun number =>
        (.aliasOf number, s.setRest rest)
    | _ => do
      let (properties, s) ← readProperties handles s
      let count := s.rest.length + 1
      let sequence := fun (items, s) => (Node.sequence properties items, s)
      let mapping := fun (entries, s) => (Node.mapping properties entries, s)
      match s.rest, block, inner with
      | .blockEntry :: _, _, true =>
        (readInnerItems (read handles fuel true false) count s).map sequence
      | .scalar text plain :: rest, _, _ =>
        return (.scalar properties text plain, s.setRest rest)
      | .flowSequenceStart :: rest, _, _ =>
        (readFlowItems (read handles fuel false false) count true (s.setRest rest)).map sequence
      | .flowMappingStart :: rest, _, _ =>
        (readFlowEntries (read handles fuel false false) count true (s.setRest rest)).map mapping
      | .blockSequenceStart :: rest, true, _ =>
        (readBlockItems (read handles fuel true false) count (s.setRest rest)).map sequence
      | .blockMappingStart :: rest, true, _ =>
        (readBlockEntries (read handles fuel true true) count (s.setRest rest)).map mapping
      | _, _, _ =>
        if properties = .none then none else return (.scalar properties "" true, s)

/-! ## Documents -/

/-- The handles that need no declaration. -/
def defaultHandles : Handles :=
  [("!", "!".toUTF8.toList), ("!!", "tag:yaml.org,2002:".toUTF8.toList)]

/-- Reads the directives before a document: at most one version, which has to be 1.1 or 1.2, and
each handle once. -/
def readDirectives (versioned : Bool) (handles : Handles) :
    List Token → Option (Handles × List Token)
  | .versionDirective major minor :: rest =>
    if versioned || major != 1 || !(minor == 1 || minor == 2) then none
    else readDirectives true handles rest
  | .tagDirective handle start :: rest =>
    if Entries.contains handle handles then none
    else readDirectives versioned (handles ++ [(handle, start)]) rest
  | rest => some (handles, rest)

/-- Whether the content of a document ends, or starts anew, with a token. -/
def boundsDocument : Token → Bool
  | .versionDirective _ _ | .tagDirective _ _ | .documentStart | .documentEnd => true
  | _ => false

/-- Reads the content of a document behind its start. -/
def readContent (handles : Handles) (tokens : List Token) :
    Option (Node × List Token) :=
  if tokens.head?.all boundsDocument then some (empty, tokens)
  else (read (handles ++ defaultHandles) (tokens.length + 1) true false ⟨tokens, []⟩).map
    fun (node, s) => (node, s.rest)

/-- The only document of a text. No tokens at all are no document. -/
def ofTokens? (tokens : List Token) : Option (Option Node) :=
  match tokens with
  | [] => some none
  | token :: _ => do
    let explicit := boundsDocument token && token != .documentEnd
    let (handles, tokens) ← readDirectives false [] tokens
    let (node, rest) ←
      match explicit, tokens with
      | true, .documentStart :: tokens => readContent handles tokens
      | true, _ => none
      | false, tokens =>
        (read defaultHandles (tokens.length + 1) true false ⟨tokens, []⟩).map
          fun (node, s) => (node, s.rest)
    if rest.dropWhile (· == .documentEnd) = [] then return some node
    none

end Node

end ConfigBinding.Yaml
