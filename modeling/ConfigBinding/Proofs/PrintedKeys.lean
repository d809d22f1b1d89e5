import ConfigBinding.Proofs.FoundNodes
import ConfigBinding.Proofs.NodeScopes

/-!
# Keys as roots

The key of a node is written as roots are: the scope, a slash and the registered name. What is
written is taken apart at the last slash, the scope is read by a rule of its own for the empty text,
and the name is looked up among names of which some may end with others. All of this is undone by
writing, so a node that is constructed is found again by its key, and keys that differ are written
differently.

Results:
1. `NodeKey.ReadsBack.splitTarget`, `NodeKey.ReadsBack.toText_inj`: a key is told by its text.
2. `Scope.IsRead.parse_toText`: a scope that was read from a text is one that a text reads as.
3. `Resolver.keys_readBack`: this is so for all nodes that are constructed.
4. `Resolver.printed_keys`: every node is resolved by its written key.
-/

namespace ConfigBinding

/-! ## Keys and their texts -/

/-- The parts of the key are what their texts read as, and the name has no slash. -/
structure NodeKey.ReadsBack (key : NodeKey) : Prop where
  scope : Scope.parse key.scope.toText = key.scope
  symbol : DottedName.parse key.symbol.toText = key.symbol
  apart : '/' ∉ key.symbol.toText.toList

namespace NodeKey.ReadsBack

variable {key other : NodeKey}

theorem splitTarget (back : key.ReadsBack) :
    Scope.splitTarget key.toText = (key.scope, key.symbol.toText) :=
  Scope.splitTarget_qualify back.scope back.apart

theorem toText_inj (back : key.ReadsBack) (otherBack : other.ReadsBack)
    (same : key.toText = other.toText) : key = other := by
  have parts := congrArg Scope.splitTarget same
  rw [back.splitTarget, otherBack.splitTarget] at parts
  obtain ⟨scopes, symbols⟩ := Prod.mk.inj parts
  have names : key.symbol = other.symbol := by
    rw [← back.symbol, symbols, otherBack.symbol]
  calc
    key = ⟨key.scope, key.symbol⟩ := rfl
    _ = other := by rw [scopes, names]

end NodeKey.ReadsBack

/-! ## Where scopes are read -/

/-- The scope was read from a text.
* It is what a text reads as.
* It stands in a reference in a value that was read.
* It stands in a reference in a value that a statement assigns that was read. -/
inductive Scope.IsRead : Scope → Prop
  | parsed (text : String) : IsRead (.parse text)
  | inValue {file : Nat} {text : String} {value : Expr} {target : Reference} :
      Expr.parse file text = .ok value → target ∈ value.references → IsRead target.scope
  | inStatement {file : Nat} {text : String} {statements : List Statement} {statement : Statement}
      {assignment : Assignment} {target : Reference} :
      Statement.parseSource file text = .ok statements → statement ∈ statements →
      assignment ∈ statement.body.assignments → target ∈ assignment.value.references →
      IsRead target.scope

theorem Expr.ofNames_of_parse {file : Nat} {text : String} {value : Expr}
    (read : parse file text = .ok value) : value.OfNames := by
  unfold parse at read
  split at read
  · cases read
  · rename_i lexemes tokens
    obtain ⟨⟨e, after⟩, readValue, read⟩ := ok_of_bind read
    dsimp only at read
    split at read
    · cases read
      obtain ⟨ls, passes, isValue⟩ := passes_of_parseAt readValue
      have whole : lexemes = ls ++ after.rest := passes.rest
      refine isValue.ofNames fun l here => Lexer.isName_of_tokenize tokens l ?_
      exact whole ▸ List.mem_append_left _ here
    · cases read

/-- What a text reads as and what is made of names is read back from its text. -/
theorem Scope.IsRead.parse_toText {scope : Scope} (isRead : scope.IsRead) :
    Scope.parse scope.toText = scope := by
  cases isRead with
  | parsed text => rw [Scope.toText_parse]
  | inValue read inside =>
    exact Scope.OfNames.parse_toText ((Expr.ofNames_of_parse read).scopesIn _ inside)
  | inStatement read member assigned inside =>
    have named := Statement.ofNames_of_parseSource read member _ assigned
    exact Scope.OfNames.parse_toText (named.scopesIn _ inside)

/-! ## Nodes -/

/-- The names of the configurables are given as dotted texts without slashes. -/
def Registry.Slashless (registry : Registry) : Prop :=
  ∀ registration ∈ registry.entries, ∃ text : String, '/' ∉ text.toList ∧
    registration.name = .parse text

namespace Resolver

variable {config : Config} {calls : List (Scope × DottedName)}

/-- A node that is constructed has a key that is told by its text. -/
theorem keys_readBack (loaded : config.Loaded) (names : config.registry.Slashless)
    (asked : ∀ call ∈ calls, call.1.IsRead) :
    ∀ node ∈ (after config calls).cache, node.key.ReadsBack := by
  intro node member
  have written : config.log.ScopesIn fun scope => Scope.parse scope.toText = scope :=
    fun e stands target inside => (loaded.scopesIn_log e stands target inside).parse_toText
  have constructed : Constructed config (after config calls).graph.nodes :=
    (sound_after loaded calls).constructed
  obtain ⟨owner, isEntry, named⟩ := constructed.exists_owner member
  obtain ⟨text, apart, given⟩ := names owner isEntry
  have symbol : node.key.symbol = .parse text := named.symm.trans given
  refine ⟨scopesIn_after loaded written (fun call among => (asked call among).parse_toText) node
    member, ?_, ?_⟩
  · rw [symbol, DottedName.toText_parse]
  · rwa [symbol, DottedName.toText_parse]

/-- After any calls, failing or not, in scopes that were read, a node is told by its written key.
* The text is taken apart into the scope of the node and a symbol. In this scope the symbol is
  resolved to the very node; no constructor is called, and no node is added.
* Nodes with different keys are written differently. -/
theorem printed_keys (loaded : config.Loaded) (names : config.registry.Slashless)
    (asked : ∀ call ∈ calls, call.1.IsRead) :
    let resolver := after config calls
    (∀ node ∈ resolver.cache, ∃ symbol,
      Scope.splitTarget node.key.toText = (node.key.scope, symbol) ∧
      (resolver.resolve config node.key.scope (.parse symbol)).result = .ok node ∧
      (resolver.resolve config node.key.scope (.parse symbol)).calls = [] ∧
      (resolver.resolve config node.key.scope (.parse symbol)).resolver.cache = resolver.cache) ∧
    ∀ first ∈ resolver.cache, ∀ second ∈ resolver.cache, first.key ≠ second.key →
      first.key.toText ≠ second.key.toText := by
  intro resolver
  have back := keys_readBack loaded names asked
  have constructed : Constructed config resolver.graph.nodes :=
    (sound_after loaded calls).constructed
  refine ⟨fun node member => ?_, fun first isFirst second isSecond apart same => ?_⟩
  · obtain ⟨owner, owned, _⟩ := constructed.built member
    have keyed : node.key = ⟨node.key.scope, owner.name⟩ := by
      rw [(Registry.get?_eq_some owned).1]
    have cached : resolver.cached? ⟨node.key.scope, owner.name⟩ = some node :=
      keyed ▸ constructed.find? member
    have resolution := resolve_cached (Config.lookup_of_owner? owned) cached
    refine ⟨_, (back node member).splitTarget, ?_⟩
    rw [(back node member).symbol, resolution]
    exact ⟨rfl, rfl, rfl⟩
  · exact apart ((back first isFirst).toText_inj (back second isSecond) same)

/-- The scope has two empty segments at its end, and one name ends with the other. -/
theorem printed_keys_namesakes :
    let resolver := after .namesakes
      [(.parse "a//", ⟨["m", "Leaf"]⟩), (.parse "a//", ⟨["Leaf"]⟩)]
    resolver.cache.map (fun node => node.key.toText) = ["a///m.Leaf", "a///Leaf"] ∧
      ∀ node ∈ resolver.cache, ∃ symbol,
        Scope.splitTarget node.key.toText = (node.key.scope, symbol) ∧
          (resolver.resolve .namesakes node.key.scope (.parse symbol)).result = .ok node := by
  have names : Registry.namesakes.Slashless := by
    refine List.forall_mem_cons.mpr ⟨⟨"m.Leaf", by decide, by decide⟩, ?_⟩
    exact List.forall_mem_singleton.mpr ⟨"Leaf", by decide, by decide⟩
  have asked : ∀ call ∈ [(Scope.parse "a//", (⟨["m", "Leaf"]⟩ : DottedName)),
      (.parse "a//", ⟨["Leaf"]⟩)], call.1.IsRead :=
    List.forall_mem_cons.mpr ⟨.parsed "a//", List.forall_mem_singleton.mpr (.parsed "a//")⟩
  refine ⟨by decide, fun node member => ?_⟩
  obtain ⟨symbol, split, resolved, _⟩ :=
    (printed_keys Config.loaded_namesakes names asked).1 node member
  exact ⟨symbol, split, resolved⟩

end Resolver

end ConfigBinding
