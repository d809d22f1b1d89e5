import ConfigBinding.Proofs.Construction
import ConfigBinding.Proofs.Dependency
import ConfigBinding.Resolver

/-!
# Runs that follow a result

An attempt of the resolver follows an expected result if it gives this result from each state in
which certain things are under way. What it adds to the cache are nodes in order of construction,
and where it gives a value, the nodes inside that references stand for are in the cache.

How deep macros and references may go makes no difference as long as it is deep enough. Thus all is
said about two attempts at once, which have to do the same.

Results:
1. `Tracks.bind`, `Tracks.frame`: following goes step by step, and what is cached stays cached.
2. `Tracks.evaluate`: an expression is followed if its macros and references are.
-/

namespace ConfigBinding

variable {config : Config} {pending : List NodeKey} {macros : List String}

/-! ## States of a run -/

/-- What holds where a step of a run begins: what is under way, the cache, and some nodes that are
known to be in it. -/
structure Steady (config : Config) (pending : List NodeKey) (macros : List String)
    (given : List Node) (progress : Progress) : Prop where
  pending_eq : progress.pending = pending
  macros_eq : progress.macros = macros
  constructed : Constructed config progress.cache
  given_subset : given ⊆ progress.cache

theorem Steady.mono {given fewer : List Node} {progress : Progress}
    (steady : Steady config pending macros given progress) (subset : fewer ⊆ given) :
    Steady config pending macros fewer progress :=
  { steady with given_subset := fun _ member => steady.given_subset (subset member) }

theorem Steady.withCall {given : List Node} {progress : Progress}
    (steady : Steady config pending macros given progress) (registration : Registration)
    (key : NodeKey) (params : Params) :
    Steady config pending macros given (progress.withCall registration key params) := by
  refine ⟨?_, ?_, ?_, ?_⟩
  · rw [progress.withCall_pending, steady.pending_eq]
  · rw [progress.withCall_macros, steady.macros_eq]
  · rw [progress.withCall_cache]
    exact steady.constructed
  · rw [progress.withCall_cache]
    exact steady.given_subset

/-- Nodes are added at the end of the cache, none of which was under way. -/
def Grows (pending : List NodeKey) (before after : Progress) : Prop :=
  ∃ added, after.cache = before.cache ++ added ∧ ∀ node ∈ added, node.key ∉ pending

theorem Grows.of_cache_eq {before after : Progress} (same : after.cache = before.cache) :
    Grows pending before after :=
  ⟨[], by rw [same, List.append_nil], nofun⟩

theorem Grows.trans {before middle after : Progress} (first : Grows pending before middle)
    (second : Grows pending middle after) : Grows pending before after := by
  obtain ⟨early, middleCache, earlyFresh⟩ := first
  obtain ⟨late, afterCache, lateFresh⟩ := second
  refine ⟨early ++ late, ?_, ?_⟩
  · rw [afterCache, middleCache, List.append_assoc]
  · intro node member
    exact (List.mem_append.mp member).elim (earlyFresh node) (lateFresh node)

/-- What grows while a node is constructed grows. -/
theorem Grows.leave {key : NodeKey} {before after : Progress}
    (grows : Grows (pending ++ [key]) (before.enterNode key) after) :
    Grows pending before after := by
  obtain ⟨added, cache, fresh⟩ := grows
  refine ⟨added, cache, fun node member inPending => ?_⟩
  exact fresh node member (List.mem_append_left _ inPending)

/-- A node is not constructed while it is being constructed. -/
theorem Grows.fresh_key {key : NodeKey} {before after : Progress}
    (grows : Grows (pending ++ [key]) before after) (absent : key ∉ before.cache.map Node.key) :
    key ∉ after.cache.map Node.key := by
  obtain ⟨added, cache, fresh⟩ := grows
  rw [cache, List.map_append]
  intro member
  rcases List.mem_append.mp member with old | new
  · exact absent old
  · obtain ⟨node, inAdded, rfl⟩ := List.mem_map.mp new
    exact fresh node inAdded (List.mem_append_right _ (List.mem_singleton_self _))

theorem Grows.subset {before after : Progress} (grows : Grows pending before after) :
    before.cache ⊆ after.cache := by
  obtain ⟨added, cache, _⟩ := grows
  rw [cache]
  exact List.subset_append_left _ _

/-- Where a step of a run ends. It gives what is `expected`; if that is a value, what it has `made`
is in the cache, and under way is what was. -/
structure Outcome {α : Type} (config : Config) (pending : List NodeKey) (macros : List String)
    (given : List Node) (made : α → List Node) (expected : Except ConfigError α)
    (before : Progress) (run : Except ConfigError α × Progress) : Prop where
  result : run.1 = expected
  grows : Grows pending before run.2
  constructed : Constructed config run.2.cache
  steady : ∀ a, expected = .ok a → Steady config pending macros (given ++ made a) run.2

/-- From all states in which the given nodes are known, both attempts do the same and give what is
expected. -/
def Tracks {α : Type} (config : Config) (pending : List NodeKey) (macros : List String)
    (given : List Node) (made : α → List Node) (first second : Attempt Progress α)
    (expected : Except ConfigError α) : Prop :=
  ∀ progress, Steady config pending macros given progress → second progress = first progress ∧
    Outcome config pending macros given made expected progress (first progress)

namespace Tracks

variable {α β : Type} {given : List Node} {made : α → List Node}

theorem pure (a : α) (known : made a ⊆ given) :
    Tracks config pending macros given made (pure a) (pure a) (.ok a) := by
  intro progress steady
  refine ⟨rfl, rfl, .of_cache_eq rfl, steady.constructed, ?_⟩
  rintro _ ⟨⟩
  refine steady.mono fun node member => ?_
  exact (List.mem_append.mp member).elim id (@known node)

theorem fail (error : ConfigError) :
    Tracks config pending macros given made (Attempt.fail error) (Attempt.fail error)
      (.error error) := by
  intro progress steady
  exact ⟨rfl, rfl, .of_cache_eq rfl, steady.constructed, nofun⟩

/-- What is known besides stays known, since nothing leaves the cache. -/
theorem frame {first second : Attempt Progress α} {expected : Except ConfigError α}
    (tracks : Tracks config pending macros [] made first second expected) (given : List Node) :
    Tracks config pending macros given made first second expected := by
  intro progress steady
  obtain ⟨same, outcome⟩ := tracks progress (steady.mono (List.nil_subset _))
  refine ⟨same, outcome.result, outcome.grows, outcome.constructed, ?_⟩
  intro a finished
  have after := outcome.steady a finished
  refine { after with given_subset := fun node member => ?_ }
  rcases List.mem_append.mp member with old | new
  · exact outcome.grows.subset (steady.given_subset old)
  · exact after.given_subset new

theorem bind {made' : β → List Node} {first second : Attempt Progress α}
    {next next' : α → Attempt Progress β} {expected : Except ConfigError α}
    {expectedNext : α → Except ConfigError β}
    (head : Tracks config pending macros given made first second expected)
    (tail : ∀ a, expected = .ok a → Tracks config pending macros (given ++ made a) made' (next a)
      (next' a) (expectedNext a)) :
    Tracks config pending macros given made' (first >>= next) (second >>= next')
      (expected >>= expectedNext) := by
  intro progress steady
  obtain ⟨same, outcome⟩ := head progress steady
  cases run : first progress with
  | mk result middle =>
    rw [run] at same outcome
    obtain rfl := outcome.result
    cases result with
    | error error =>
      -- both runs end where the first step failed
      rw [Attempt.bind_error run, Attempt.bind_error same]
      exact ⟨rfl, rfl, outcome.grows, outcome.constructed, nofun⟩
    | ok a =>
      rw [Attempt.bind_ok run, Attempt.bind_ok same]
      obtain ⟨sameNext, later⟩ := tail a rfl middle (outcome.steady a rfl)
      refine ⟨sameNext, later.result, outcome.grows.trans later.grows, later.constructed, ?_⟩
      intro b finished
      refine (later.steady b finished).mono fun node member => ?_
      rcases List.mem_append.mp member with old | new
      · exact List.mem_append_left _ (List.mem_append_left _ old)
      · exact List.mem_append_right _ new

theorem ofExcept {result : Except ConfigError α}
    (known : ∀ a, result = .ok a → made a ⊆ given) :
    Tracks config pending macros given made (Attempt.ofExcept result) (Attempt.ofExcept result)
      result := by
  cases result with
  | ok a => exact .pure a (known a rfl)
  | error error => exact .fail error

/-! ## Expressions -/

section Expressions

variable {onMacro onMacro' : DottedName → Span → Attempt Progress Value}
  {onReference onReference' : Reference → Span → Attempt Progress Value}
  {macroValue : DottedName → Span → Except ConfigError Value}
  {referenceValue : Reference → Span → Except ConfigError Value}

/-- Each macro and each reference in the expression is followed. -/
structure Visits (config : Config) (pending : List NodeKey) (macros : List String)
    (onMacro onMacro' : DottedName → Span → Attempt Progress Value)
    (onReference onReference' : Reference → Span → Attempt Progress Value)
    (macroValue : DottedName → Span → Except ConfigError Value)
    (referenceValue : Reference → Span → Except ConfigError Value) (e : Expr) : Prop where
  macroRef : ∀ name span, e.Covers (.macroRef name span) →
    Tracks config pending macros [] config.referenced (onMacro name span) (onMacro' name span)
      (macroValue name span)
  reference : ∀ target span, e.Covers (.reference target span) →
    Tracks config pending macros [] config.referenced (onReference target span)
      (onReference' target span) (referenceValue target span)

theorem Visits.of_covers {e part : Expr}
    (visits : Visits config pending macros onMacro onMacro' onReference onReference' macroValue
      referenceValue e) (covers : e.Covers part) :
    Visits config pending macros onMacro onMacro' onReference onReference' macroValue
      referenceValue part where
  macroRef name span inner := visits.macroRef name span (covers.trans inner)
  reference target span inner := visits.reference target span (covers.trans inner)

mutual

theorem evaluate {e : Expr}
    (visits : Visits config pending macros onMacro onMacro' onReference onReference' macroValue
      referenceValue e) :
    Tracks config pending macros [] config.referenced (e.evaluate onMacro onReference)
      (e.evaluate onMacro' onReference') (e.evaluate macroValue referenceValue) := by
  cases e with
  | literal literal span =>
    refine .pure _ ?_
    rw [Config.referenced_ofLiteral]
    exact List.nil_subset _
  | list items span =>
    refine .bind (evaluateItems fun item member =>
      visits.of_covers (Expr.covers_item_of_list span member)) ?_
    intro values _
    exact .pure _ (List.Subset.refl _)
  | tuple items span =>
    refine .bind (evaluateItems fun item member =>
      visits.of_covers (Expr.covers_item_of_tuple span member)) ?_
    intro values _
    exact .pure _ (List.Subset.refl _)
  | map entries span =>
    refine .bind (evaluateEntries fun entry member =>
      visits.of_covers (Expr.covers_value_of_map span member)) ?_
    intro pairs _
    exact .pure _ (Config.referencedInEntries_ofList pairs)
  | macroRef name span => exact visits.macroRef name span (.refl _)
  | reference target span => exact visits.reference target span (.refl _)

theorem evaluateItems {items : List Expr}
    (visits : ∀ item ∈ items, Visits config pending macros onMacro onMacro' onReference
      onReference' macroValue referenceValue item) :
    Tracks config pending macros [] config.referencedInItems
      (Expr.evaluateItems onMacro onReference items)
      (Expr.evaluateItems onMacro' onReference' items)
      (Expr.evaluateItems macroValue referenceValue items) := by
  cases items with
  | nil => exact .pure _ (List.nil_subset _)
  | cons item items =>
    refine .bind (evaluate (visits item List.mem_cons_self)) fun value _ => ?_
    -- the nodes of the first value stay cached while the others are evaluated
    refine .bind (.frame (evaluateItems fun later member =>
      visits later (List.mem_cons_of_mem _ member)) _) fun values _ => ?_
    exact .pure _ (List.Subset.refl _)

theorem evaluateEntries {entries : List (String × Expr)}
    (visits : ∀ entry ∈ entries, Visits config pending macros onMacro onMacro' onReference
      onReference' macroValue referenceValue entry.2) :
    Tracks config pending macros [] config.referencedInEntries
      (Expr.evaluateEntries onMacro onReference entries)
      (Expr.evaluateEntries onMacro' onReference' entries)
      (Expr.evaluateEntries macroValue referenceValue entries) := by
  cases entries with
  | nil => exact .pure _ (List.nil_subset _)
  | cons entry entries =>
    refine .bind (evaluate (visits entry List.mem_cons_self)) fun value _ => ?_
    refine .bind (.frame (evaluateEntries fun later member =>
      visits later (List.mem_cons_of_mem _ member)) _) fun pairs _ => ?_
    exact .pure _ (List.Subset.refl _)

end

end Expressions

end Tracks

end ConfigBinding
