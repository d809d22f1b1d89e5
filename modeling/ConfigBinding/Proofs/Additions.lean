import ConfigBinding.Resolver

/-!
# What a run adds

A run of the resolver adds nodes at the end of the cache and calls of constructors at the end of
those made before, and takes nothing away. The calls are those of the nodes that it adds, in order;
only where the run fails one more may come last, of a constructor that gave no node. A run that
succeeds leaves under way what was under way when it began.

This holds of runs in any configuration, also of one that was never loaded.

Results:
1. `Adds.trans`: what two runs add, one after the other.
2. `onlyAdds_resolveKey`: constructing a node adds it last, after all that its parameters add.
3. `onlyAdds_resolveNode`: whatever is resolved, nothing else is changed.
-/

namespace ConfigBinding

/-- The call that constructed a node, if its configurable has a constructor. -/
def Node.call? (registry : Registry) (node : Node) : Option Call :=
  match registry.lookup node.key.symbol with
  | .ok owner => if owner.constructor?.isSome then some ⟨node.key, node.params⟩ else none
  | .error _ => none

theorem Node.call?_eq_some {registry : Registry} {node : Node} {call : Call}
    (made : node.call? registry = some call) : call = ⟨node.key, node.params⟩ := by
  unfold Node.call? at made
  split at made
  · split at made
    · exact (Option.some.inj made).symm
    · cases made
  · cases made

/-- From `before` to `after` the nodes `added` were constructed. The last call, if it is `failed`,
gave no node. -/
structure Adds (registry : Registry) (before after : Progress) (added : List Node)
    (failed : Option Call) : Prop where
  cache_eq : after.cache = before.cache ++ added
  calls_eq : after.calls = before.calls ++ added.filterMap (Node.call? registry) ++ failed.toList
  /-- What was under way is not constructed meanwhile. -/
  fresh : ∀ node ∈ added, node.key ∉ before.pending
  failed_fresh : ∀ call ∈ failed, call.key ∉ after.cache.map Node.key

namespace Adds

variable {registry : Registry} {before middle after : Progress} {early late : List Node}
  {failed : Option Call}

theorem refl (registry : Registry) (progress : Progress) :
    Adds registry progress progress [] none where
  cache_eq := by rw [List.append_nil]
  calls_eq := by simp
  fresh := nofun
  failed_fresh := nofun

theorem trans (first : Adds registry before middle early none)
    (samePending : middle.pending = before.pending)
    (second : Adds registry middle after late failed) :
    Adds registry before after (early ++ late) failed where
  cache_eq := by rw [second.cache_eq, first.cache_eq, List.append_assoc]
  calls_eq := by
    rw [second.calls_eq, first.calls_eq]
    simp [List.filterMap_append]
  fresh node member := by
    rcases List.mem_append.mp member with inEarly | inLate
    · exact first.fresh node inEarly
    · rw [← samePending]
      exact second.fresh node inLate
  failed_fresh := second.failed_fresh

/-- What is added while a node is constructed is added. -/
theorem of_enterNode {key : NodeKey} {added : List Node}
    (adds : Adds registry (before.enterNode key) after added failed) :
    Adds registry before after added failed :=
  { adds with
    fresh := fun node member inPending =>
      adds.fresh node member (List.mem_append_left _ inPending) }

/-- A node is not constructed while it is being constructed. -/
theorem absent_of_enterNode {key : NodeKey} {added : List Node}
    (adds : Adds registry (before.enterNode key) after added failed)
    (absent : key ∉ before.cache.map Node.key) : key ∉ after.cache.map Node.key := by
  rw [adds.cache_eq, List.map_append]
  intro member
  rcases List.mem_append.mp member with old | new
  · exact absent old
  · obtain ⟨node, inAdded, rfl⟩ := List.mem_map.mp new
    exact adds.fresh node inAdded (List.mem_append_right _ (List.mem_singleton_self _))

end Adds

/-- The run that starts at `before` adds nodes and calls and changes nothing else. -/
def Added {α : Type} (registry : Registry) (before : Progress) :
    Except ConfigError α × Progress → Prop
  | (.ok _, after) => ∃ added, Adds registry before after added none ∧
      after.pending = before.pending ∧ after.macros = before.macros
  | (.error _, after) => ∃ added failed, Adds registry before after added failed

theorem Added.exists_adds {α : Type} {registry : Registry} {before : Progress}
    {run : Except ConfigError α × Progress} (added : Added registry before run) :
    ∃ nodes failed, Adds registry before run.2 nodes failed := by
  obtain ⟨result, after⟩ := run
  cases result with
  | error error => exact added
  | ok a =>
    obtain ⟨nodes, adds, _⟩ := added
    exact ⟨nodes, none, adds⟩

/-- Each run of the attempt adds nodes and calls and changes nothing else. -/
def OnlyAdds {α : Type} (registry : Registry) (act : Attempt Progress α) : Prop :=
  ∀ before, Added registry before (act before)

section Steps

variable {registry : Registry} {α β : Type}

theorem onlyAdds_pure (a : α) : OnlyAdds registry (pure a : Attempt Progress α) :=
  fun before => ⟨[], .refl registry before, rfl, rfl⟩

theorem onlyAdds_fail (error : ConfigError) :
    OnlyAdds registry (Attempt.fail error : Attempt Progress α) :=
  fun before => ⟨[], none, .refl registry before⟩

theorem onlyAdds_ofExcept (result : Except ConfigError α) :
    OnlyAdds registry (Attempt.ofExcept result : Attempt Progress α) := by
  cases result with
  | ok a => exact onlyAdds_pure a
  | error error => exact onlyAdds_fail error

theorem onlyAdds_bind {first : Attempt Progress α} {next : α → Attempt Progress β}
    (firstAdds : OnlyAdds registry first) (nextAdds : ∀ a, OnlyAdds registry (next a)) :
    OnlyAdds registry (first >>= next) := by
  intro before
  have head := firstAdds before
  cases run : first before with
  | mk result middle =>
    rw [run] at head
    cases result with
    | error error =>
      rw [Attempt.bind_error run]
      exact head
    | ok a =>
      obtain ⟨early, first, samePending, sameMacros⟩ := head
      rw [Attempt.bind_ok run]
      have tail := nextAdds a middle
      cases ended : next a middle with
      | mk result after =>
        rw [ended] at tail
        cases result with
        | error error =>
          obtain ⟨late, failed, second⟩ := tail
          exact ⟨early ++ late, failed, first.trans samePending second⟩
        | ok b =>
          obtain ⟨late, second, pendingEq, macrosEq⟩ := tail
          exact ⟨early ++ late, first.trans samePending second, pendingEq.trans samePending,
            macrosEq.trans sameMacros⟩

/-- Macros are put back when their expansion ends. -/
theorem onlyAdds_within {act : Attempt Progress α} (name : String)
    (inner : OnlyAdds registry act) :
    OnlyAdds registry
      (Attempt.within (Progress.enterMacro name) Progress.leaveMacro act) := by
  intro before
  have inside := inner (before.enterMacro name)
  unfold Attempt.within
  cases run : act (before.enterMacro name) with
  | mk result after =>
    rw [run] at inside
    dsimp only
    cases result with
    | error error =>
      obtain ⟨added, failed, adds⟩ := inside
      exact ⟨added, failed, { adds with }⟩
    | ok a =>
      obtain ⟨added, adds, samePending, macrosEq⟩ := inside
      refine ⟨added, { adds with }, samePending, ?_⟩
      show after.macros.dropLast = before.macros
      rw [macrosEq]
      exact List.dropLast_concat

theorem composes_onlyAdds (registry : Registry) :
    Expr.Composes fun (α : Type) (act : Attempt Progress α) => OnlyAdds registry act :=
  ⟨onlyAdds_pure, onlyAdds_bind⟩

end Steps

/-! ## Macros and nodes -/

section Nodes

variable {config : Config}

theorem onlyAdds_expandMacro {evaluate : Expr → Attempt Progress Value}
    (inner : ∀ e, OnlyAdds config.registry (evaluate e)) (absent : ConfigError)
    (name : DottedName) (span : Span) :
    OnlyAdds config.registry (Resolver.expandMacro config evaluate absent name span) := by
  unfold Resolver.expandMacro
  dsimp only
  split
  · exact onlyAdds_fail absent
  · intro before
    rw [Attempt.get_bind]
    split
    · exact onlyAdds_fail _ before
    · cases config.log.macro? name.toText with
      | some definition => exact onlyAdds_within _ (inner definition.value) before
      | none => exact onlyAdds_fail _ before

variable {evaluate : ConfigError → Expr → Attempt Progress Value}

theorem onlyAdds_parameterValue (inner : ∀ absent e, OnlyAdds config.registry (evaluate absent e))
    (key : NodeKey) (param : Param) :
    OnlyAdds config.registry (Resolver.parameterValue config evaluate key param) := by
  unfold Resolver.parameterValue
  split
  · exact inner _ _
  · split
    · exact onlyAdds_pure _
    · exact onlyAdds_fail _

theorem onlyAdds_parameterValues
    (inner : ∀ absent e, OnlyAdds config.registry (evaluate absent e)) (key : NodeKey)
    (params : List Param) :
    OnlyAdds config.registry (Resolver.parameterValues config evaluate key params) := by
  induction params with
  | nil => exact onlyAdds_pure _
  | cons param params ih =>
    refine onlyAdds_bind (onlyAdds_parameterValue inner key param) fun value => ?_
    split
    · exact onlyAdds_bind ih fun _ => onlyAdds_pure _
    · exact onlyAdds_fail _

theorem Resolver.resolveKey_unknown {key : NodeKey} {progress : Progress} {error : ConfigError}
    (absent : Node.find? key progress.cache = none) (fresh : key ∉ progress.pending)
    (unknown : config.registry.lookup key.symbol = .error error) :
    resolveKey config evaluate key progress = (.error error, progress) := by
  unfold resolveKey
  rw [Attempt.get_bind, absent]
  simp only [if_neg fresh, unknown]
  rfl

/-- The last step of a construction calls the constructor, if there is one, and adds the node if
that gives one. -/
theorem added_construct {before middle : Progress} {key : NodeKey} {registration : Registration}
    {added : List Node} {params : Params}
    (found : config.registry.lookup key.symbol = .ok registration)
    (adds : Adds config.registry (before.enterNode key) middle added none)
    (samePending : middle.pending = before.pending ++ [key])
    (sameMacros : middle.macros = before.macros)
    (absent : key ∉ before.cache.map Node.key) (unentered : key ∉ before.pending) :
    Added config.registry before (Resolver.construct registration key params middle) := by
  have earlier := adds.of_enterNode
  have missing := adds.absent_of_enterNode absent
  cases built : Resolver.build registration key params with
  | error error =>
    rw [Resolver.construct_error built]
    -- the call stands last and belongs to no node
    refine ⟨added, if registration.constructor?.isSome then some ⟨key, params⟩ else none, ?_⟩
    refine ⟨by rw [Progress.withCall_cache, earlier.cache_eq], ?_, earlier.fresh, ?_⟩
    · unfold Progress.withCall
      split <;> simp [earlier.calls_eq]
    · intro call member
      rw [Progress.withCall_cache]
      split at member
      · cases member
        exact missing
      · cases member
  | ok node =>
    obtain ⟨product, _, rfl⟩ := Resolver.build_ok_iff.mp built
    rw [Resolver.construct_ok built]
    refine ⟨added ++ [⟨key, params, product⟩], ⟨?_, ?_, ?_, nofun⟩, ?_, ?_⟩
    · show (middle.withCall registration key params).cache ++ _ = _
      rw [Progress.withCall_cache, earlier.cache_eq, List.append_assoc]
    · show (middle.withCall registration key params).calls = _
      unfold Progress.withCall
      rw [List.filterMap_append]
      split <;> rename_i constructs <;> simp [earlier.calls_eq, Node.call?, found, constructs]
    · intro node member
      rcases List.mem_append.mp member with old | new
      · exact earlier.fresh node old
      · rw [List.mem_singleton.mp new]
        exact unentered
    · show (middle.withCall registration key params).pending.dropLast = before.pending
      rw [Progress.withCall_pending, samePending, List.dropLast_concat]
    · show (middle.withCall registration key params).macros = before.macros
      rw [Progress.withCall_macros, sameMacros]

theorem onlyAdds_resolveKey (inner : ∀ absent e, OnlyAdds config.registry (evaluate absent e))
    (key : NodeKey) : OnlyAdds config.registry (Resolver.resolveKey config evaluate key) := by
  intro before
  cases found : Node.find? key before.cache with
  | some node =>
    rw [Resolver.resolveKey_cached found]
    exact onlyAdds_pure node before
  | none =>
    by_cases constructing : key ∈ before.pending
    · rw [Resolver.resolveKey_pending found constructing]
      exact onlyAdds_fail _ before
    · cases named : config.registry.lookup key.symbol with
      | error error =>
        rw [Resolver.resolveKey_unknown found constructing named]
        exact onlyAdds_fail error before
      | ok registration =>
        rw [Resolver.resolveKey_enter found constructing named]
        have absent : key ∉ before.cache.map Node.key := by simpa [Node.find?] using found
        have values := onlyAdds_parameterValues inner key registration.params
          (before.enterNode key)
        cases run : Resolver.parameterValues config evaluate key registration.params
            (before.enterNode key) with
        | mk result middle =>
          rw [run] at values
          cases result with
          | error error =>
            obtain ⟨added, failed, adds⟩ := values
            rw [Attempt.bind_error run]
            exact ⟨added, failed, adds.of_enterNode⟩
          | ok given =>
            obtain ⟨added, adds, samePending, sameMacros⟩ := values
            rw [Attempt.bind_ok run]
            exact added_construct named adds samePending sameMacros absent constructing

/-- The induction is on how deep macros and references may go. -/
theorem onlyAdds_evaluate (config : Config) (exhausted : ConfigError) (bound : Nat)
    (absent : ConfigError) (e : Expr) :
    OnlyAdds config.registry (Resolver.evaluate config exhausted bound absent e) := by
  induction bound generalizing absent e with
  | zero => exact onlyAdds_fail exhausted
  | succ bound ih =>
    refine (composes_onlyAdds config.registry).evaluate
      (onlyAdds_expandMacro (ih absent) absent) fun target _ span => ?_
    refine onlyAdds_bind (onlyAdds_ofExcept _) fun key => ?_
    exact onlyAdds_bind (onlyAdds_resolveKey ih key) fun _ => onlyAdds_pure _

theorem onlyAdds_resolveNode (config : Config) (key : NodeKey) :
    OnlyAdds config.registry (Resolver.resolveNode config key) :=
  onlyAdds_resolveKey (onlyAdds_evaluate config _ _) key

end Nodes

end ConfigBinding
