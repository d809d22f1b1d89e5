import ConfigBinding.Proofs.Tracking
import ConfigBinding.Proofs.Uncached

/-!
# Evaluation with a cache

The evaluator with a cache follows the one without: it gives the same value or the same error. A
node that is in the cache already would be constructed again without an error, since nothing that it
depends on is under way.

Results:
1. `Tracks.expandMacro`, `Tracks.resolveKey`: a macro or a node is followed if its values are.
2. `tracks_evaluate`, `tracks_resolveWithin`: evaluation with a cache follows that without.
-/

namespace ConfigBinding

variable {config : Config} {pending : List NodeKey} {macros : List String}

namespace Tracks

/-! ## Macros -/

/-- While a macro is expanded its name is the innermost one. -/
theorem within {α : Type} {made : α → List Node} {first second : Attempt Progress α}
    {expected : Except ConfigError α} {name : String}
    (inner : Tracks config pending (macros ++ [name]) [] made first second expected) :
    Tracks config pending macros [] made
      (Attempt.within (Progress.enterMacro name) Progress.leaveMacro first)
      (Attempt.within (Progress.enterMacro name) Progress.leaveMacro second) expected := by
  intro progress steady
  have entered : Steady config pending (macros ++ [name]) [] (progress.enterMacro name) :=
    { steady with macros_eq := congrArg (· ++ [name]) steady.macros_eq }
  obtain ⟨same, outcome⟩ := inner _ entered
  unfold Attempt.within
  dsimp only
  rw [same]
  refine ⟨rfl, outcome.result, outcome.grows, outcome.constructed, ?_⟩
  intro a finished
  have left := outcome.steady a finished
  refine { left with macros_eq := ?_ }
  show (first _).2.macros.dropLast = macros
  rw [left.macros_eq, List.dropLast_concat]

theorem expandMacro {evaluate evaluate' : Expr → Attempt Progress Value}
    {expected : List String → Expr → Except ConfigError Value} {absent : ConfigError}
    {name : DottedName} {span : Span}
    (inner : ∀ definition, name ≠ Expr.requiredMacro → name.toText ∉ macros →
      config.log.macro? name.toText = some definition →
      Tracks config pending (macros ++ [name.toText]) [] config.referenced
        (evaluate definition.value) (evaluate' definition.value)
        (expected (macros ++ [name.toText]) definition.value)) :
    Tracks config pending macros [] config.referenced
      (Resolver.expandMacro config evaluate absent name span)
      (Resolver.expandMacro config evaluate' absent name span)
      (Uncached.expandMacro config expected macros absent name span) := by
  unfold Resolver.expandMacro Uncached.expandMacro
  dsimp only
  by_cases required : name = Expr.requiredMacro
  · simp only [if_pos required]
    exact .fail absent
  · simp only [if_neg required]
    intro progress steady
    rw [Attempt.get_bind, Attempt.get_bind, steady.macros_eq]
    by_cases expanding : name.toText ∈ macros
    · simp only [if_pos expanding, true_and]
      exact (Tracks.fail _ progress steady).2
    · simp only [if_neg expanding]
      cases found : config.log.macro? name.toText with
      | none => exact Tracks.fail _ progress steady
      | some definition => exact within (inner definition required expanding found) progress steady

/-! ## Nodes -/

section Nodes

variable {evaluate evaluate' : ConfigError → Expr → Attempt Progress Value} {key : NodeKey}

/-- What a default holds need not be in the cache. -/
theorem parameterValue (replayed : config.Replayed)
    {expected : ConfigError → Expr → Except ConfigError Value} {param : Param}
    (inner : ∀ e, config.governing? key param.name = some e →
      Tracks config pending macros [] config.referenced
        (evaluate (Resolver.missing key param.name) e)
        (evaluate' (Resolver.missing key param.name) e)
        (expected (Resolver.missing key param.name) e)) :
    Tracks config pending macros []
      (fun value =>
        if (config.governing? key param.name).isSome then config.referenced value else [])
      (Resolver.parameterValue config evaluate key param)
      (Resolver.parameterValue config evaluate' key param)
      (Resolver.parameterValue config expected key param) := by
  simp only [Resolver.parameterValue_eq replayed]
  cases governed : config.governing? key param.name with
  | some e => exact inner e governed
  | none =>
    cases default : param.default with
    | some value => exact .pure value (List.nil_subset _)
    | none => exact .fail _

theorem parameterValues (replayed : config.Replayed)
    {expected : ConfigError → Expr → Except ConfigError Value} {params : List Param}
    (inner : ∀ param ∈ params, ∀ e, config.governing? key param.name = some e →
      Tracks config pending macros [] config.referenced
        (evaluate (Resolver.missing key param.name) e)
        (evaluate' (Resolver.missing key param.name) e)
        (expected (Resolver.missing key param.name) e)) :
    Tracks config pending macros [] (config.referencedInParams key)
      (Resolver.parameterValues config evaluate key params)
      (Resolver.parameterValues config evaluate' key params)
      (Resolver.parameterValues config expected key params) := by
  induction params with
  | nil => exact .pure _ (List.nil_subset _)
  | cons param params ih =>
    refine .bind (parameterValue replayed (inner param List.mem_cons_self)) fun value _ => ?_
    by_cases accepted : param.kind.accepts value = true
    · simp only [if_pos accepted]
      have rest := ih fun later member => inner later (List.mem_cons_of_mem _ member)
      refine .bind (rest.frame _) fun values _ => ?_
      exact .pure _ (List.Subset.refl _)
    · simp only [if_neg accepted]
      exact .fail _

/-- The last step of a construction puts the node into the cache, in which all that its parameters
refer to is already. -/
theorem construct {registration : Registration} {values : List (String × Value)}
    {middle : Progress}
    (steady : Steady config (pending ++ [key]) macros (config.referencedInParams key values) middle)
    (unentered : key ∉ pending) (fresh : key ∉ middle.cache.map Node.key)
    (meant : ∀ node, Resolver.build registration key ⟨values⟩ = .ok node → Built config node) :
    Outcome config pending macros [] config.familyOf (Resolver.build registration key ⟨values⟩)
      middle (Resolver.construct registration key ⟨values⟩ middle) := by
  have called := middle.withCall_cache registration key ⟨values⟩
  have steady := steady.withCall registration key ⟨values⟩
  cases built : Resolver.build registration key ⟨values⟩ with
  | error error =>
    rw [Resolver.construct_error built]
    exact ⟨rfl, .of_cache_eq called, steady.constructed, nofun⟩
  | ok node =>
    have means := meant node built
    obtain ⟨product, _, rfl⟩ := Resolver.build_ok_iff.mp built
    rw [← called] at fresh
    have constructed := steady.constructed.snoc fresh means steady.given_subset
    rw [Resolver.construct_ok built]
    refine ⟨rfl, .trans (.of_cache_eq called) ⟨_, rfl, ?_⟩, constructed, ?_⟩
    · intro node member
      rw [List.mem_singleton.mp member]
      exact unentered
    · rintro _ ⟨⟩
      refine ⟨?_, steady.macros_eq, constructed, ?_⟩
      · show (middle.withCall registration key ⟨values⟩).pending.dropLast = pending
        rw [steady.pending_eq, List.dropLast_concat]
      · refine List.cons_subset.mpr ⟨List.mem_append_right _ (List.mem_singleton_self _), ?_⟩
        exact fun part inside => List.mem_append_left _ (steady.given_subset inside)

theorem resolveKey (replayed : config.Replayed)
    {expected : List NodeKey → ConfigError → Expr → Except ConfigError Value}
    {owner : Registration} (owned : config.owner? key = some owner)
    (meant : ∀ node, node.key = key →
      (Uncached.node config expected pending key = .ok node ↔ Built config node))
    (inner : key ∉ pending → ∀ param ∈ owner.params, ∀ e,
      config.governing? key param.name = some e →
      Tracks config (pending ++ [key]) macros [] config.referenced
        (evaluate (Resolver.missing key param.name) e)
        (evaluate' (Resolver.missing key param.name) e)
        (expected (pending ++ [key]) (Resolver.missing key param.name) e)) :
    Tracks config pending macros [] config.familyOf (Resolver.resolveKey config evaluate key)
      (Resolver.resolveKey config evaluate' key) (Uncached.node config expected pending key) := by
  intro progress steady
  cases found : Node.find? key progress.cache with
  | some node =>
    -- what is in the cache would be constructed again as it is
    obtain ⟨rfl, member⟩ := Node.find?_eq_some found
    rw [Resolver.resolveKey_cached found, Resolver.resolveKey_cached found,
      (meant node rfl).mpr (steady.constructed.built member)]
    refine ⟨rfl, rfl, .of_cache_eq rfl, steady.constructed, ?_⟩
    rintro _ ⟨⟩
    have stored := List.cons_subset.mpr ⟨member, steady.constructed.parts member⟩
    exact { steady with given_subset := stored }
  | none =>
    by_cases constructing : key ∈ pending
    -- both evaluators have the same keys under way, and so report the same cycle
    · have member : key ∈ progress.pending := steady.pending_eq ▸ constructing
      unfold Uncached.node
      rw [if_pos constructing, Resolver.resolveKey_pending found member,
        Resolver.resolveKey_pending found member, steady.pending_eq]
      exact ⟨rfl, rfl, .of_cache_eq rfl, steady.constructed, nofun⟩
    · have fresh : key ∉ progress.pending := steady.pending_eq ▸ constructing
      have lookup := Config.lookup_of_owner? owned
      rw [Resolver.resolveKey_enter found fresh lookup,
        Resolver.resolveKey_enter found fresh lookup]
      have entered : Steady config (pending ++ [key]) macros [] (progress.enterNode key) :=
        { steady with pending_eq := congrArg (· ++ [key]) steady.pending_eq }
      obtain ⟨same, outcome⟩ := parameterValues replayed (inner constructing) _ entered
      rw [Uncached.node_enter owned constructing] at meant ⊢
      cases run : Resolver.parameterValues config evaluate key owner.params
          (progress.enterNode key) with
      | mk result middle =>
        rw [run] at same outcome
        -- the nodes that the parameters added are none of those under way, in particular not `key`
        have grows : Grows pending progress middle := outcome.grows.leave
        cases result with
        | error error =>
          rw [Attempt.bind_error run, Attempt.bind_error same, ← outcome.result]
          exact ⟨rfl, rfl, grows, outcome.constructed, nofun⟩
        | ok values =>
          have given := outcome.result.symm
          rw [Attempt.bind_ok run, Attempt.bind_ok same, ok_bind given]
          rw [ok_bind given] at meant
          refine ⟨rfl, ?_⟩
          have finished := construct (outcome.steady values given) constructing
            (outcome.grows.fresh_key (Node.find?_eq_none.mp found)) fun node built =>
              (meant node (Resolver.key_of_build built)).mp built
          exact { finished with grows := grows.trans finished.grows }

end Nodes

end Tracks

/-! ## Whole runs -/

open Item (underWay)

section Bounds

variable {exhausted exhausted' plainExhausted : ConfigError} {bound bound' plainBound : Nat}

/-- A node is followed if expressions are for which there is less than `limit` room. -/
theorem tracks_node (replayed : config.Replayed) {limit : Nat} (within : limit ≤ plainBound)
    (evaluates : ∀ {pending : List NodeKey} {absent : ConfigError} {e : Expr},
      config.Known e → config.Awaits (underWay pending macros) e →
      config.room (underWay pending macros) < limit →
      Tracks config pending macros [] config.referenced
        (Resolver.evaluate config exhausted bound absent e)
        (Resolver.evaluate config exhausted' bound' absent e)
        (Uncached.evaluate config plainExhausted plainBound pending macros absent e))
    {key : NodeKey} (registered : config.Registered key)
    (needed : config.Needed (underWay pending macros) (.node key))
    (enough : key ∉ pending → config.room (underWay (pending ++ [key]) macros) < limit) :
    Tracks config pending macros [] config.familyOf
      (Resolver.resolveKey config (Resolver.evaluate config exhausted bound) key)
      (Resolver.resolveKey config (Resolver.evaluate config exhausted' bound') key)
      (Uncached.node config
        (fun pending => Uncached.evaluate config plainExhausted plainBound pending macros) pending
        key) := by
  obtain ⟨owner, owned⟩ := id registered
  refine .resolveKey replayed owned ?_ ?_
  · exact Uncached.node_ok_iff replayed registered needed fun fresh =>
      Nat.lt_of_lt_of_le (enough fresh) within
  · intro fresh param member e governed
    exact evaluates (Config.known_of_governing? governed)
      (needed.enter_node owned member governed) (enough fresh)

/-- Evaluation with a cache follows that without. The induction is on the room that is left, of
which each macro and each node that is entered takes away some. -/
theorem tracks_evaluate (replayed : config.Replayed) {limit : Nat} (first : limit ≤ bound)
    (second : limit ≤ bound') (third : limit ≤ plainBound) {absent : ConfigError} {e : Expr}
    (known : config.Known e) (awaits : config.Awaits (underWay pending macros) e)
    (enough : config.room (underWay pending macros) < limit) :
    Tracks config pending macros [] config.referenced
      (Resolver.evaluate config exhausted bound absent e)
      (Resolver.evaluate config exhausted' bound' absent e)
      (Uncached.evaluate config plainExhausted plainBound pending macros absent e) := by
  induction limit generalizing bound bound' plainBound pending macros absent e with
  | zero => omega
  | succ limit ih =>
    obtain ⟨bound, rfl, first'⟩ := Config.exists_succ_of_lt first
    obtain ⟨bound', rfl, second'⟩ := Config.exists_succ_of_lt second
    obtain ⟨plainBound, rfl, third'⟩ := Config.exists_succ_of_lt third
    refine Tracks.evaluate ⟨?_, ?_⟩
    · intro name span covers
      refine .expandMacro fun definition ordinary fresh found => ?_
      have defined : config.definition? name.toText = some definition.value := by
        rw [← replayed.macro?_value, found]
        rfl
      have mentioned : config.Mentions e (.macroDef name.toText) :=
        (Config.mentions_self_macroRef span ordinary).of_covers covers
      have room := replayed.room_enter_definition defined pending fresh
      exact ih first' second' third' (Config.known_of_definition? defined)
        ((awaits _ mentioned).enter_definition defined) (by omega)
    · intro target span covers
      refine .bind (.ofExcept fun key _ => List.nil_subset []) fun key named => ?_
      rw [Config.targetKey_ok_iff] at named
      have mentioned : config.Mentions e (.node key) :=
        (Config.mentions_self_reference span named).of_covers covers
      have enough (fresh : key ∉ pending) :
          config.room (underWay (pending ++ [key]) macros) < limit := by
        have room := (known.of_covers covers).room_enter_node named macros fresh
        omega
      have constructs := tracks_node replayed third' (ih first' second' third')
        (Config.registered_of_target? named) (awaits _ mentioned) enough
      refine .bind (constructs.frame _) fun node _ => ?_
      exact .pure _ (List.Subset.refl _)

/-- A resolution with a cache follows that without, however deep it may go. -/
theorem tracks_resolveWithin (replayed : config.Replayed)
    (first : Resolver.depthLimit config.log ≤ bound)
    (second : Resolver.depthLimit config.log ≤ bound')
    (third : Resolver.depthLimit config.log ≤ plainBound) {key : NodeKey}
    (registered : config.Registered key) :
    Tracks config [] [] [] config.familyOf (Resolver.resolveWithin config bound exhausted key)
      (Resolver.resolveWithin config bound' exhausted' key)
      (Uncached.node config
        (fun pending => Uncached.evaluate config plainExhausted plainBound pending []) [] key) :=
  tracks_node replayed third (tracks_evaluate replayed first second third) registered nofun
    fun _ => Config.room_lt_depthLimit _

end Bounds

end ConfigBinding
