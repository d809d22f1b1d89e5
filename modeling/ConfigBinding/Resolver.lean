import ConfigBinding.Attempt
import ConfigBinding.Evaluation
import ConfigBinding.Graph
import ConfigBinding.Loading

/-!
# Resolving a configuration

A configurable is constructed by evaluating its parameters, which constructs what they refer to.
Each pair of a scope and a registered symbol is constructed at most once. A configurable that is
needed for its own construction is an error, and so is a macro that is needed for its own value.

A parameter takes the binding in the innermost scope around the configurable, else its default.

Results:
1. `build_ok_iff`: what a node is constructed of.
2. `resolveKey_cached`, `resolveKey_pending`, `resolveKey_enter`: a node is found in the cache, is
   needed for its own construction, or is constructed.
3. `rollBack_eq`: a call that fails is taken back if it only added to the cache.
4. `resolve_of_ok`, `resolve_of_error`: how a call can end.
5. `resolve_cached`: what is constructed already is found again without a constructor being called.
-/

namespace ConfigBinding

/-- A call of a constructor. -/
structure Call where
  key : NodeKey
  params : Params

/-- What a resolution has done so far and what is under way. -/
structure Progress where
  /-- All nodes that are constructed, in order. -/
  cache : List Node
  /-- The keys of the nodes that are being constructed, outermost first. -/
  pending : List NodeKey
  /-- The macros that are being expanded, outermost first. -/
  macros : List String
  calls : List Call

namespace Progress

/-- The node of the key is being constructed from now on. -/
def enterNode (key : NodeKey) (progress : Progress) : Progress :=
  { progress with pending := progress.pending ++ [key] }

/-- The innermost node is constructed. -/
def finish (node : Node) (progress : Progress) : Progress :=
  { progress with
    pending := progress.pending.dropLast
    cache := progress.cache ++ [node] }

/-- The macro is being expanded from now on. -/
def enterMacro (name : String) (progress : Progress) : Progress :=
  { progress with macros := progress.macros ++ [name] }

/-- The innermost macro is expanded. -/
def leaveMacro (progress : Progress) : Progress :=
  { progress with macros := progress.macros.dropLast }

/-- Notes that a constructor is called, if there is one. -/
def withCall (progress : Progress) (registration : Registration) (key : NodeKey)
    (params : Params) : Progress :=
  if registration.constructor?.isSome then
    { progress with calls := progress.calls ++ [⟨key, params⟩] }
  else progress

@[simp]
theorem withCall_cache (progress : Progress) (registration : Registration) (key : NodeKey)
    (params : Params) : (progress.withCall registration key params).cache = progress.cache := by
  unfold withCall
  split <;> rfl

@[simp]
theorem withCall_pending (progress : Progress) (registration : Registration)
    (key : NodeKey) (params : Params) :
    (progress.withCall registration key params).pending = progress.pending := by
  unfold withCall
  split <;> rfl

@[simp]
theorem withCall_macros (progress : Progress) (registration : Registration)
    (key : NodeKey) (params : Params) :
    (progress.withCall registration key params).macros = progress.macros := by
  unfold withCall
  split <;> rfl

end Progress

namespace Resolver

/-! ## Parameters -/

section

variable {m : Type → Type} [Monad m] [MonadExceptOf ConfigError m]

/-- The error of a parameter without a value. -/
def missing (key : NodeKey) (param : String) : ConfigError :=
  .missingParameter key.scope key.symbol.toText param

/-- The value of a parameter. `evaluate` is given the error that stands for a missing value. -/
def parameterValue (config : Config) (evaluate : ConfigError → Expr → m Value) (key : NodeKey)
    (param : Param) : m Value :=
  match config.table.getScoped? ⟨key.scope, key.symbol, param.name⟩ with
  | some event => evaluate (missing key param.name) event.value
  | none =>
    match param.default with
    | some value => pure value
    | none => throw (missing key param.name)

/-- The values of parameters, each of the kind that is declared. -/
def parameterValues (config : Config) (evaluate : ConfigError → Expr → m Value) (key : NodeKey) :
    List Param → m (List (String × Value))
  | [] => pure []
  | param :: params => do
    let value ← parameterValue config evaluate key param
    if param.kind.accepts value then
      let values ← parameterValues config evaluate key params
      return (param.name, value) :: values
    else
      throw (.parameterType key.scope key.symbol.toText param.name param.kind value.shape)

end

/-! ## Construction -/

/-- The names from the first `name` on, and `name` again at the end. -/
def cycle {κ : Type} [DecidableEq κ] (name : κ) (names : List κ) : List κ :=
  names.dropWhile (· != name) ++ [name]

/-- The node with the given parameters, if its constructor succeeds. -/
def build (registration : Registration) (key : NodeKey) (params : Params) :
    Except ConfigError Node :=
  match registration.product params with
  | .error message => .error (.constructorFailed key.scope key.symbol.toText message)
  | .ok product => .ok ⟨key, params, product⟩

theorem build_ok_iff {registration : Registration} {key : NodeKey} {params : Params} {node : Node} :
    build registration key params = .ok node ↔
      ∃ product, registration.product params = .ok product ∧ node = ⟨key, params, product⟩ := by
  unfold build
  cases registration.product params with
  | error message => simp
  | ok product => simp [eq_comm]

theorem key_of_build {registration : Registration} {key : NodeKey} {params : Params} {node : Node}
    (built : build registration key params = .ok node) : node.key = key := by
  obtain ⟨product, _, rfl⟩ := build_ok_iff.mp built
  rfl

/-- Finishes the innermost node that is being constructed. Its parameters are known. -/
def construct (registration : Registration) (key : NodeKey) (params : Params) :
    Attempt Progress Node := do
  Attempt.modify fun progress => progress.withCall registration key params
  let node ← Attempt.ofExcept (build registration key params)
  Attempt.modify (Progress.finish node)
  return node

theorem construct_ok {registration : Registration} {key : NodeKey} {params : Params} {node : Node}
    (built : build registration key params = .ok node) (progress : Progress) :
    construct registration key params progress =
      (.ok node, (progress.withCall registration key params).finish node) := by
  unfold construct
  rw [built]
  rfl

theorem construct_error {registration : Registration} {key : NodeKey} {params : Params}
    {error : ConfigError} (failed : build registration key params = .error error)
    (progress : Progress) :
    construct registration key params progress =
      (.error error, progress.withCall registration key params) := by
  unfold construct
  rw [failed]
  rfl

/-- The node with the given key, constructed if need be. -/
def resolveKey (config : Config) (evaluate : ConfigError → Expr → Attempt Progress Value)
    (key : NodeKey) : Attempt Progress Node := do
  let progress ← Attempt.get
  match Node.find? key progress.cache with
  | some node => return node
  | none =>
    if key ∈ progress.pending then
      Attempt.fail (.cyclicReference ((cycle key progress.pending).map NodeKey.toText))
    else
      let registration ← Attempt.ofExcept (config.registry.lookup key.symbol)
      Attempt.modify (Progress.enterNode key)
      let values ← parameterValues config evaluate key registration.params
      construct registration key ⟨values⟩

section

variable {config : Config} {evaluate : ConfigError → Expr → Attempt Progress Value} {key : NodeKey}
  {progress : Progress}

theorem resolveKey_cached {node : Node} (found : Node.find? key progress.cache = some node) :
    resolveKey config evaluate key progress = (.ok node, progress) := by
  unfold resolveKey
  rw [Attempt.get_bind, found]
  rfl

theorem resolveKey_pending (absent : Node.find? key progress.cache = none)
    (member : key ∈ progress.pending) :
    resolveKey config evaluate key progress =
      (.error (.cyclicReference ((cycle key progress.pending).map NodeKey.toText)), progress) := by
  unfold resolveKey
  rw [Attempt.get_bind, absent]
  simp only [if_pos member]
  rfl

theorem resolveKey_enter {registration : Registration}
    (absent : Node.find? key progress.cache = none) (fresh : key ∉ progress.pending)
    (found : config.registry.lookup key.symbol = .ok registration) :
    resolveKey config evaluate key progress =
      (parameterValues config evaluate key registration.params >>= fun values =>
        construct registration key ⟨values⟩) (progress.enterNode key) := by
  unfold resolveKey
  rw [Attempt.get_bind, absent]
  simp only [if_neg fresh, found]
  rfl

end

/-- The value of a macro: the value of its last definition. -/
def expandMacro (config : Config) (evaluate : Expr → Attempt Progress Value)
    (absent : ConfigError) (name : DottedName) (span : Span) : Attempt Progress Value :=
  let text := name.toText
  if name = Expr.requiredMacro then Attempt.fail absent
  else do
    let progress ← Attempt.get
    if text ∈ progress.macros then
      Attempt.fail (.cyclicReference ((cycle text progress.macros).map ("%" ++ ·)))
    else match config.log.macro? text with
      | some definition =>
        Attempt.within (Progress.enterMacro text) Progress.leaveMacro (evaluate definition.value)
      | none => Attempt.fail (.undefinedMacro text (config.log.location span))

/-- The key of the node that a reference stands for. -/
def targetKey (config : Config) (target : Reference) (span : Span) : Except ConfigError NodeKey :=
  match config.registry.lookup target.symbol with
  | .ok registration => .ok ⟨target.scope, registration.name⟩
  | .error error => .error (error.at? (config.log.location span))

/-- The value of an expression. Following a macro or a reference makes one of the lists of what is
under way longer, so `bound` bounds how deep that can go; where it is met, the run fails with
`exhausted`. -/
def evaluate (config : Config) (exhausted : ConfigError) :
    (bound : Nat) → ConfigError → Expr → Attempt Progress Value
  | 0, _, _ => Attempt.fail exhausted
  | bound + 1, absent, e =>
    e.evaluate
      (expandMacro config (evaluate config exhausted bound absent) absent)
      (fun target span => do
        let key ← Attempt.ofExcept (targetKey config target span)
        let node ← resolveKey config (evaluate config exhausted bound) key
        return node.toValue)

/-- How deep macros and references can be followed: each macro and each target of a reference is
under way at most once. -/
def depthLimit (log : Log) : Nat :=
  (log.values.flatMap Expr.references).length + log.macroIndex.length + 1

/-- The node with the given key, where macros and references are followed no deeper than `bound`. -/
def resolveWithin (config : Config) (bound : Nat) (exhausted : ConfigError) (key : NodeKey) :
    Attempt Progress Node :=
  resolveKey config (evaluate config exhausted bound) key

/-- The node with the given key in a configuration. -/
def resolveNode (config : Config) (key : NodeKey) : Attempt Progress Node :=
  resolveWithin config (depthLimit config.log) (.cyclicReference []) key

end Resolver

/-! ## Calls -/

/-- What has been resolved so far: all nodes in order of construction, and the keys that were asked
for. Between calls nothing is under way. -/
structure Resolver where
  cache : List Node
  /-- The keys of the nodes that are being constructed. -/
  pending : List NodeKey
  /-- The macros that are being expanded. -/
  macros : List String
  roots : List NodeKey

/-- How a call ends: with a node or an error, and with the state of the resolver afterwards. The
calls of constructors are known also if it fails. -/
structure Resolution where
  result : Except ConfigError Node
  calls : List Call
  resolver : Resolver

namespace Resolver

def start : Resolver := ⟨[], [], [], []⟩

def cached? (resolver : Resolver) (key : NodeKey) : Option Node :=
  Node.find? key resolver.cache

/-- Where a call starts. -/
def progress (resolver : Resolver) : Progress :=
  ⟨resolver.cache, resolver.pending, resolver.macros, []⟩

/-- The resolver after a call for `key` that gave a node. -/
def accept (resolver : Resolver) (key : NodeKey) (progress : Progress) : Resolver where
  cache := progress.cache
  pending := progress.pending
  macros := progress.macros
  roots := if key ∈ resolver.roots then resolver.roots else resolver.roots ++ [key]

/-- The resolver after a call that failed: the nodes that the call constructed are taken back. -/
def rollBack (resolver : Resolver) (progress : Progress) : Resolver where
  cache := progress.cache.take resolver.cache.length
  pending := []
  macros := []
  roots := resolver.roots

/-- Nodes at the end of the cache are taken back as a whole. -/
theorem rollBack_eq {resolver : Resolver} {progress : Progress} {added : List Node}
    (pending_eq : resolver.pending = []) (macros_eq : resolver.macros = [])
    (cache_eq : progress.cache = resolver.cache ++ added) :
    resolver.rollBack progress = resolver := by
  have taken : progress.cache.take resolver.cache.length = resolver.cache := by
    rw [cache_eq]
    exact List.take_left
  unfold rollBack
  rw [taken, ← pending_eq, ← macros_eq]

/-- Resolves a symbol in a scope, in any spelling by which it is found. -/
def resolve (config : Config) (scope : Scope) (symbol : DottedName) (resolver : Resolver) :
    Resolution :=
  match config.registry.lookup symbol with
  | .error error => ⟨.error error, [], resolver⟩
  | .ok registration =>
    let key : NodeKey := ⟨scope, registration.name⟩
    match resolveNode config key resolver.progress with
    | (.ok node, progress) => ⟨.ok node, progress.calls, resolver.accept key progress⟩
    | (.error error, progress) => ⟨.error error, progress.calls, resolver.rollBack progress⟩

/-- All that was constructed. -/
def graph (resolver : Resolver) : Graph := ⟨resolver.cache, resolver.roots⟩

/-- Resolves symbols in order, up to the first that fails. Also gives the calls of constructors. -/
def resolveAll (config : Config) :
    List (Scope × DottedName) → Resolver → Except ConfigError Resolver × List Call
  | [], resolver => (.ok resolver, [])
  | (scope, symbol) :: roots, resolver =>
    let resolution := resolver.resolve config scope symbol
    match resolution.result with
    | .error error => (.error error, resolution.calls)
    | .ok _ =>
      let (result, calls) := resolveAll config roots resolution.resolver
      (result, resolution.calls ++ calls)

/-- The resolver after calls, each of which may fail. -/
def after (config : Config) (calls : List (Scope × DottedName)) : Resolver :=
  calls.foldl (fun resolver call => (resolver.resolve config call.1 call.2).resolver) start

section

variable {config : Config} {scope : Scope} {symbol : DottedName} {resolver : Resolver}

theorem resolve_of_ok {node : Node}
    (done : (resolver.resolve config scope symbol).result = .ok node) :
    ∃ registration progress, config.registry.lookup symbol = .ok registration ∧
      resolveNode config ⟨scope, registration.name⟩ resolver.progress = (.ok node, progress) ∧
      resolver.resolve config scope symbol =
        ⟨.ok node, progress.calls, resolver.accept ⟨scope, registration.name⟩ progress⟩ := by
  unfold resolve at done ⊢
  cases found : config.registry.lookup symbol with
  | error error =>
    rw [found] at done
    cases done
  | ok registration =>
    rw [found] at done
    dsimp only at done ⊢
    cases run : resolveNode config ⟨scope, registration.name⟩ resolver.progress with
    | mk result progress =>
      rw [run] at done
      cases result with
      | error error => cases done
      | ok made =>
        cases done
        exact ⟨registration, progress, rfl, run, rfl⟩

theorem resolve_of_error {error : ConfigError}
    (failed : (resolver.resolve config scope symbol).result = .error error) :
    resolver.resolve config scope symbol = ⟨.error error, [], resolver⟩ ∨
    ∃ registration progress, config.registry.lookup symbol = .ok registration ∧
      resolveNode config ⟨scope, registration.name⟩ resolver.progress = (.error error, progress) ∧
      resolver.resolve config scope symbol =
        ⟨.error error, progress.calls, resolver.rollBack progress⟩ := by
  unfold resolve at failed ⊢
  cases found : config.registry.lookup symbol with
  | error early =>
    rw [found] at failed
    cases failed
    exact .inl rfl
  | ok registration =>
    rw [found] at failed
    dsimp only at failed ⊢
    cases run : resolveNode config ⟨scope, registration.name⟩ resolver.progress with
    | mk result progress =>
      rw [run] at failed
      cases result with
      | ok made => cases failed
      | error late =>
        cases failed
        exact .inr ⟨registration, progress, rfl, run, rfl⟩

end

/-- The call only notes its key as one that was asked for. -/
theorem resolve_cached {config : Config} {scope : Scope} {symbol : DottedName} {resolver : Resolver}
    {registration : Registration} {node : Node}
    (found : config.registry.lookup symbol = .ok registration)
    (cached : resolver.cached? ⟨scope, registration.name⟩ = some node) :
    resolver.resolve config scope symbol =
      ⟨.ok node, [], resolver.accept ⟨scope, registration.name⟩ resolver.progress⟩ := by
  have hit : resolveNode config ⟨scope, registration.name⟩ resolver.progress =
      (.ok node, resolver.progress) := resolveKey_cached cached
  rw [resolve, found]
  simp only [hit]
  rfl

end Resolver

/-- Loads a configuration and resolves the given symbols. Gives the graph or the first error, and
the calls of constructors. -/
def Graph.resolve (registry : Registry) (load : SourceLoader) (files bindings : List String)
    (roots : List (Scope × DottedName)) : Except ConfigError Graph × List Call :=
  match Config.load registry load files bindings with
  | .error error => (.error error, [])
  | .ok config =>
    let (result, calls) := Resolver.start.resolveAll config roots
    (result.map Resolver.graph, calls)

end ConfigBinding
