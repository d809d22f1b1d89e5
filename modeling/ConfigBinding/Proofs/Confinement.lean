import ConfigBinding.Proofs.AgreeingConfigs

/-!
# What a binding changes

A binding in a scope counts for one configurable, in this scope and in those below it. A log that
goes on with one more binding says the same as before about all other nodes, so a node that leads to
none that the binding counts for is resolved as before.

Results:
1. `Log.governing?_withBinding`: the values that govern a parameter before and after a binding.
2. `Resolver.binding_confined`: a binding changes nothing outside of its own subtree.
-/

namespace ConfigBinding

/-! ## Logs with one more binding -/

section

variable {registry : Registry} {log next : Log} {event : BindingEvent}

theorem Log.bindings_withBinding (goesOn : next.events = log.events ++ [.binding event]) :
    next.bindings = log.bindings ++ [event] := by
  unfold Log.bindings
  rw [goesOn, List.filterMap_append]
  rfl

theorem Log.definition?_withBinding (goesOn : next.events = log.events ++ [.binding event])
    (name : String) : next.definition? name = log.definition? name := by
  unfold Log.definition? Log.macroHistory
  rw [goesOn, List.filterMap_append]
  simp

/-- The last binding of a parameter is another one only if the new one is of this parameter. -/
theorem Log.bindingsOf_withBinding (goesOn : next.events = log.events ++ [.binding event])
    {key : BindingKey} (apart : ¬ event.Binds registry key) :
    next.bindingsOf registry key = log.bindingsOf registry key := by
  unfold Log.bindingsOf
  rw [bindings_withBinding goesOn, List.filter_append]
  simp [apart]

theorem findSome?_congr {α β : Type} {f g : α → Option β} {as : List α}
    (same : ∀ a ∈ as, f a = g a) : as.findSome? f = as.findSome? g := by
  induction as with
  | nil => rfl
  | cons a as ih =>
    obtain ⟨first, others⟩ := List.forall_mem_cons.mp same
    rw [List.findSome?_cons, List.findSome?_cons, first, ih others]

/-- A parameter is governed as before, unless it is one of the configurable that the new binding is
for, in a scope at or below that of the binding. -/
theorem Log.governing?_withBinding (goesOn : next.events = log.events ++ [.binding event])
    {key : BindingKey} (apart : registry.canonical? event.key.symbol = some key.symbol →
      ¬ event.key.scope.segments <+: key.scope.segments) :
    next.governing? registry key = log.governing? registry key := by
  refine findSome?_congr fun scope above => ?_
  rw [bindingsOf_withBinding goesOn]
  rintro ⟨sameScope, _, named⟩
  exact apart named (sameScope ▸ Scope.mem_ancestors.mp above)

end

/-! ## Nodes to which the binding does not reach -/

namespace Config

variable {config further : Config} {event : BindingEvent}

/-- A node on which something depends is mentioned in the log. -/
theorem Depends.mem_items {item : Item} {key : NodeKey}
    (depends : config.Depends item (.node key)) :
    .node key ∈ config.items := by
  have mentioned {e : Expr} (known : config.Known e) (mentions : config.Mentions e (.node key)) :
      .node key ∈ config.items := by
    obtain ⟨target, member, named⟩ := mentions
    refine List.mem_append_left _ (List.mem_filterMap.mpr ⟨target, known member, ?_⟩)
    rw [named]
    rfl
  cases depends with
  | param _ _ governed mentions => exact mentioned (known_of_governing? governed) mentions
  | definition defined mentions => exact mentioned (known_of_definition? defined) mentions

/-- A log with one more binding agrees about all to which the root leads, if none of it is a node
for which the binding counts. -/
theorem agree_withBinding (sameRegistry : further.registry = config.registry)
    (goesOn : further.log.events = config.log.events ++ [.binding event]) {root : Item}
    (outside : ∀ key, Relation.ReflTransGen config.Depends root (.node key) →
      config.registry.canonical? event.key.symbol = some key.symbol →
      ¬ event.key.scope.segments <+: key.scope.segments) :
    Agree (Relation.ReflTransGen config.Depends root) config further where
  registry := sameRegistry
  governing := by
    intro key param reached
    unfold governing?
    rw [sameRegistry, Log.governing?_withBinding goesOn (outside key reached)]
  definition := by
    intro name _
    unfold definition?
    rw [Log.definition?_withBinding goesOn]
  closed := fun _ _ => .tail

end Config

namespace Resolver

/-- A binding that is added to a log counts in its own subtree only: a node that was resolved
before, and that leads to no node of the configurable which the binding is for in a scope at or
below that of the binding, is resolved as the same node afterwards. It leads to all nodes that are
mentioned in the values that govern its parameters, also by way of macros, other nodes, and entries
of mappings that a later entry with the same key replaces. -/
theorem binding_confined {config further : Config} (replayed : config.Replayed)
    (accepted : further.Replayed) (sameRegistry : further.registry = config.registry)
    {event : BindingEvent}
    (goesOn : further.log.events = config.log.events ++ [.binding event])
    (calls otherCalls : List (Scope × DottedName)) {scope : Scope} {symbol : DottedName}
    {node : Node} (run : ((after config calls).resolve config scope symbol).result = .ok node)
    (outside : ∀ key, Relation.ReflTransGen config.Depends (.node node.key) (.node key) →
      config.registry.canonical? event.key.symbol = some key.symbol →
      ¬ event.key.scope.segments <+: key.scope.segments) :
    ((after further otherCalls).resolve further scope symbol).result = .ok node :=
  (Config.agree_withBinding sameRegistry goesOn outside).result replayed accepted .refl run

end Resolver

/-! ## An example -/

/-- The configuration whose log has one more binding. -/
def Config.withBinding (config : Config) (event : BindingEvent) : Config where
  registry := config.registry
  log := { config.log with events := config.log.events ++ [.binding event] }
  table := (Log.replay { config.log with events := config.log.events ++ [.binding event] }
    config.registry).toOption.getD .empty

theorem Config.Replayed.withBinding {config : Config} {event : BindingEvent}
    (replayed : config.Replayed)
    (accepted : ((config.withBinding event).log.replay config.registry).isOk = true) :
    (config.withBinding event).Replayed where
  replay := by
    change Log.replay (config.withBinding event).log config.registry =
      .ok ((config.withBinding event).log.replay config.registry |>.toOption.getD .empty)
    cases ended : (config.withBinding event).log.replay config.registry with
    | error error =>
      rw [ended] at accepted
      cases accepted
    | ok table => rfl
  indexed := by
    change config.log.macroIndex =
      Log.macroIndexFrom 0 (config.log.events ++ [.binding event]) []
    rw [Log.macroIndexFrom_append, ← replayed.indexed]
    rfl

/-- The scope of a node. -/
def Item.scope? : Item → Option Scope
  | .node key => some key.scope
  | .macroDef _ => none

namespace Resolver

/-- The size of a leaf in a scope beside the one in which the sample has a leaf. -/
def sampleEvent : BindingEvent where
  key := ⟨⟨["a", "c"]⟩, ⟨["Leaf"]⟩, "size"⟩
  value := .literal (.int 7) (.zero 0)
  origin := ⟨"other", 1, 1⟩

theorem binding_confined_sample :
    ∃ node, ((after .sample []).resolve .sample ⟨[]⟩ ⟨["Box"]⟩).result = .ok node ∧
      (∀ key, Relation.ReflTransGen Config.sample.Depends (.node node.key) (.node key) →
        Config.sample.registry.canonical? sampleEvent.key.symbol = some key.symbol →
        ¬ sampleEvent.key.scope.segments <+: key.scope.segments) ∧
      ((after (Config.sample.withBinding sampleEvent) []).resolve
        (Config.sample.withBinding sampleEvent) ⟨[]⟩ ⟨["Box"]⟩).result = .ok node := by
  have found : ((after .sample []).resolve .sample ⟨[]⟩ ⟨["Box"]⟩).result.map Node.key =
      .ok ⟨⟨[]⟩, ⟨["m", "Box"]⟩⟩ := by decide +kernel
  have accepted : ((Config.sample.withBinding sampleEvent).log.replay
      Config.sample.registry).isOk = true := by decide +kernel
  have apart : ∀ scope ∈ (⟨[]⟩ : Scope) :: Config.sample.items.filterMap Item.scope?,
      ¬ sampleEvent.key.scope.segments <+: scope.segments := by decide +kernel
  cases run : ((after .sample []).resolve .sample ⟨[]⟩ ⟨["Box"]⟩).result with
  | error error =>
    rw [run] at found
    cases found
  | ok node =>
    rw [run] at found
    have keyed : node.key = ⟨⟨[]⟩, ⟨["m", "Box"]⟩⟩ := Except.ok.inj found
    have outside : ∀ key,
        Relation.ReflTransGen Config.sample.Depends (.node node.key) (.node key) →
        Config.sample.registry.canonical? sampleEvent.key.symbol = some key.symbol →
        ¬ sampleEvent.key.scope.segments <+: key.scope.segments := by
      intro key reached _
      -- what the box leads to is the box itself or stands in the log
      rcases reached.cases_tail with same | ⟨item, _, depends⟩
      · cases same
        rw [keyed]
        exact apart _ List.mem_cons_self
      · exact apart _ (List.mem_cons_of_mem _
          (List.mem_filterMap.mpr ⟨_, depends.mem_items, rfl⟩))
    have replayed := Config.loaded_sample.replayed
    exact ⟨node, rfl, outside,
      binding_confined replayed (replayed.withBinding accepted) rfl rfl [] [] run outside⟩

end Resolver

end ConfigBinding
