import ConfigBinding.Proofs.Uncached

/-!
# Cycles

An evaluation reports a cycle where it comes upon something that is under way. That depends on what
is evaluated, and what is evaluated depends on it. Conversely nothing from which a cycle can be
reached means anything.

Results:
1. `error_of_visits`: an error of an expression is one of its macros or references.
2. `Uncached.meets_of_resolve`: a cycle is reported where a stage that the evaluation reaches
   mentions something under way.
3. `Uncached.cycle_of_resolve`: a cycle is reported only where there is one.
4. `Uncached.no_cycle_of_resolve`: where there is one, nothing is constructed.
-/

namespace ConfigBinding

/-! ## Where errors come from -/

section Visits

variable {onMacro : DottedName → Span → Except ConfigError Value}
  {onReference : Reference → Span → Except ConfigError Value}

/-- The error is that of a macro or of a reference somewhere in the expression. -/
def Stems (onMacro : DottedName → Span → Except ConfigError Value)
    (onReference : Reference → Span → Except ConfigError Value) (error : ConfigError) (e : Expr) :
    Prop :=
  (∃ name span, e.Covers (.macroRef name span) ∧ onMacro name span = .error error) ∨
    ∃ target span, e.Covers (.reference target span) ∧ onReference target span = .error error

theorem Stems.of_covers {error : ConfigError} {e part : Expr}
    (stems : Stems onMacro onReference error part) (covers : e.Covers part) :
    Stems onMacro onReference error e := by
  rcases stems with ⟨name, span, inner, failed⟩ | ⟨target, span, inner, failed⟩
  · exact .inl ⟨name, span, covers.trans inner, failed⟩
  · exact .inr ⟨target, span, covers.trans inner, failed⟩

mutual

theorem error_of_visits {e : Expr} {error : ConfigError}
    (run : e.evaluate onMacro onReference = .error error) : Stems onMacro onReference error e := by
  cases e with
  | literal literal span => cases run
  | list items span =>
    rcases error_of_bind run with failed | ⟨values, _, finished⟩
    · obtain ⟨item, member, stems⟩ := error_of_visits_items failed
      exact stems.of_covers (Expr.covers_item_of_list span member)
    · cases finished
  | tuple items span =>
    rcases error_of_bind run with failed | ⟨values, _, finished⟩
    · obtain ⟨item, member, stems⟩ := error_of_visits_items failed
      exact stems.of_covers (Expr.covers_item_of_tuple span member)
    · cases finished
  | map entries span =>
    rcases error_of_bind run with failed | ⟨pairs, _, finished⟩
    · obtain ⟨entry, member, stems⟩ := error_of_visits_entries failed
      exact stems.of_covers (Expr.covers_value_of_map span member)
    · cases finished
  | macroRef name span => exact .inl ⟨name, span, .refl _, run⟩
  | reference target span => exact .inr ⟨target, span, .refl _, run⟩

theorem error_of_visits_items {items : List Expr} {error : ConfigError}
    (run : Expr.evaluateItems onMacro onReference items = .error error) :
    ∃ item ∈ items, Stems onMacro onReference error item := by
  cases items with
  | nil => cases run
  | cons item items =>
    rcases error_of_bind run with failed | ⟨value, _, rest⟩
    · exact ⟨item, List.mem_cons_self, error_of_visits failed⟩
    · rcases error_of_bind rest with failed | ⟨values, _, finished⟩
      · obtain ⟨later, member, stems⟩ := error_of_visits_items failed
        exact ⟨later, List.mem_cons_of_mem _ member, stems⟩
      · cases finished

theorem error_of_visits_entries {entries : List (String × Expr)} {error : ConfigError}
    (run : Expr.evaluateEntries onMacro onReference entries = .error error) :
    ∃ entry ∈ entries, Stems onMacro onReference error entry.2 := by
  cases entries with
  | nil => cases run
  | cons entry entries =>
    rcases error_of_bind run with failed | ⟨value, _, rest⟩
    · exact ⟨entry, List.mem_cons_self, error_of_visits failed⟩
    · rcases error_of_bind rest with failed | ⟨values, _, finished⟩
      · obtain ⟨later, member, stems⟩ := error_of_visits_entries failed
        exact ⟨later, List.mem_cons_of_mem _ member, stems⟩
      · cases finished

end

end Visits

variable {config : Config}

/-- Parameters have no values because the value that governs one of them has none, because one of
them lacks a value, or because one of them has a value of another kind. -/
theorem error_of_parameterValues (replayed : config.Replayed)
    {evaluate : ConfigError → Expr → Except ConfigError Value} {key : NodeKey}
    {params : List Param} {error : ConfigError}
    (run : Resolver.parameterValues config evaluate key params = .error error) :
    (∃ param ∈ params, ∃ e, config.governing? key param.name = some e ∧
      evaluate (Resolver.missing key param.name) e = .error error) ∨
    ∃ param ∈ params, error = Resolver.missing key param.name ∨
      ∃ found, error =
        .parameterType key.scope key.symbol.toText param.name param.kind found := by
  induction params with
  | nil => cases run
  | cons param params ih =>
    rcases error_of_bind run with failed | ⟨value, _, rest⟩
    · rw [Resolver.parameterValue_eq replayed] at failed
      cases governed : config.governing? key param.name with
      | some e =>
        rw [governed] at failed
        exact .inl ⟨param, List.mem_cons_self, e, governed, failed⟩
      | none =>
        rw [governed] at failed
        cases default : param.default with
        | some value =>
          rw [default] at failed
          cases failed
        | none =>
          rw [default] at failed
          cases failed
          exact .inr ⟨param, List.mem_cons_self, .inl rfl⟩
    · split at rest
      · rcases error_of_bind rest with failed | ⟨values, _, finished⟩
        · rcases ih failed with ⟨later, member, inner⟩ | ⟨later, member, own⟩
          · exact .inl ⟨later, List.mem_cons_of_mem _ member, inner⟩
          · exact .inr ⟨later, List.mem_cons_of_mem _ member, own⟩
        · cases finished
      · cases rest
        exact .inr ⟨param, List.mem_cons_self, .inr ⟨_, rfl⟩⟩

/-- A symbol is looked up in vain because it is the name of nothing or of several things. -/
theorem error_of_lookup {registry : Registry} {symbol : DottedName} {error : ConfigError}
    (failed : registry.lookup symbol = .error error) :
    error = .unknownConfigurable symbol.toText none ∨
      ∃ candidates, error = .ambiguousConfigurable symbol.toText candidates none := by
  unfold Registry.lookup at failed
  split at failed
  · cases failed
  · split at failed
    · cases failed
      exact .inl rfl
    · cases failed
    · cases failed
      exact .inr ⟨_, rfl⟩

theorem not_cyclic_of_lookup {registry : Registry} {symbol : DottedName} {error : ConfigError}
    (failed : registry.lookup symbol = .error error) (chain : List String) :
    error ≠ .cyclicReference chain ∧ ∀ place, error.at? place ≠ .cyclicReference chain := by
  rcases error_of_lookup failed with rfl | ⟨candidates, rfl⟩ <;> exact ⟨nofun, nofun⟩

theorem not_cyclic_of_targetKey {target : Reference} {span : Span} {error : ConfigError}
    (failed : Resolver.targetKey config target span = .error error) (chain : List String) :
    error ≠ .cyclicReference chain := by
  unfold Resolver.targetKey at failed
  split at failed
  · cases failed
  · rename_i unknown
    cases failed
    exact (not_cyclic_of_lookup unknown chain).2 _

/-! ## Stages of an evaluation -/

/-- Where an evaluation is: what is under way, outermost first, and the expression that is evaluated
for its sake. -/
structure Stage where
  pending : List NodeKey
  macros : List String
  e : Expr

namespace Stage

def underWay (stage : Stage) : List Item := Item.underWay stage.pending stage.macros

/-- Where the construction of a node starts. -/
def root (key : NodeKey) : Stage := ⟨[], [], .reference ⟨key.scope, key.symbol, true⟩ (.zero 0)⟩

/-- From one stage the evaluation goes on to another: the expression mentions a macro that is not
being expanded, which has a definition, or a node that is not being constructed, one of whose
parameters is governed by a value. -/
inductive Enters (config : Config) : Stage → Stage → Prop
  | definition {pending : List NodeKey} {macros : List String} {e body : Expr} {name : String} :
      config.Mentions e (.macroDef name) → name ∉ macros → config.definition? name = some body →
      Enters config ⟨pending, macros, e⟩ ⟨pending, macros ++ [name], body⟩
  | param {pending : List NodeKey} {macros : List String} {e body : Expr} {key : NodeKey}
      {owner : Registration} {param : Param} :
      config.Mentions e (.node key) → key ∉ pending → config.owner? key = some owner →
      param ∈ owner.params → config.governing? key param.name = some body →
      Enters config ⟨pending, macros, e⟩ ⟨pending ++ [key], macros, body⟩

/-- The expression mentions a macro or a node that is under way, and this is what is reported. -/
inductive Meets (config : Config) : Stage → List String → Prop
  | macroDef {pending : List NodeKey} {macros : List String} {e : Expr} {name : String} :
      config.Mentions e (.macroDef name) → name ∈ macros →
      Meets config ⟨pending, macros, e⟩ ((Resolver.cycle name macros).map ("%" ++ ·))
  | node {pending : List NodeKey} {macros : List String} {e : Expr} {key : NodeKey} :
      config.Mentions e (.node key) → key ∈ pending →
      Meets config ⟨pending, macros, e⟩ ((Resolver.cycle key pending).map NodeKey.toText)

/-- The evaluation can get from one stage to the other. -/
abbrev Reaches (config : Config) : Stage → Stage → Prop :=
  Relation.ReflTransGen (Enters config)

variable {stage next : Stage} {chain : List String}

/-- What is entered is under way afterwards, and all that was under way before depends on it. -/
theorem Enters.awaits (enters : Enters config stage next)
    (awaits : config.Awaits stage.underWay stage.e) : config.Awaits next.underWay next.e := by
  cases enters with
  | definition mentions _ defined => exact (awaits _ mentions).enter_definition defined
  | param mentions _ owned member governed =>
    exact (awaits _ mentions).enter_node owned member governed

theorem Reaches.awaits (reaches : Reaches config stage next)
    (awaits : config.Awaits stage.underWay stage.e) : config.Awaits next.underWay next.e := by
  induction reaches with
  | refl => exact awaits
  | tail _ enters ih => exact enters.awaits ih

/-- What is met although it is under way depends on itself. -/
theorem Meets.cycle (meets : Meets config stage chain)
    (awaits : config.Awaits stage.underWay stage.e) :
    ∃ item, config.Mentions stage.e item ∧ config.CycleFrom item := by
  cases meets with
  | macroDef mentions expanding =>
    exact ⟨_, mentions, .of_cycle (awaits _ mentions _ (by simpa [underWay] using expanding))⟩
  | node mentions constructing =>
    exact ⟨_, mentions, .of_cycle (awaits _ mentions _ (by simpa [underWay] using constructing))⟩

/-- A cycle that is met further down is one to which the expression leads. -/
theorem Enters.cycle (enters : Enters config stage next)
    (cycle : ∃ item, config.Mentions next.e item ∧ config.CycleFrom item) :
    ∃ item, config.Mentions stage.e item ∧ config.CycleFrom item := by
  obtain ⟨item, inside, cycle⟩ := cycle
  cases enters with
  | definition mentions _ defined =>
    exact ⟨_, mentions, .of_depends (.definition defined inside) cycle⟩
  | param mentions _ owned member governed =>
    exact ⟨_, mentions, .of_depends (.param owned member governed inside) cycle⟩

theorem Reaches.cycle (reaches : Reaches config stage next)
    (cycle : ∃ item, config.Mentions next.e item ∧ config.CycleFrom item) :
    ∃ item, config.Mentions stage.e item ∧ config.CycleFrom item := by
  induction reaches with
  | refl => exact cycle
  | tail _ enters ih => exact ih (enters.cycle cycle)

end Stage

namespace Uncached

/-- A macro comes upon a cycle if it is being expanded, or if its value does. -/
theorem cyclic_of_expandMacro (replayed : config.Replayed)
    {evaluate : List String → Expr → Except ConfigError Value} {macros : List String}
    {absent : ConfigError} {name : DottedName} {span : Span} {chain : List String}
    (run : expandMacro config evaluate macros absent name span = .error (.cyclicReference chain))
    (different : absent ≠ .cyclicReference chain) :
    name ≠ Expr.requiredMacro ∧
      (name.toText ∈ macros ∧ (Resolver.cycle name.toText macros).map ("%" ++ ·) = chain ∨
        name.toText ∉ macros ∧ ∃ e, config.definition? name.toText = some e ∧
          evaluate (macros ++ [name.toText]) e = .error (.cyclicReference chain)) := by
  unfold expandMacro at run
  dsimp only at run
  split at run
  · cases run
    exact absurd rfl different
  · rename_i ordinary
    refine ⟨ordinary, ?_⟩
    split at run
    · rename_i expanding
      cases run
      exact .inl ⟨expanding, rfl⟩
    · rename_i fresh
      split at run
      · rename_i definition found
        refine .inr ⟨fresh, definition.value, ?_, run⟩
        rw [← replayed.macro?_value, found]
        rfl
      · cases run

/-- A node comes upon a cycle if it is being constructed, or if the value of a parameter does. -/
theorem cyclic_of_node (replayed : config.Replayed)
    {evaluate : List NodeKey → ConfigError → Expr → Except ConfigError Value}
    {pending : List NodeKey} {key : NodeKey} {owner : Registration} {chain : List String}
    (owned : config.owner? key = some owner)
    (run : node config evaluate pending key = .error (.cyclicReference chain)) :
    key ∈ pending ∧ (Resolver.cycle key pending).map NodeKey.toText = chain ∨
      key ∉ pending ∧ ∃ param ∈ owner.params, ∃ e,
        config.governing? key param.name = some e ∧
          evaluate (pending ++ [key]) (Resolver.missing key param.name) e =
            .error (.cyclicReference chain) := by
  by_cases constructing : key ∈ pending
  · unfold node at run
    rw [if_pos constructing] at run
    cases run
    exact .inl ⟨constructing, rfl⟩
  · refine .inr ⟨constructing, ?_⟩
    rw [node_enter owned constructing] at run
    rcases error_of_bind run with failed | ⟨values, _, finished⟩
    · rcases error_of_parameterValues replayed failed with inner | ⟨_, _, missing | ⟨_, kind⟩⟩
      · exact inner
      · cases missing
      · cases kind
    · unfold Resolver.build at finished
      split at finished
      · cases finished
      · cases finished

/-- A cycle is reported at a stage that the evaluation reaches, for what is met there. The induction
is on the bound, which suffices because each stage uses up one of the nodes and macros of the
log. -/
theorem meets_of_evaluate (replayed : config.Replayed) {exhausted : ConfigError} {bound : Nat}
    {pending : List NodeKey} {macros : List String} {absent : ConfigError} {e : Expr}
    {chain : List String}
    (run : evaluate config exhausted bound pending macros absent e =
      .error (.cyclicReference chain))
    (different : absent ≠ .cyclicReference chain) (known : config.Known e)
    (enough : config.room (Item.underWay pending macros) < bound) :
    ∃ last, Stage.Reaches config ⟨pending, macros, e⟩ last ∧ last.Meets config chain := by
  induction bound generalizing pending macros absent e with
  | zero => omega
  | succ bound ih =>
    rcases error_of_visits run with ⟨name, span, covers, failed⟩ | ⟨target, span, covers, failed⟩
    · obtain ⟨ordinary, met⟩ := cyclic_of_expandMacro replayed failed different
      have mentioned : config.Mentions e (.macroDef name.toText) :=
        (Config.mentions_self_macroRef span ordinary).of_covers covers
      rcases met with ⟨expanding, rfl⟩ | ⟨fresh, inner, defined, failed⟩
      · exact ⟨_, .refl, .macroDef mentioned expanding⟩
      · have room := replayed.room_enter_definition defined pending fresh
        obtain ⟨last, reaches, meets⟩ := ih failed different
          (Config.known_of_definition? defined) (by omega)
        exact ⟨last, .head (.definition mentioned fresh defined) reaches, meets⟩
    · rcases error_of_bind failed with failed | ⟨key, named, failed⟩
      · exact absurd rfl (not_cyclic_of_targetKey failed chain)
      · rw [Config.targetKey_ok_iff] at named
        have mentioned : config.Mentions e (.node key) :=
          (Config.mentions_self_reference span named).of_covers covers
        rcases error_of_bind failed with failed | ⟨made, _, finished⟩
        · obtain ⟨owner, owned⟩ := Config.registered_of_target? named
          rcases cyclic_of_node replayed owned failed with
            ⟨constructing, rfl⟩ | ⟨fresh, param, member, inner, governed, failed⟩
          · exact ⟨_, .refl, .node mentioned constructing⟩
          · have room := (known.of_covers covers).room_enter_node named macros fresh
            obtain ⟨last, reaches, meets⟩ := ih failed nofun
              (Config.known_of_governing? governed) (by omega)
            exact ⟨last, .head (.param mentioned fresh owned member governed) reaches, meets⟩
        · cases finished

theorem target?_root {key : NodeKey} {owner : Registration}
    (owned : config.owner? key = some owner) :
    config.target? ⟨key.scope, key.symbol, true⟩ = some key := by
  rw [Config.target?, Registry.canonical?_of_get? owned]
  rfl

/-- A cycle that a resolution reports is met at a stage that can be reached from the root. -/
theorem meets_of_resolve (replayed : config.Replayed) {exhausted : ConfigError} {bound : Nat}
    {scope : Scope} {symbol : DottedName} {chain : List String}
    (run : resolve config exhausted bound scope symbol = .error (.cyclicReference chain))
    (enough : Resolver.depthLimit config.log ≤ bound) :
    ∃ registration, config.registry.lookup symbol = .ok registration ∧
      config.target? ⟨scope, registration.name, true⟩ = some ⟨scope, registration.name⟩ ∧
      ∃ last, Stage.Reaches config (.root ⟨scope, registration.name⟩) last ∧
        last.Meets config chain := by
  rcases error_of_bind run with failed | ⟨registration, found, run⟩
  · exact absurd rfl (not_cyclic_of_lookup failed chain).1
  · obtain ⟨owner, owned⟩ := Config.registered_of_lookup scope found
    have named := target?_root owned
    refine ⟨registration, found, named, ?_⟩
    rcases cyclic_of_node replayed owned run with
      ⟨member, _⟩ | ⟨fresh, param, member, e, governed, failed⟩
    · cases member
    · obtain ⟨last, reaches, meets⟩ := meets_of_evaluate replayed failed nofun
        (Config.known_of_governing? governed)
        (Nat.lt_of_lt_of_le (Config.room_lt_depthLimit _) enough)
      have mentions := Config.mentions_self_reference (.zero 0) named
      exact ⟨last, .head (.param mentions fresh owned member governed) reaches, meets⟩

/-- A resolution reports a cycle only if one can be reached from its root. -/
theorem cycle_of_resolve (replayed : config.Replayed) {exhausted : ConfigError} {bound : Nat}
    {scope : Scope} {symbol : DottedName} {chain : List String}
    (run : resolve config exhausted bound scope symbol = .error (.cyclicReference chain))
    (enough : Resolver.depthLimit config.log ≤ bound) :
    ∃ registration, config.registry.lookup symbol = .ok registration ∧
      config.CycleFrom (.node ⟨scope, registration.name⟩) := by
  obtain ⟨registration, found, named, last, reaches, meets⟩ := meets_of_resolve replayed run enough
  have nothing : config.Awaits (Stage.root ⟨scope, registration.name⟩).underWay
      (Stage.root ⟨scope, registration.name⟩).e := nofun
  obtain ⟨item, mentions, cycle⟩ := reaches.cycle (meets.cycle (reaches.awaits nothing))
  obtain ⟨key, rfl, sameTarget⟩ := Config.mentions_reference mentions
  obtain rfl := Option.some.inj (named.symm.trans sameTarget)
  exact ⟨registration, found, cycle⟩

/-- A resolution from whose root a cycle can be reached gives no node. -/
theorem no_cycle_of_resolve (replayed : config.Replayed) {exhausted : ConfigError} {bound : Nat}
    {scope : Scope} {symbol : DottedName} {registration : Registration} {made : Node}
    (found : config.registry.lookup symbol = .ok registration)
    (run : resolve config exhausted bound scope symbol = .ok made) :
    ¬ config.CycleFrom (.node ⟨scope, registration.name⟩) := by
  obtain ⟨keyed, built⟩ := built_of_resolve replayed found run
  rw [← keyed]
  exact built.grounded.no_cycle

end Uncached

end ConfigBinding
