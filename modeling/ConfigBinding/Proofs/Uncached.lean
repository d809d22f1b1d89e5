import ConfigBinding.Proofs.UnderWay

/-!
# Evaluation without a cache

The evaluator that remembers nothing: a configurable is constructed anew each time that it is
referred to, in order to hold it against the one with a cache. What is under way are arguments.

Results:
1. `Uncached.denotes_of_evaluate`, `Uncached.built_of_node`: what it gives is what the expression
   means.
2. `Denotes.evaluate`, `Built.node`: it gives what the expression means, in any state from which the
   expression does not lead back to what is under way.
3. `Uncached.node_ok_iff`: it gives the nodes that are what the configuration says, and no others.
-/

namespace ConfigBinding

namespace Uncached

/-- The value of a macro. `macros` are the macros that are being expanded, outermost first. -/
def expandMacro (config : Config) (evaluate : List String → Expr → Except ConfigError Value)
    (macros : List String) (absent : ConfigError) (name : DottedName) (span : Span) :
    Except ConfigError Value :=
  let text := name.toText
  if name = Expr.requiredMacro then .error absent
  else if text ∈ macros then
    .error (.cyclicReference ((Resolver.cycle text macros).map ("%" ++ ·)))
  else match config.log.macro? text with
    | some definition => evaluate (macros ++ [text]) definition.value
    | none => .error (.undefinedMacro text (config.log.location span))

/-- The node with the given key, constructed anew. `pending` are the keys of the nodes that are
being constructed, outermost first. -/
def node (config : Config)
    (evaluate : List NodeKey → ConfigError → Expr → Except ConfigError Value)
    (pending : List NodeKey) (key : NodeKey) : Except ConfigError Node :=
  if key ∈ pending then
    .error (.cyclicReference ((Resolver.cycle key pending).map NodeKey.toText))
  else do
    let registration ← config.registry.lookup key.symbol
    let values ← Resolver.parameterValues config (evaluate (pending ++ [key])) key
      registration.params
    Resolver.build registration key ⟨values⟩

/-- The value of an expression. Where macros and references go deeper than `bound`, the run fails
with `exhausted`. -/
def evaluate (config : Config) (exhausted : ConfigError) :
    (bound : Nat) → List NodeKey → List String → ConfigError → Expr → Except ConfigError Value
  | 0, _, _, _, _ => .error exhausted
  | bound + 1, pending, macros, absent, e =>
    e.evaluate
      (expandMacro config (fun macros => evaluate config exhausted bound pending macros absent)
        macros absent)
      (fun target span => do
        let key ← Resolver.targetKey config target span
        let node ← node config (fun pending => evaluate config exhausted bound pending macros)
          pending key
        return node.toValue)

/-- The node that a symbol stands for in a scope. -/
def resolve (config : Config) (exhausted : ConfigError) (bound : Nat) (scope : Scope)
    (symbol : DottedName) : Except ConfigError Node := do
  let registration ← config.registry.lookup symbol
  node config (fun pending => evaluate config exhausted bound pending []) []
    ⟨scope, registration.name⟩

end Uncached

namespace Config

variable {config : Config}

/-- The symbol of the key is exactly a registered name. -/
def Registered (config : Config) (key : NodeKey) : Prop := ∃ owner, config.owner? key = some owner

theorem registered_of_lookup (scope : Scope) {symbol : DottedName} {registration : Registration}
    (found : config.registry.lookup symbol = .ok registration) :
    config.Registered ⟨scope, registration.name⟩ := by
  have member : registration ∈ config.registry.entries := by
    unfold Registry.lookup at found
    split at found
    · rename_i exact
      cases found
      exact (Registry.get?_eq_some exact).2
    · split at found
      · cases found
      · rename_i matching
        cases found
        have inMatching : registration ∈ config.registry.matching symbol := by
          rw [matching]
          exact List.mem_singleton_self _
        exact (List.mem_filter.mp inMatching).1
      · cases found
  refine Option.isSome_iff_exists.mp (List.find?_isSome.mpr ⟨registration, member, ?_⟩)
  exact decide_eq_true rfl

theorem lookup_of_owner? {key : NodeKey} {owner : Registration}
    (owned : config.owner? key = some owner) : config.registry.lookup key.symbol = .ok owner :=
  Registry.lookup_exact owned

/-- The target of a reference is the key under which it is constructed. -/
theorem targetKey_ok_iff {target : Reference} {span : Span} {key : NodeKey} :
    Resolver.targetKey config target span = .ok key ↔ config.target? target = some key := by
  unfold Resolver.targetKey target? Registry.canonical?
  cases config.registry.lookup target.symbol with
  | ok registration => simp
  | error error => simp

theorem registered_of_target? {target : Reference} {key : NodeKey}
    (named : config.target? target = some key) : config.Registered key := by
  unfold target? Registry.canonical? at named
  cases found : config.registry.lookup target.symbol with
  | ok registration =>
    rw [found] at named
    cases named
    exact registered_of_lookup target.scope found
  | error error =>
    rw [found] at named
    cases named

end Config

/-! ## Parameters -/

section Parameters

variable {config : Config} {m : Type → Type} [Monad m] [MonadExceptOf ConfigError m]

/-- The value of a parameter is that of the expression which governs it, or else the default. -/
theorem Resolver.parameterValue_eq (replayed : config.Replayed)
    (evaluate : ConfigError → Expr → m Value) (key : NodeKey) (param : Param) :
    Resolver.parameterValue config evaluate key param =
      match config.governing? key param.name with
      | some e => evaluate (Resolver.missing key param.name) e
      | none =>
        match param.default with
        | some value => pure value
        | none => throw (Resolver.missing key param.name) := by
  unfold Resolver.parameterValue
  rw [← replayed.getScoped?_value]
  cases config.table.getScoped? ⟨key.scope, key.symbol, param.name⟩ <;> rfl

end Parameters

/-- The entry is what evaluation gives for a parameter of a node. -/
def Yields (config : Config) (evaluate : ConfigError → Expr → Except ConfigError Value)
    (key : NodeKey) (param : Param) (entry : String × Value) : Prop :=
  entry.1 = param.name ∧ param.kind.accepts entry.2 = true ∧
    match config.governing? key param.name with
    | some e => evaluate (Resolver.missing key param.name) e = .ok entry.2
    | none => param.default = some entry.2

theorem parameterValue_ok_iff {config : Config} (replayed : config.Replayed)
    {evaluate : ConfigError → Expr → Except ConfigError Value} {key : NodeKey} {param : Param}
    {value : Value} :
    Resolver.parameterValue config evaluate key param = .ok value ↔
      match config.governing? key param.name with
      | some e => evaluate (Resolver.missing key param.name) e = .ok value
      | none => param.default = some value := by
  rw [Resolver.parameterValue_eq replayed]
  cases config.governing? key param.name with
  | some e => rfl
  | none =>
    cases param.default with
    | some default => simp [pure, Except.pure]
    | none => simp [throw, throwThe, MonadExceptOf.throw]

theorem parameterValues_ok_iff {config : Config} (replayed : config.Replayed)
    {evaluate : ConfigError → Expr → Except ConfigError Value} {key : NodeKey}
    {params : List Param} {entries : List (String × Value)} :
    Resolver.parameterValues config evaluate key params = .ok entries ↔
      List.Forall₂ (Yields config evaluate key) params entries := by
  induction params generalizing entries with
  | nil =>
    rw [List.forall₂_nil_left_iff]
    constructor
    · intro run
      cases run
      rfl
    · rintro rfl
      rfl
  | cons param params ih =>
    rw [List.forall₂_cons_left_iff, Resolver.parameterValues]
    constructor
    · intro run
      obtain ⟨value, first, run⟩ := ok_of_bind run
      split at run
      · rename_i accepted
        obtain ⟨values, others, run⟩ := ok_of_bind run
        cases run
        exact ⟨_, _, ⟨rfl, accepted, (parameterValue_ok_iff replayed).mp first⟩, ih.mp others, rfl⟩
      · cases run
    · rintro ⟨⟨name, value⟩, values, ⟨rfl, accepted, given⟩, others, rfl⟩
      rw [ok_bind ((parameterValue_ok_iff replayed).mpr given), if_pos accepted,
        ok_bind (ih.mpr others)]
      rfl

/-! ## What is given is meant -/

namespace Uncached

/-- Where a key is not under way its node is constructed. -/
theorem node_enter {config : Config}
    {evaluate : List NodeKey → ConfigError → Expr → Except ConfigError Value}
    {pending : List NodeKey} {key : NodeKey} {owner : Registration}
    (owned : config.owner? key = some owner) (fresh : key ∉ pending) :
    node config evaluate pending key =
      Resolver.parameterValues config (evaluate (pending ++ [key])) key owner.params >>=
        fun values => Resolver.build owner key ⟨values⟩ := by
  unfold node
  rw [if_neg fresh, ok_bind (Config.lookup_of_owner? owned)]

section Soundness

variable {config : Config} {onMacro : DottedName → Span → Except ConfigError Value}
  {onReference : Reference → Span → Except ConfigError Value}

mutual

theorem denotes_of_visits
    (macros : ∀ name span value, onMacro name span = .ok value →
      Denotes config (.macroRef name span) value)
    (references : ∀ target span value, onReference target span = .ok value →
      Denotes config (.reference target span) value)
    {e : Expr} {value : Value} (run : e.evaluate onMacro onReference = .ok value) :
    Denotes config e value := by
  cases e with
  | literal literal span =>
    cases run
    exact .literal literal span
  | list items span =>
    obtain ⟨values, inner, run⟩ := ok_of_bind run
    cases run
    exact .list_of_forall₂ span (denotes_of_visits_items macros references inner)
  | tuple items span =>
    obtain ⟨values, inner, run⟩ := ok_of_bind run
    cases run
    exact .tuple_of_forall₂ span (denotes_of_visits_items macros references inner)
  | map entries span =>
    obtain ⟨pairs, inner, run⟩ := ok_of_bind run
    cases run
    exact .map_of_forall₂ span (denotes_of_visits_entries macros references inner)
  | macroRef name span => exact macros name span value run
  | reference target span => exact references target span value run

theorem denotes_of_visits_items
    (macros : ∀ name span value, onMacro name span = .ok value →
      Denotes config (.macroRef name span) value)
    (references : ∀ target span value, onReference target span = .ok value →
      Denotes config (.reference target span) value)
    {items : List Expr} {values : List Value}
    (run : Expr.evaluateItems onMacro onReference items = .ok values) :
    List.Forall₂ (Denotes config) items values := by
  cases items with
  | nil =>
    cases run
    exact .nil
  | cons item items =>
    obtain ⟨value, first, run⟩ := ok_of_bind run
    obtain ⟨rest, others, run⟩ := ok_of_bind run
    cases run
    exact .cons (denotes_of_visits macros references first)
      (denotes_of_visits_items macros references others)

theorem denotes_of_visits_entries
    (macros : ∀ name span value, onMacro name span = .ok value →
      Denotes config (.macroRef name span) value)
    (references : ∀ target span value, onReference target span = .ok value →
      Denotes config (.reference target span) value)
    {entries : List (String × Expr)} {pairs : List (String × Value)}
    (run : Expr.evaluateEntries onMacro onReference entries = .ok pairs) :
    List.Forall₂ (Denotes.Entry config) entries pairs := by
  cases entries with
  | nil =>
    cases run
    exact .nil
  | cons entry entries =>
    obtain ⟨value, first, run⟩ := ok_of_bind run
    obtain ⟨rest, others, run⟩ := ok_of_bind run
    cases run
    exact .cons ⟨rfl, denotes_of_visits macros references first⟩
      (denotes_of_visits_entries macros references others)

end

end Soundness

variable {config : Config}

theorem built_of_node (replayed : config.Replayed)
    {evaluate : List NodeKey → ConfigError → Expr → Except ConfigError Value}
    (sound : ∀ pending absent e value, evaluate pending absent e = .ok value →
      Denotes config e value)
    {pending : List NodeKey} {key : NodeKey} {made : Node} (registered : config.Registered key)
    (run : node config evaluate pending key = .ok made) : made.key = key ∧ Built config made := by
  obtain ⟨owner, owned⟩ := registered
  by_cases constructing : key ∈ pending
  · unfold node at run
    rw [if_pos constructing] at run
    cases run
  · rw [node_enter owned constructing] at run
    obtain ⟨values, given, run⟩ := ok_of_bind run
    obtain ⟨product, produced, rfl⟩ := Resolver.build_ok_iff.mp run
    refine ⟨rfl, owner, owned, ?_, produced⟩
    refine ((parameterValues_ok_iff replayed).mp given).imp fun param entry yields => ?_
    obtain ⟨sameName, accepted, value⟩ := yields
    refine ⟨sameName, accepted, ?_⟩
    unfold HasValue
    dsimp only
    cases governed : config.governing? key param.name with
    | some e =>
      rw [governed] at value
      exact sound _ _ _ _ value
    | none =>
      rw [governed] at value
      exact value

theorem denotes_of_evaluate (replayed : config.Replayed) {exhausted : ConfigError} {bound : Nat}
    {pending : List NodeKey} {macros : List String} {absent : ConfigError} {e : Expr}
    {value : Value} (run : evaluate config exhausted bound pending macros absent e = .ok value) :
    Denotes config e value := by
  induction bound generalizing pending macros absent e value with
  | zero => cases run
  | succ bound ih =>
    refine denotes_of_visits ?_ ?_ run
    -- a macro gives what its last definition gives
    · intro name span value run
      unfold expandMacro at run
      dsimp only at run
      split at run
      · cases run
      · rename_i different
        split at run
        · cases run
        · split at run
          · rename_i definition found
            refine .macroRef span different ?_ (ih run)
            rw [← replayed.macro?_value, found]
            rfl
          · cases run
    -- a reference gives the node of its target, whose parameters are evaluated in turn
    · intro target span value run
      obtain ⟨key, named, run⟩ := ok_of_bind run
      obtain ⟨made, constructed, run⟩ := ok_of_bind run
      cases run
      rw [Config.targetKey_ok_iff] at named
      obtain ⟨rfl, built⟩ := built_of_node replayed (fun _ _ _ _ => ih)
        (Config.registered_of_target? named) constructed
      exact .reference_of_built span named built

theorem built_of_resolve (replayed : config.Replayed) {exhausted : ConfigError} {bound : Nat}
    {scope : Scope} {symbol : DottedName} {registration : Registration} {made : Node}
    (found : config.registry.lookup symbol = .ok registration)
    (run : resolve config exhausted bound scope symbol = .ok made) :
    made.key = ⟨scope, registration.name⟩ ∧ Built config made := by
  unfold resolve at run
  rw [ok_bind found] at run
  exact built_of_node replayed (fun _ _ _ _ => denotes_of_evaluate replayed)
    (Config.registered_of_lookup scope found) run

end Uncached

/-! ## What is meant is given -/

section Completeness

variable {onMacro : DottedName → Span → Except ConfigError Value}
  {onReference : Reference → Span → Except ConfigError Value}

theorem evaluateItems_ok {items : List Expr} {values : List Value}
    (each : List.Forall₂ (fun item value => item.evaluate onMacro onReference = .ok value)
      items values) : Expr.evaluateItems onMacro onReference items = .ok values := by
  induction each with
  | nil => rfl
  | cons first _ ih =>
    rw [Expr.evaluateItems, ok_bind first, ok_bind ih]
    rfl

theorem evaluateEntries_ok {entries : List (String × Expr)} {pairs : List (String × Value)}
    (each : List.Forall₂ (fun entry pair => pair.1 = entry.1 ∧
      entry.2.evaluate onMacro onReference = .ok pair.2) entries pairs) :
    Expr.evaluateEntries onMacro onReference entries = .ok pairs := by
  induction each with
  | nil => rfl
  | @cons entry pair entries pairs first _ ih =>
    obtain ⟨key, e⟩ := entry
    obtain ⟨name, value⟩ := pair
    obtain ⟨rfl, run⟩ := first
    rw [Expr.evaluateEntries, ok_bind run, ok_bind ih]
    rfl

end Completeness

variable {config : Config}

theorem Uncached.expandMacro_ok (replayed : config.Replayed)
    {evaluate : List String → Expr → Except ConfigError Value} {macros : List String}
    {absent : ConfigError} {name : DottedName} {span : Span} {e : Expr} {value : Value}
    (different : name ≠ Expr.requiredMacro) (fresh : name.toText ∉ macros)
    (defined : config.definition? name.toText = some e)
    (run : evaluate (macros ++ [name.toText]) e = .ok value) :
    expandMacro config evaluate macros absent name span = .ok value := by
  rw [← replayed.macro?_value] at defined
  obtain ⟨definition, found, rfl⟩ := Option.map_eq_some_iff.mp defined
  unfold expandMacro
  dsimp only
  rw [if_neg different, if_neg fresh, found]
  exact run

/-- A node is constructed if what governs its parameters is evaluated to what they hold. -/
theorem Uncached.node_ok (replayed : config.Replayed)
    {evaluate : List NodeKey → ConfigError → Expr → Except ConfigError Value}
    {pending : List NodeKey} {owner : Registration} {made : Node}
    (owned : config.owner? made.key = some owner) (fresh : made.key ∉ pending)
    (params : List.Forall₂ (FillsParam config made.key) owner.params made.params.entries)
    (given : ∀ param entry e, (param, entry) ∈ owner.params.zip made.params.entries →
      config.governing? made.key param.name = some e →
      evaluate (pending ++ [made.key]) (Resolver.missing made.key param.name) e = .ok entry.2)
    (produced : owner.product made.params = .ok made.product) :
    node config evaluate pending made.key = .ok made := by
  obtain ⟨sameLength, fills⟩ := List.forall₂_iff_zip.mp params
  have yields : List.Forall₂ (Yields config (evaluate (pending ++ [made.key])) made.key)
      owner.params made.params.entries := by
    refine List.forall₂_iff_zip.mpr ⟨sameLength, fun {param entry} member => ?_⟩
    obtain ⟨sameName, accepted, has⟩ := fills member
    refine ⟨sameName, accepted, ?_⟩
    unfold HasValue at has
    cases governed : config.governing? made.key param.name with
    | some e => exact given param entry e member governed
    | none =>
      rw [governed] at has
      exact has
  rw [node_enter owned fresh, ok_bind ((parameterValues_ok_iff replayed).mpr yields)]
  exact Resolver.build_ok_iff.mpr ⟨made.product, produced, rfl⟩

open Item (underWay)

/-- The induction is on what the meaning rests on. Each macro and each node that it enters is new,
since nothing that means something leads back to itself, so the room that is left suffices. -/
theorem Denotes.evaluate (replayed : config.Replayed) {e : Expr} {value : Value}
    (denotes : Denotes config e value) {exhausted : ConfigError} {bound : Nat}
    {pending : List NodeKey} {macros : List String} {absent : ConfigError} (known : config.Known e)
    (clear : config.Clear (underWay pending macros) e)
    (enough : config.room (underWay pending macros) < bound) :
    Uncached.evaluate config exhausted bound pending macros absent e = .ok value := by
  induction denotes generalizing bound pending macros absent with
  | literal value span =>
    obtain ⟨bound, rfl, _⟩ := Config.exists_succ_of_lt enough
    rfl
  | @list items values span sameLength _ ih =>
    obtain ⟨bound, rfl, _⟩ := Config.exists_succ_of_lt enough
    have each : List.Forall₂ (fun item value =>
        Uncached.evaluate config exhausted (bound + 1) pending macros absent item = .ok value)
        items values := by
      refine List.forall₂_iff_zip.mpr ⟨sameLength, fun {item value} member => ?_⟩
      have covers := Expr.covers_item_of_list span (List.of_mem_zip member).1
      exact ih item value member (known.of_covers covers) (clear.of_covers covers) enough
    exact ok_bind (evaluateItems_ok each)
  | @tuple items values span sameLength _ ih =>
    obtain ⟨bound, rfl, _⟩ := Config.exists_succ_of_lt enough
    have each : List.Forall₂ (fun item value =>
        Uncached.evaluate config exhausted (bound + 1) pending macros absent item = .ok value)
        items values := by
      refine List.forall₂_iff_zip.mpr ⟨sameLength, fun {item value} member => ?_⟩
      have covers := Expr.covers_item_of_tuple span (List.of_mem_zip member).1
      exact ih item value member (known.of_covers covers) (clear.of_covers covers) enough
    exact ok_bind (evaluateItems_ok each)
  | @map entries pairs span sameLength names _ ih =>
    obtain ⟨bound, rfl, _⟩ := Config.exists_succ_of_lt enough
    have each : List.Forall₂ (fun entry pair => pair.1 = entry.1 ∧
        Uncached.evaluate config exhausted (bound + 1) pending macros absent entry.2 = .ok pair.2)
        entries pairs := by
      refine List.forall₂_iff_zip.mpr ⟨sameLength, fun {entry pair} member => ?_⟩
      have covers := Expr.covers_value_of_map span (List.of_mem_zip member).1
      exact ⟨names entry pair member,
        ih entry pair member (known.of_covers covers) (clear.of_covers covers) enough⟩
    exact ok_bind (evaluateEntries_ok each)
  | @macroRef name e value span different defined denotes ih =>
    have mentioned : config.Mentions (.macroRef name span) (.macroDef name.toText) :=
      Config.mentions_self_macroRef span different
    have away := clear _ mentioned
    -- the macro itself is not under way, so that entering it takes away room
    have fresh := away _ .refl
    have grounded := (Denotes.macroRef span different defined denotes).grounded mentioned
    rw [Item.macroDef_mem_underWay] at fresh
    have room := replayed.room_enter_definition defined pending fresh
    obtain ⟨bound, rfl, _⟩ := Config.exists_succ_of_lt enough
    have expanded : Uncached.expandMacro config
        (fun macros => Uncached.evaluate config exhausted bound pending macros absent) macros absent
        name span = .ok value := by
      refine Uncached.expandMacro_ok replayed different fresh defined ?_
      have cleared := Config.Clear.enter_definition grounded away defined
      exact ih (Config.known_of_definition? defined) cleared (by omega)
    exact expanded
  | @reference target owner node span named owned sameLength shapes meanings produced ih =>
    have mentioned := Config.mentions_self_reference span named
    have away := clear _ mentioned
    have fresh := away _ .refl
    have grounded :=
      (Denotes.reference span named owned sameLength shapes meanings produced).grounded mentioned
    rw [Item.node_mem_underWay] at fresh
    have room := known.room_enter_node named macros fresh
    obtain ⟨bound, rfl, _⟩ := Config.exists_succ_of_lt enough
    have constructed : Uncached.node config
        (fun pending => Uncached.evaluate config exhausted bound pending macros) pending node.key
        = .ok node := by
      refine Uncached.node_ok replayed owned fresh
        (forall₂_fillsParam sameLength shapes meanings) ?_ produced
      intro param entry e member governed
      have cleared :=
        Config.Clear.enter_node grounded away owned (List.of_mem_zip member).1 governed
      exact ih param entry e member governed (Config.known_of_governing? governed) cleared
        (by omega)
    exact (ok_bind (Config.targetKey_ok_iff.mpr named)).trans (ok_bind constructed)

theorem Built.node (replayed : config.Replayed) {made : Node} (built : Built config made)
    {exhausted : ConfigError} {bound : Nat} {pending : List NodeKey} {macros : List String}
    (away : config.Away (underWay pending macros) (.node made.key))
    (enough : config.room (underWay (pending ++ [made.key]) macros) < bound) :
    Uncached.node config (fun pending => Uncached.evaluate config exhausted bound pending macros)
      pending made.key = .ok made := by
  have grounded := built.grounded
  obtain ⟨owner, owned, params, produced⟩ := built
  have fresh := away _ .refl
  rw [Item.node_mem_underWay] at fresh
  refine Uncached.node_ok replayed owned fresh params ?_ produced
  intro param entry e member governed
  obtain ⟨_, _, has⟩ := (List.forall₂_iff_zip.mp params).2 member
  rw [HasValue, governed] at has
  have cleared := Config.Clear.enter_node grounded away owned (List.of_mem_zip member).1 governed
  exact Denotes.evaluate replayed has (Config.known_of_governing? governed) cleared enough

/-- Without a cache a node is constructed if and only if it is what the configuration says. -/
theorem Uncached.node_ok_iff (replayed : config.Replayed) {exhausted : ConfigError} {bound : Nat}
    {pending : List NodeKey} {macros : List String} {key : NodeKey}
    (registered : config.Registered key)
    (needed : config.Needed (underWay pending macros) (.node key))
    (enough : key ∉ pending → config.room (underWay (pending ++ [key]) macros) < bound)
    (made : Node) (keyed : made.key = key) :
    node config (fun pending => evaluate config exhausted bound pending macros) pending key
      = .ok made ↔ Built config made := by
  constructor
  · intro run
    exact (built_of_node replayed (fun _ _ _ _ => denotes_of_evaluate replayed) registered run).2
  · intro built
    subst keyed
    have away := built.grounded.away needed
    have fresh : made.key ∉ pending := by simpa using away _ .refl
    exact built.node replayed away (enough fresh)

end ConfigBinding
