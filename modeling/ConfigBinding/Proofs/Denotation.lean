import ConfigBinding.Graph
import ConfigBinding.Proofs.Governing
import Mathlib.Data.List.Forall2

/-!
# What expressions mean

The meaning of an expression in a configuration, without an order of evaluation, a cache or a record
of what is under way. A macro means what its last definition means. A reference means the node of
its target, and that holds for each parameter the meaning of the value to which it is bound, or its
default.

An expression may have no meaning: its parameters may lack a value, have values of the wrong kind or
depend on themselves, and its constructors may fail.

Results:
1. `Denotes.unique`, `Built.unique`: an expression means one value, and a key stands for one node.
-/

namespace ConfigBinding

namespace Config

/-- The key of the node that a reference stands for. -/
def target? (config : Config) (target : Reference) : Option NodeKey :=
  (config.registry.canonical? target.symbol).map fun symbol => ⟨target.scope, symbol⟩

/-- The configurable that is registered under the symbol of a key. -/
def owner? (config : Config) (key : NodeKey) : Option Registration :=
  config.registry.get? key.symbol

end Config

/-- `Denotes config e value`: in the configuration the expression `e` means `value`.

* A literal means itself. Lists and tuples mean what their items mean, one by one, and mappings what
  their entries mean: a key that comes again keeps its first place and takes the last value.
* A macro means what its last definition in the log means, also where it is used before that.
* A reference means the node under its target's key. The node has the parameters of the registered
  configurable in order, each of its kind: the meaning of the value that governs the parameter, or
  the default if none does. Its product is what the constructor makes of them. -/
inductive Denotes (config : Config) : Expr → Value → Prop
  | literal (value : Literal) (span : Span) :
      Denotes config (.literal value span) (.ofLiteral value)
  | list {items : List Expr} {values : List Value} (span : Span) :
      items.length = values.length →
      (∀ item value, (item, value) ∈ items.zip values → Denotes config item value) →
      Denotes config (.list items span) (.list values)
  | tuple {items : List Expr} {values : List Value} (span : Span) :
      items.length = values.length →
      (∀ item value, (item, value) ∈ items.zip values → Denotes config item value) →
      Denotes config (.tuple items span) (.tuple values)
  | map {entries : List (String × Expr)} {pairs : List (String × Value)} (span : Span) :
      entries.length = pairs.length →
      (∀ entry pair, (entry, pair) ∈ entries.zip pairs → pair.1 = entry.1) →
      (∀ entry pair, (entry, pair) ∈ entries.zip pairs → Denotes config entry.2 pair.2) →
      Denotes config (.map entries span) (.map (Entries.ofList pairs))
  | macroRef {name : DottedName} {e : Expr} {value : Value} (span : Span) :
      name ≠ Expr.requiredMacro → config.definition? name.toText = some e →
      Denotes config e value → Denotes config (.macroRef name span) value
  | reference {target : Reference} {owner : Registration} {node : Node} (span : Span) :
      config.target? target = some node.key → config.owner? node.key = some owner →
      owner.params.length = node.params.entries.length →
      (∀ param entry, (param, entry) ∈ owner.params.zip node.params.entries →
        entry.1 = param.name ∧ param.kind.accepts entry.2 = true ∧
          (config.governing? node.key param.name = none → param.default = some entry.2)) →
      (∀ param entry e, (param, entry) ∈ owner.params.zip node.params.entries →
        config.governing? node.key param.name = some e → Denotes config e entry.2) →
      owner.product node.params = .ok node.product →
      Denotes config (.reference target span) node.toValue

/-- The value of a parameter of a node: the meaning of the value that governs it, or the default if
none does. -/
def HasValue (config : Config) (key : NodeKey) (param : Param) (value : Value) : Prop :=
  match config.governing? key param.name with
  | some e => Denotes config e value
  | none => param.default = some value

/-- The entry gives a parameter of a node its value, which is of the declared kind. -/
def FillsParam (config : Config) (key : NodeKey) (param : Param) (entry : String × Value) : Prop :=
  entry.1 = param.name ∧ param.kind.accepts entry.2 = true ∧ HasValue config key param entry.2

/-- The node is what the configuration says about its key: it has the parameters of the registered
configurable in order, and its product is what the constructor makes of them. -/
def Built (config : Config) (node : Node) : Prop :=
  ∃ owner, config.owner? node.key = some owner ∧
    List.Forall₂ (FillsParam config node.key) owner.params node.params.entries ∧
    owner.product node.params = .ok node.product

/-! ## Lists that correspond -/

section

variable {α β : Type} {R : α → β → Prop} {as : List α} {bs : List β}

theorem exists_right_of_forall₂ (each : List.Forall₂ R as bs) {a : α} (member : a ∈ as) :
    ∃ b ∈ bs, R a b := by
  induction each with
  | nil => cases member
  | @cons head other as bs first _ ih =>
    rcases List.mem_cons.mp member with rfl | later
    · exact ⟨other, List.mem_cons_self, first⟩
    · obtain ⟨b, inside, related⟩ := ih later
      exact ⟨b, List.mem_cons_of_mem _ inside, related⟩

theorem exists_left_of_forall₂ (each : List.Forall₂ R as bs) {b : β} (member : b ∈ bs) :
    ∃ a ∈ as, R a b :=
  exists_right_of_forall₂ each.flip member

end

/-- What follows for the members of the second list if it does for each pair. -/
theorem forall_right_of_zip {α β : Type} {P : β → Prop} {as : List α} {bs : List β}
    (sameLength : as.length = bs.length) (each : ∀ a b, (a, b) ∈ as.zip bs → P b) :
    ∀ b ∈ bs, P b := by
  intro b member
  have pairs : List.Forall₂ (fun _ b => P b) as bs :=
    List.forall₂_iff_zip.mpr ⟨sameLength, fun inside => each _ _ inside⟩
  obtain ⟨_, _, holds⟩ := exists_left_of_forall₂ pairs member
  exact holds

theorem forall₂_of_map_eq {α β γ : Type} {f : α → γ} {g : β → γ} {as : List α} {bs : List β}
    (same : as.map f = bs.map g) : List.Forall₂ (fun a b => f a = g b) as bs := by
  rw [← List.forall₂_map_right_iff, ← List.forall₂_map_left_iff, same]
  exact List.forall₂_same.mpr fun _ _ => rfl

/-- Two lists correspond if what corresponds to one member of a third list does. -/
theorem forall₂_of_common {α β γ : Type} {R : α → β → Prop} {S : α → γ → Prop} {T : β → γ → Prop}
    {as : List α} {bs : List β} {cs : List γ} (step : ∀ a b c, R a b → S a c → T b c)
    (first : List.Forall₂ R as bs) (second : List.Forall₂ S as cs) : List.Forall₂ T bs cs := by
  induction first generalizing cs with
  | nil =>
    cases second
    exact .nil
  | cons head _ ih =>
    cases second with
    | cons otherHead otherTail => exact .cons (step _ _ _ head otherHead) (ih otherTail)

/-! ## Rules for whole lists -/

namespace Denotes

variable {config : Config}

theorem list_of_forall₂ {items : List Expr} {values : List Value} (span : Span)
    (each : List.Forall₂ (Denotes config) items values) :
    Denotes config (.list items span) (.list values) := by
  obtain ⟨sameLength, each⟩ := List.forall₂_iff_zip.mp each
  exact .list span sameLength fun _ _ => each

theorem tuple_of_forall₂ {items : List Expr} {values : List Value} (span : Span)
    (each : List.Forall₂ (Denotes config) items values) :
    Denotes config (.tuple items span) (.tuple values) := by
  obtain ⟨sameLength, each⟩ := List.forall₂_iff_zip.mp each
  exact .tuple span sameLength fun _ _ => each

/-- The pair gives the entry of a mapping its meaning. -/
def Entry (config : Config) (entry : String × Expr) (pair : String × Value) : Prop :=
  pair.1 = entry.1 ∧ Denotes config entry.2 pair.2

theorem map_of_forall₂ {entries : List (String × Expr)} {pairs : List (String × Value)}
    (span : Span) (each : List.Forall₂ (Entry config) entries pairs) :
    Denotes config (.map entries span) (.map (Entries.ofList pairs)) := by
  obtain ⟨sameLength, each⟩ := List.forall₂_iff_zip.mp each
  exact .map span sameLength (fun _ _ member => (each member).1) fun _ _ member => (each member).2

theorem reference_of_built {target : Reference} {node : Node} (span : Span)
    (named : config.target? target = some node.key) (built : Built config node) :
    Denotes config (.reference target span) node.toValue := by
  obtain ⟨owner, owned, params, made⟩ := built
  obtain ⟨sameLength, each⟩ := List.forall₂_iff_zip.mp params
  refine .reference span named owned sameLength ?_ ?_ made
  · intro param entry member
    obtain ⟨sameName, accepted, has⟩ := each member
    refine ⟨sameName, accepted, fun ungoverned => ?_⟩
    rw [HasValue, ungoverned] at has
    exact has
  · intro param entry e member governed
    obtain ⟨_, _, has⟩ := each member
    rw [HasValue, governed] at has
    exact has

/-- The parameters of the node of a reference, as they stand in the rule. -/
theorem forall₂_fillsParam {key : NodeKey} {params : List Param} {entries : List (String × Value)}
    (sameLength : params.length = entries.length)
    (shapes : ∀ param entry, (param, entry) ∈ params.zip entries →
      entry.1 = param.name ∧ param.kind.accepts entry.2 = true ∧
        (config.governing? key param.name = none → param.default = some entry.2))
    (meanings : ∀ param entry e, (param, entry) ∈ params.zip entries →
      config.governing? key param.name = some e → Denotes config e entry.2) :
    List.Forall₂ (FillsParam config key) params entries := by
  refine List.forall₂_iff_zip.mpr ⟨sameLength, ?_⟩
  intro param entry member
  obtain ⟨sameName, accepted, default⟩ := shapes param entry member
  refine ⟨sameName, accepted, ?_⟩
  unfold HasValue
  cases governed : config.governing? key param.name with
  | some e => exact meanings param entry e member governed
  | none => exact default governed

theorem built_of_reference {target : Reference} {span : Span} {value : Value}
    (denotes : Denotes config (.reference target span) value) :
    ∃ node, value = node.toValue ∧ config.target? target = some node.key ∧ Built config node := by
  cases denotes with
  | reference _ named owned sameLength shapes meanings made =>
    exact ⟨_, rfl, named, _, owned, forall₂_fillsParam sameLength shapes meanings, made⟩

end Denotes

/-! ## Uniqueness -/

theorem forall₂_right_unique {α β : Type} {R S : α → β → Prop} {as : List α} {bs cs : List β}
    (agree : ∀ a b c, R a b → S a c → b = c) (first : List.Forall₂ R as bs)
    (second : List.Forall₂ S as cs) : bs = cs :=
  List.forall₂_eq_eq_eq ▸ forall₂_of_common agree first second

/-- If the expression means anything, it means `value`. -/
def MeansOnly (config : Config) (e : Expr) (value : Value) : Prop :=
  ∀ other, Denotes config e other → value = other

variable {config : Config}

theorem values_unique {items : List Expr} {values others : List Value}
    (sameLength : items.length = values.length) (otherLength : items.length = others.length)
    (only : ∀ item value, (item, value) ∈ items.zip values → MeansOnly config item value)
    (each : ∀ item other, (item, other) ∈ items.zip others → Denotes config item other) :
    values = others :=
  forall₂_right_unique (fun _ _ other means denotes => means other denotes)
    (List.forall₂_iff_zip.mpr ⟨sameLength, fun member => only _ _ member⟩)
    (List.forall₂_iff_zip.mpr ⟨otherLength, fun member => each _ _ member⟩)

/-- Two values fill a parameter alike if the expression that governs it means one value. -/
theorem FillsParam.unique {key : NodeKey} {param : Param} {first second : String × Value}
    (fills : FillsParam config key param first)
    (only : ∀ e, config.governing? key param.name = some e → MeansOnly config e first.2)
    (otherFills : FillsParam config key param second) : first = second := by
  obtain ⟨name, _, has⟩ := fills
  obtain ⟨otherName, _, otherHas⟩ := otherFills
  refine Prod.ext (name.trans otherName.symm) ?_
  unfold HasValue at has otherHas
  cases governed : config.governing? key param.name with
  | some e =>
    rw [governed] at otherHas
    exact only e governed _ otherHas
  | none =>
    rw [governed] at has otherHas
    exact Option.some.inj (has.symm.trans otherHas)

/-- Two nodes of one key agree if their parameters do. -/
theorem Built.ext_of_params {node other : Node} (built : Built config node)
    (otherBuilt : Built config other) (sameKey : node.key = other.key)
    (sameParams : node.params.entries = other.params.entries) : node = other := by
  obtain ⟨owner, owned, _, made⟩ := built
  obtain ⟨otherOwner, otherOwned, _, otherMade⟩ := otherBuilt
  obtain ⟨key, params, product⟩ := node
  obtain ⟨otherKey, otherParams, otherProduct⟩ := other
  obtain rfl : key = otherKey := sameKey
  obtain rfl : params = otherParams := by
    cases params
    cases otherParams
    exact congrArg Params.mk sameParams
  obtain rfl : owner = otherOwner := Option.some.inj (owned.symm.trans otherOwned)
  obtain rfl : product = otherProduct := Except.ok.inj (made.symm.trans otherMade)
  rfl

/-- An expression means at most one value. The induction is on what the first meaning rests on. -/
theorem Denotes.unique {e : Expr} {value other : Value} (denotes : Denotes config e value)
    (otherDenotes : Denotes config e other) : value = other := by
  induction denotes generalizing other with
  | literal value span =>
    cases otherDenotes
    rfl
  | list span sameLength _ ih =>
    cases otherDenotes with
    | list _ otherLength each =>
      rw [values_unique sameLength otherLength (fun item value member _ => ih item value member)
        each]
  | tuple span sameLength _ ih =>
    cases otherDenotes with
    | tuple _ otherLength each =>
      rw [values_unique sameLength otherLength (fun item value member _ => ih item value member)
        each]
  | map span sameLength names _ ih =>
    cases otherDenotes with
    | map _ otherLength otherNames each =>
      rw [forall₂_right_unique
        (R := fun entry pair => pair.1 = entry.1 ∧ MeansOnly config entry.2 pair.2)
        (S := Entry config)
        (fun _ _ _ means otherMeans =>
          Prod.ext (means.1.trans otherMeans.1.symm) (means.2 _ otherMeans.2))
        (List.forall₂_iff_zip.mpr
          ⟨sameLength, fun member => ⟨names _ _ member, fun _ => ih _ _ member⟩⟩)
        (List.forall₂_iff_zip.mpr
          ⟨otherLength, fun member => ⟨otherNames _ _ member, each _ _ member⟩⟩)]
  | macroRef span _ defined _ ih =>
    cases otherDenotes with
    | macroRef _ _ otherDefined otherMeans =>
      obtain rfl := Option.some.inj (defined.symm.trans otherDefined)
      exact ih otherMeans
  | @reference target owner node span named owned sameLength shapes meanings made ih =>
    obtain ⟨second, rfl, otherNamed, otherBuilt⟩ := otherDenotes.built_of_reference
    have sameKey : node.key = second.key := Option.some.inj (named.symm.trans otherNamed)
    have params := forall₂_fillsParam sameLength shapes meanings
    have built : Built config node := ⟨owner, owned, params, made⟩
    obtain ⟨otherOwner, otherOwned, otherParams, _⟩ := id otherBuilt
    rw [← sameKey] at otherOwned otherParams
    obtain rfl := Option.some.inj (owned.symm.trans otherOwned)
    have means : List.Forall₂ (fun param entry => FillsParam config node.key param entry ∧
        ∀ e, config.governing? node.key param.name = some e → MeansOnly config e entry.2)
        owner.params node.params.entries :=
      List.forall₂_iff_zip.mpr ⟨sameLength, fun {param entry} member =>
        ⟨(List.forall₂_iff_zip.mp params).2 member,
          fun e governed _ => ih param entry e member governed⟩⟩
    have sameParams := forall₂_right_unique
      (fun _ _ _ first second => first.1.unique first.2 second) means otherParams
    rw [built.ext_of_params otherBuilt sameKey sameParams]

/-- A key stands for at most one node. -/
theorem Built.unique {node other : Node} (built : Built config node)
    (otherBuilt : Built config other) (sameKey : node.key = other.key) : node = other := by
  obtain ⟨owner, owned, params, _⟩ := id built
  obtain ⟨otherOwner, otherOwned, otherParams, _⟩ := id otherBuilt
  rw [← sameKey] at otherOwned otherParams
  obtain rfl := Option.some.inj (owned.symm.trans otherOwned)
  refine built.ext_of_params otherBuilt sameKey (forall₂_right_unique ?_ params otherParams)
  intro param entry otherEntry fills otherFills
  refine fills.unique ?_ otherFills
  intro e governed value otherMeans
  obtain ⟨_, _, has⟩ := fills
  rw [HasValue, governed] at has
  exact Denotes.unique has otherMeans

end ConfigBinding
