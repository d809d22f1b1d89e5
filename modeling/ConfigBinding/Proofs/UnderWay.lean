import ConfigBinding.Proofs.Dependency
import ConfigBinding.Resolver

/-!
# What is under way

While a value is evaluated, the nodes that are being constructed and the macros that are being
expanded are under way. Entering one of them once more is an error, so each step into a node or a
macro uses up one of the finitely many that the log mentions.

Results:
1. `Config.Grounded.away`: what depends on nothing without end leads back to nothing that is under
   way for its sake.
2. `Config.room_lt`, `Config.room_lt_depthLimit`: how many steps deep an evaluation can go.
-/

namespace ConfigBinding

namespace Item

/-- The nodes and macros that are under way. -/
def underWay (pending : List NodeKey) (macros : List String) : List Item :=
  pending.map .node ++ macros.map .macroDef

@[simp]
theorem node_mem_underWay {key : NodeKey} {pending : List NodeKey} {macros : List String} :
    node key ∈ underWay pending macros ↔ key ∈ pending := by
  simp [underWay]

@[simp]
theorem macroDef_mem_underWay {name : String} {pending : List NodeKey} {macros : List String} :
    macroDef name ∈ underWay pending macros ↔ name ∈ macros := by
  simp [underWay]

theorem mem_underWay_node {item : Item} {key : NodeKey} {pending : List NodeKey}
    {macros : List String} :
    item ∈ underWay (pending ++ [key]) macros ↔
      item ∈ underWay pending macros ∨ item = node key := by
  cases item <;> simp

theorem mem_underWay_macroDef {item : Item} {name : String} {pending : List NodeKey}
    {macros : List String} :
    item ∈ underWay pending (macros ++ [name]) ↔
      item ∈ underWay pending macros ∨ item = macroDef name := by
  cases item <;> simp

end Item

namespace Config

variable {config : Config}

/-- No dependency leads from the item back to what is under way. -/
def Away (config : Config) (underWay : List Item) (item : Item) : Prop :=
  ∀ other, Relation.ReflTransGen config.Depends item other → other ∉ underWay

/-- No dependency leads from the expression back to what is under way. -/
def Clear (config : Config) (underWay : List Item) (e : Expr) : Prop :=
  ∀ item, config.Mentions e item → config.Away underWay item

theorem Clear.of_covers {underWay : List Item} {e part : Expr} (clear : config.Clear underWay e)
    (covers : e.Covers part) : config.Clear underWay part :=
  fun item mentions => clear item (mentions.of_covers covers)

/-- Following a dependency of an item that is entered leads back neither to it nor to what was under
way before. -/
theorem Clear.enter {underWay entered : List Item} {item : Item} {e : Expr}
    (grounded : config.Grounded item) (away : config.Away underWay item)
    (entering : ∀ other, other ∈ entered ↔ other ∈ underWay ∨ other = item)
    (depends : ∀ next, config.Mentions e next → config.Depends item next) :
    config.Clear entered e := by
  intro next mentions other reaches member
  have step := depends next mentions
  obtain earlier | rfl := (entering other).mp member
  · exact away other (Relation.ReflTransGen.head step reaches) earlier
  · exact grounded.irrefl (Relation.TransGen.head' step reaches)

section

variable {pending : List NodeKey} {macros : List String} {key : NodeKey} {owner : Registration}
  {param : Param} {name : String} {e : Expr}

theorem Clear.enter_node (grounded : config.Grounded (.node key))
    (away : config.Away (Item.underWay pending macros) (.node key))
    (owned : config.owner? key = some owner) (member : param ∈ owner.params)
    (governed : config.governing? key param.name = some e) :
    config.Clear (Item.underWay (pending ++ [key]) macros) e :=
  .enter grounded away (fun _ => Item.mem_underWay_node)
    fun _ mentions => .param owned member governed mentions

theorem Clear.enter_definition (grounded : config.Grounded (.macroDef name))
    (away : config.Away (Item.underWay pending macros) (.macroDef name))
    (defined : config.definition? name = some e) :
    config.Clear (Item.underWay pending (macros ++ [name])) e :=
  .enter grounded away (fun _ => Item.mem_underWay_macroDef)
    fun _ mentions => .definition defined mentions

end

/-- Everything under way depends on the item. -/
def Needed (config : Config) (underWay : List Item) (item : Item) : Prop :=
  ∀ other ∈ underWay, Relation.TransGen config.Depends other item

/-- Everything under way depends on what the expression mentions. -/
def Awaits (config : Config) (underWay : List Item) (e : Expr) : Prop :=
  ∀ item, config.Mentions e item → config.Needed underWay item

/-- What was under way depends on the item that is entered, and that on what follows. -/
theorem Needed.enter {underWay entered : List Item} {item : Item} {e : Expr}
    (needed : config.Needed underWay item)
    (entering : ∀ other, other ∈ entered ↔ other ∈ underWay ∨ other = item)
    (depends : ∀ next, config.Mentions e next → config.Depends item next) :
    config.Awaits entered e := by
  intro next mentions other member
  have step := depends next mentions
  obtain earlier | rfl := (entering other).mp member
  · exact (needed other earlier).tail step
  · exact .single step

section

variable {pending : List NodeKey} {macros : List String} {key : NodeKey} {owner : Registration}
  {param : Param} {name : String} {e : Expr}

theorem Needed.enter_node (needed : config.Needed (Item.underWay pending macros) (.node key))
    (owned : config.owner? key = some owner) (member : param ∈ owner.params)
    (governed : config.governing? key param.name = some e) :
    config.Awaits (Item.underWay (pending ++ [key]) macros) e :=
  needed.enter (fun _ => Item.mem_underWay_node)
    fun _ mentions => .param owned member governed mentions

theorem Needed.enter_definition
    (needed : config.Needed (Item.underWay pending macros) (.macroDef name))
    (defined : config.definition? name = some e) :
    config.Awaits (Item.underWay pending (macros ++ [name])) e :=
  needed.enter (fun _ => Item.mem_underWay_macroDef)
    fun _ mentions => .definition defined mentions

end

/-- What depends on nothing without end does not lead back to what depends on it. -/
theorem Grounded.away {underWay : List Item} {item : Item} (grounded : config.Grounded item)
    (needed : config.Needed underWay item) : config.Away underWay item := by
  intro other reaches member
  have cycle := (needed other member).trans_left reaches
  exact (grounded.of_reaches reaches).irrefl cycle

/-! ## How deep macros and references go -/

/-- All nodes and macros that values of the log can lead to. -/
def items (config : Config) : List Item :=
  (config.log.values.flatMap Expr.references).filterMap
      (fun target => (config.target? target).map .node) ++
    config.log.macroIndex.map fun entry => .macroDef entry.1

/-- All references of the expression stand in the log. -/
def Known (config : Config) (e : Expr) : Prop :=
  e.references ⊆ config.log.values.flatMap Expr.references

/-- Where there is more than room, the bound is not met yet. -/
theorem exists_succ_of_lt {room bound : Nat} (enough : room < bound) :
    ∃ smaller, bound = smaller + 1 ∧ room ≤ smaller :=
  ⟨bound - 1, by omega, by omega⟩

/-- The number of nodes and macros that can still be entered. -/
def room (config : Config) (underWay : List Item) : Nat :=
  (config.items.filter fun item => decide (item ∉ underWay)).length

theorem room_lt {underWay entered : List Item} {item : Item} (member : item ∈ config.items)
    (outside : item ∉ underWay)
    (entering : ∀ other, other ∈ entered ↔ other ∈ underWay ∨ other = item) :
    config.room entered < config.room underWay := by
  have less : config.items.filter (fun item => decide (item ∉ entered)) =
      (config.items.filter fun item => decide (item ∉ underWay)).filter
        fun item => decide (item ∉ entered) := by
    rw [List.filter_filter]
    refine List.filter_congr fun other _ => ?_
    simp only [entering, not_or, Bool.decide_and]
    cases decide (other ∉ underWay) <;> simp
  unfold room
  rw [less]
  refine List.length_filter_lt_length_iff_exists.mpr ⟨item, ?_, ?_⟩
  · exact List.mem_filter.mpr ⟨member, decide_eq_true outside⟩
  · simp [entering]

theorem room_lt_depthLimit (underWay : List Item) :
    config.room underWay < Resolver.depthLimit config.log := by
  have most : config.room underWay ≤ config.items.length := List.length_filter_le _ _
  have references := List.length_filterMap_le
    (fun target => (config.target? target).map Item.node)
    (config.log.values.flatMap Expr.references)
  unfold items at most
  rw [List.length_append, List.length_map] at most
  unfold Resolver.depthLimit
  omega

theorem Known.of_covers {e part : Expr} (known : config.Known e) (covers : e.Covers part) :
    config.Known part :=
  fun _ member => known (covers.2 member)

theorem known_of_governing? {key : NodeKey} {param : String} {e : Expr}
    (governed : config.governing? key param = some e) : config.Known e :=
  fun _ member =>
    List.mem_flatMap.mpr ⟨e, Log.mem_values_of_governing? governed, member⟩

theorem known_of_definition? {name : String} {e : Expr}
    (defined : config.definition? name = some e) : config.Known e :=
  fun _ member =>
    List.mem_flatMap.mpr ⟨e, Log.mem_values_of_definition? defined, member⟩

theorem Known.target_mem_items {target : Reference} {span : Span} {key : NodeKey}
    (known : config.Known (.reference target span)) (named : config.target? target = some key) :
    .node key ∈ config.items := by
  refine List.mem_append_left _ (List.mem_filterMap.mpr ⟨target, ?_, ?_⟩)
  · exact known (List.mem_singleton_self target)
  · rw [named]
    rfl

theorem Replayed.macro_mem_items (replayed : config.Replayed) {name : String} {e : Expr}
    (defined : config.definition? name = some e) : .macroDef name ∈ config.items := by
  rw [← replayed.macro?_value] at defined
  obtain ⟨event, found, _⟩ := Option.map_eq_some_iff.mp defined
  unfold Log.macro? at found
  cases indexed : Entries.get? name config.log.macroIndex with
  | none =>
    rw [indexed] at found
    cases found
  | some number =>
    refine List.mem_append_right _ (List.mem_map.mpr ⟨(name, number), ?_, rfl⟩)
    exact Entries.mem_of_get? indexed

theorem Replayed.room_enter_definition (replayed : config.Replayed) {name : String} {e : Expr}
    (defined : config.definition? name = some e) (pending : List NodeKey) {macros : List String}
    (fresh : name ∉ macros) :
    config.room (Item.underWay pending (macros ++ [name])) <
      config.room (Item.underWay pending macros) :=
  room_lt (replayed.macro_mem_items defined) (by simpa using fresh)
    fun _ => Item.mem_underWay_macroDef

theorem Known.room_enter_node {target : Reference} {span : Span} {key : NodeKey}
    (known : config.Known (.reference target span)) (named : config.target? target = some key)
    {pending : List NodeKey} (macros : List String) (fresh : key ∉ pending) :
    config.room (Item.underWay (pending ++ [key]) macros) <
      config.room (Item.underWay pending macros) :=
  room_lt (known.target_mem_items named) (by simpa using fresh) fun _ => Item.mem_underWay_node

end Config

end ConfigBinding
