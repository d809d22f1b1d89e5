import ConfigBinding.Proofs.Denotation
import Mathlib.Logic.Relation

/-!
# What depends on what

A node depends on every macro and every node that is mentioned anywhere in the values that govern
its parameters, and a macro on those mentioned anywhere in its last definition.

Results:
1. `Denotes.grounded`, `Built.grounded`: what means something depends on nothing without end.
2. `Config.Grounded.no_cycle`: what depends on nothing without end does not reach a cycle.
-/

namespace ConfigBinding

/-! ## Chains that end -/

section

variable {α : Type} {r : α → α → Prop} {a b : α}

theorem acc_of_reaches (ends : Acc (fun next a => r a next) a)
    (reaches : Relation.ReflTransGen r a b) : Acc (fun next a => r a next) b := by
  induction reaches with
  | refl => exact ends
  | tail _ step ih => exact ih.inv step

/-- The induction is on what comes after `a`: a cycle through it goes on from the first of them and
comes back to it. -/
theorem not_transGen_of_acc (ends : Acc (fun next a => r a next) a) :
    ¬ Relation.TransGen r a a := by
  induction ends with
  | intro a _ ih =>
    intro cycle
    obtain ⟨next, step, back⟩ := Relation.TransGen.head'_iff.mp cycle
    exact ih next step (Relation.TransGen.tail' back step)

end

/-! ## Items -/

/-- What a value can depend on. -/
inductive Item
  | node (key : NodeKey)
  | macroDef (name : String)
deriving DecidableEq

namespace Expr

/-- All that `part` mentions is mentioned in `e`. -/
def Covers (e part : Expr) : Prop :=
  part.macroRefs ⊆ e.macroRefs ∧ part.references ⊆ e.references

theorem Covers.refl (e : Expr) : e.Covers e := ⟨fun _ => id, fun _ => id⟩

theorem Covers.trans {e part piece : Expr} (outer : e.Covers part) (inner : part.Covers piece) :
    e.Covers piece :=
  ⟨fun _ member => outer.1 (inner.1 member), fun _ member => outer.2 (inner.2 member)⟩

theorem covers_item_of_list {items : List Expr} {item : Expr} (span : Span)
    (member : item ∈ items) : (Expr.list items span).Covers item := by
  constructor
  · intro mention inItem
    rw [macroRefs, macroRefsOfItems_eq]
    exact List.mem_flatMap.mpr ⟨item, member, inItem⟩
  · intro target inItem
    rw [references, referencesOfItems_eq]
    exact List.mem_flatMap.mpr ⟨item, member, inItem⟩

theorem covers_item_of_tuple {items : List Expr} {item : Expr} (span : Span)
    (member : item ∈ items) : (Expr.tuple items span).Covers item :=
  covers_item_of_list span member

theorem covers_value_of_map {entries : List (String × Expr)} {entry : String × Expr} (span : Span)
    (member : entry ∈ entries) : (Expr.map entries span).Covers entry.2 := by
  constructor
  · intro mention inEntry
    rw [macroRefs, macroRefsOfEntries_eq]
    exact List.mem_flatMap.mpr ⟨entry, member, inEntry⟩
  · intro target inEntry
    rw [references, referencesOfEntries_eq]
    exact List.mem_flatMap.mpr ⟨entry, member, inEntry⟩

end Expr

namespace Config

/-- The expression mentions the macro, or a reference to the node, at any depth. -/
def Mentions (config : Config) (e : Expr) : Item → Prop
  | .node key => ∃ target ∈ e.references, config.target? target = some key
  | .macroDef name => ∃ mention ∈ e.macroRefs, mention.1.toText = name

/-- One item depends directly on another. -/
inductive Depends (config : Config) : Item → Item → Prop
  | param {key : NodeKey} {owner : Registration} {param : Param} {e : Expr} {item : Item} :
      config.owner? key = some owner → param ∈ owner.params →
      config.governing? key param.name = some e → config.Mentions e item →
      Depends config (.node key) item
  | definition {name : String} {e : Expr} {item : Item} :
      config.definition? name = some e → config.Mentions e item →
      Depends config (.macroDef name) item

/-- A cycle of dependencies can be reached from the item. -/
def CycleFrom (config : Config) (item : Item) : Prop :=
  ∃ other, Relation.ReflTransGen config.Depends item other ∧
    Relation.TransGen config.Depends other other

/-- No chain of dependencies from the item goes on without end. -/
def Grounded (config : Config) (item : Item) : Prop :=
  Acc (fun dependency dependent => config.Depends dependent dependency) item

variable {config : Config}

theorem Mentions.of_covers {e part : Expr} {item : Item} (mentions : config.Mentions part item)
    (covers : e.Covers part) : config.Mentions e item := by
  cases item with
  | node key =>
    obtain ⟨target, member, named⟩ := mentions
    exact ⟨target, covers.2 member, named⟩
  | macroDef name =>
    obtain ⟨mention, member, spelled⟩ := mentions
    exact ⟨mention, covers.1 member, spelled⟩

theorem Mentions.in_list {items : List Expr} {span : Span} {item : Item}
    (mentions : config.Mentions (.list items span) item) :
    ∃ part ∈ items, config.Mentions part item := by
  cases item with
  | node key =>
    obtain ⟨target, member, named⟩ := mentions
    rw [Expr.references, Expr.referencesOfItems_eq] at member
    obtain ⟨part, inItems, member⟩ := List.mem_flatMap.mp member
    exact ⟨part, inItems, target, member, named⟩
  | macroDef name =>
    obtain ⟨mention, member, spelled⟩ := mentions
    rw [Expr.macroRefs, Expr.macroRefsOfItems_eq] at member
    obtain ⟨part, inItems, member⟩ := List.mem_flatMap.mp member
    exact ⟨part, inItems, mention, member, spelled⟩

theorem Mentions.in_tuple {items : List Expr} {span : Span} {item : Item}
    (mentions : config.Mentions (.tuple items span) item) :
    ∃ part ∈ items, config.Mentions part item := by
  have inList : config.Mentions (.list items span) item := by
    cases item <;> exact mentions
  exact inList.in_list

theorem Mentions.in_map {entries : List (String × Expr)} {span : Span} {item : Item}
    (mentions : config.Mentions (.map entries span) item) :
    ∃ entry ∈ entries, config.Mentions entry.2 item := by
  cases item with
  | node key =>
    obtain ⟨target, member, named⟩ := mentions
    rw [Expr.references, Expr.referencesOfEntries_eq] at member
    obtain ⟨entry, inEntries, member⟩ := List.mem_flatMap.mp member
    exact ⟨entry, inEntries, target, member, named⟩
  | macroDef name =>
    obtain ⟨mention, member, spelled⟩ := mentions
    rw [Expr.macroRefs, Expr.macroRefsOfEntries_eq] at member
    obtain ⟨entry, inEntries, member⟩ := List.mem_flatMap.mp member
    exact ⟨entry, inEntries, mention, member, spelled⟩

theorem mentions_macroRef {name : DottedName} {span : Span} {item : Item}
    (mentions : config.Mentions (.macroRef name span) item) : item = .macroDef name.toText := by
  cases item with
  | node key =>
    obtain ⟨target, member, _⟩ := mentions
    cases member
  | macroDef text =>
    obtain ⟨mention, member, rfl⟩ := mentions
    rw [Expr.macroRefs] at member
    split at member
    · cases member
    · rw [List.mem_singleton.mp member]

theorem mentions_reference {target : Reference} {span : Span} {item : Item}
    (mentions : config.Mentions (.reference target span) item) :
    ∃ key, item = .node key ∧ config.target? target = some key := by
  cases item with
  | node key =>
    obtain ⟨other, member, named⟩ := mentions
    rw [List.mem_singleton.mp member] at named
    exact ⟨key, rfl, named⟩
  | macroDef text =>
    obtain ⟨mention, member, _⟩ := mentions
    cases member

theorem mentions_self_macroRef {name : DottedName} (span : Span)
    (ordinary : name ≠ Expr.requiredMacro) :
    config.Mentions (.macroRef name span) (.macroDef name.toText) := by
  refine ⟨(name, span), ?_, rfl⟩
  rw [Expr.macroRefs, if_neg ordinary]
  exact List.mem_singleton_self _

theorem mentions_self_reference {target : Reference} {key : NodeKey} (span : Span)
    (named : config.target? target = some key) :
    config.Mentions (.reference target span) (.node key) :=
  ⟨target, List.mem_singleton_self target, named⟩

/-! ## Cycles -/

theorem CycleFrom.of_cycle {item : Item} (cycle : Relation.TransGen config.Depends item item) :
    config.CycleFrom item :=
  ⟨item, .refl, cycle⟩

theorem CycleFrom.of_depends {item next : Item} (depends : config.Depends item next)
    (from_next : config.CycleFrom next) : config.CycleFrom item := by
  obtain ⟨other, reaches, cycle⟩ := from_next
  exact ⟨other, .head depends reaches, cycle⟩

theorem Grounded.of_reaches {item other : Item} (grounded : config.Grounded item)
    (reaches : Relation.ReflTransGen config.Depends item other) : config.Grounded other :=
  acc_of_reaches grounded reaches

theorem Grounded.irrefl {item : Item} (grounded : config.Grounded item) :
    ¬ Relation.TransGen config.Depends item item :=
  not_transGen_of_acc grounded

theorem Grounded.no_cycle {item : Item} (grounded : config.Grounded item) :
    ¬ config.CycleFrom item := by
  rintro ⟨other, reaches, cycle⟩
  exact (grounded.of_reaches reaches).irrefl cycle

end Config

/-! ## Meaning and dependency -/

theorem exists_mem_zip {α β : Type} {as : List α} {bs : List β} (sameLength : as.length = bs.length)
    {a : α} (member : a ∈ as) : ∃ b, (a, b) ∈ as.zip bs := by
  rw [← List.map_fst_zip (Nat.le_of_eq sameLength)] at member
  obtain ⟨pair, inZip, rfl⟩ := List.mem_map.mp member
  exact ⟨pair.2, inZip⟩

variable {config : Config}

/-- The dependencies of a meaning are those of the meanings on which it rests. -/
theorem Denotes.grounded {e : Expr} {value : Value} (denotes : Denotes config e value)
    {item : Item} (mentions : config.Mentions e item) : config.Grounded item := by
  induction denotes generalizing item with
  | literal value span =>
    cases item with
    | node key =>
      obtain ⟨target, member, _⟩ := mentions
      cases member
    | macroDef name =>
      obtain ⟨mention, member, _⟩ := mentions
      cases member
  | list span sameLength _ ih =>
    obtain ⟨part, member, mentions⟩ := mentions.in_list
    obtain ⟨value, inZip⟩ := exists_mem_zip sameLength member
    exact ih part value inZip mentions
  | tuple span sameLength _ ih =>
    obtain ⟨part, member, mentions⟩ := mentions.in_tuple
    obtain ⟨value, inZip⟩ := exists_mem_zip sameLength member
    exact ih part value inZip mentions
  | map span sameLength _ _ ih =>
    obtain ⟨entry, member, mentions⟩ := mentions.in_map
    obtain ⟨pair, inZip⟩ := exists_mem_zip sameLength member
    exact ih entry pair inZip mentions
  | macroRef span _ defined _ ih =>
    obtain rfl := Config.mentions_macroRef mentions
    refine .intro _ fun dependency depends => ?_
    cases depends with
    | definition otherDefined mentions =>
      obtain rfl := Option.some.inj (defined.symm.trans otherDefined)
      exact ih mentions
  | reference span named owned sameLength _ _ _ ih =>
    obtain ⟨key, rfl, otherNamed⟩ := Config.mentions_reference mentions
    obtain rfl := Option.some.inj (named.symm.trans otherNamed)
    refine .intro _ fun dependency depends => ?_
    cases depends with
    | param otherOwned member governed mentions =>
      obtain rfl := Option.some.inj (owned.symm.trans otherOwned)
      obtain ⟨entry, inZip⟩ := exists_mem_zip sameLength member
      exact ih _ entry _ inZip governed mentions

theorem Built.grounded {node : Node} (built : Built config node) :
    config.Grounded (.node node.key) := by
  obtain ⟨owner, owned, params, _⟩ := built
  refine .intro _ fun dependency depends => ?_
  cases depends with
  | param otherOwned member governed mentions =>
    obtain rfl := Option.some.inj (owned.symm.trans otherOwned)
    obtain ⟨sameLength, fills⟩ := List.forall₂_iff_zip.mp params
    obtain ⟨entry, inZip⟩ := exists_mem_zip sameLength member
    obtain ⟨_, _, has⟩ := fills inZip
    rw [HasValue, governed] at has
    exact Denotes.grounded has mentions

end ConfigBinding
