import ConfigBinding.Proofs.Runs
import ConfigBinding.Proofs.SourceNumbers

/-!
# Configurations that agree

A node is decided by the values that govern the parameters of the nodes to which it leads, and by
the definitions of the macros to which it leads. Two configurations over one registry that agree
about these, apart from spans, give the node alike, whatever else they say.

Results:
1. `Denotes.of_agree`, `Built.of_agree`: what is said in one configuration is said in the other.
2. `Config.Agree.result`: what is resolved in one configuration is resolved in the other.
-/

namespace ConfigBinding

namespace Config

/-- About these items the configurations say the same, apart from spans. With an item, all that it
depends on is among them. -/
structure Agree (about : Item → Prop) (config other : Config) : Prop where
  registry : other.registry = config.registry
  governing : ∀ key param, about (.node key) →
    (other.governing? key param).map Expr.withoutSpans =
      (config.governing? key param).map Expr.withoutSpans
  definition : ∀ name, about (.macroDef name) →
    (other.definition? name).map Expr.withoutSpans =
      (config.definition? name).map Expr.withoutSpans
  closed : ∀ item next, about item → config.Depends item next → about next

variable {config other : Config} {about : Item → Prop}

theorem Agree.target? (agree : Agree about config other) (target : Reference) :
    other.target? target = config.target? target := by
  unfold Config.target?
  rw [agree.registry]

theorem Agree.owner? (agree : Agree about config other) (key : NodeKey) :
    other.owner? key = config.owner? key := by
  unfold Config.owner?
  rw [agree.registry]

end Config

/-! ## Expressions -/

theorem exists_of_map_eq_some {α β : Type} {f : α → β} {first second : Option α} {a : α}
    (same : first.map f = second.map f) (found : second = some a) :
    ∃ b, first = some b ∧ f b = f a := by
  rw [found] at same
  exact Option.map_eq_some_iff.mp same

variable {config other : Config} {about : Item → Prop}

/-- The other configuration says that whatever differs from the expression in spans alone means the
value. -/
def MeansAlike (other : Config) (e : Expr) (value : Value) : Prop :=
  ∀ same : Expr, same.withoutSpans = e.withoutSpans → Denotes other same value

theorem forall₂_of_meansAlike {items written : List Expr} {values : List Value}
    (sameLength : items.length = values.length)
    (each : ∀ item value, (item, value) ∈ items.zip values → MeansAlike other item value)
    (alike : written.map Expr.withoutSpans = items.map Expr.withoutSpans) :
    List.Forall₂ (Denotes other) written values :=
  forall₂_of_common (fun _ _ _ same means => means _ same.symm) (forall₂_of_map_eq alike.symm)
    (List.forall₂_iff_zip.mpr ⟨sameLength, fun member => each _ _ member⟩)

theorem forall₂_entry_of_meansAlike {entries written : List (String × Expr)}
    {pairs : List (String × Value)} (sameLength : entries.length = pairs.length)
    (names : ∀ entry pair, (entry, pair) ∈ entries.zip pairs → pair.1 = entry.1)
    (each : ∀ entry pair, (entry, pair) ∈ entries.zip pairs → MeansAlike other entry.2 pair.2)
    (alike : written.map (Prod.map id Expr.withoutSpans) =
      entries.map (Prod.map id Expr.withoutSpans)) :
    List.Forall₂ (Denotes.Entry other) written pairs := by
  have means : List.Forall₂ (fun entry pair => pair.1 = entry.1 ∧ MeansAlike other entry.2 pair.2)
      entries pairs :=
    List.forall₂_iff_zip.mpr ⟨sameLength, fun member => ⟨names _ _ member, each _ _ member⟩⟩
  refine forall₂_of_common ?_ (forall₂_of_map_eq alike.symm) means
  rintro entry one pair alike ⟨named, means⟩
  obtain ⟨sameKey, same⟩ := Prod.ext_iff.mp alike
  exact ⟨named.trans sameKey, means _ same.symm⟩

theorem FillsParam.of_agree (agree : config.Agree about other) {key : NodeKey} {param : Param}
    {entry : String × Value} (inside : about (.node key))
    (fills : FillsParam config key param entry)
    (means : ∀ e, config.governing? key param.name = some e → MeansAlike other e entry.2) :
    FillsParam other key param entry := by
  obtain ⟨named, accepted, has⟩ := fills
  refine ⟨named, accepted, ?_⟩
  have same := agree.governing key param.name inside
  unfold HasValue at has ⊢
  cases governed : config.governing? key param.name with
  | some e =>
    obtain ⟨written, found, alike⟩ := exists_of_map_eq_some same governed
    rw [found]
    exact means e governed written alike
  | none =>
    rw [governed] at same has
    rw [Option.map_eq_none_iff.mp same]
    exact has

/-- The node of a key is the same if the values that govern its parameters mean the same. -/
theorem Built.of_meansAlike (agree : config.Agree about other) {node : Node}
    (inside : about (.node node.key)) (built : Built config node)
    (means : ∀ owner, config.owner? node.key = some owner →
      ∀ param entry, (param, entry) ∈ owner.params.zip node.params.entries →
        ∀ e, config.governing? node.key param.name = some e → MeansAlike other e entry.2) :
    Built other node := by
  obtain ⟨owner, owned, params, made⟩ := built
  obtain ⟨sameLength, fills⟩ := List.forall₂_iff_zip.mp params
  refine ⟨owner, (agree.owner? node.key).trans owned, ?_, made⟩
  exact List.forall₂_iff_zip.mpr ⟨sameLength, fun member =>
    (fills member).of_agree agree inside (means owner owned _ _ member)⟩

/-- The induction is on what the meaning rests on. Whatever it rests on is among the items about
which the configurations agree, since these are closed under dependency. -/
theorem Denotes.of_agree (agree : config.Agree about other) {e : Expr} {value : Value}
    (denotes : Denotes config e value) (inside : ∀ item, config.Mentions e item → about item) :
    MeansAlike other e value := by
  induction denotes with
  | literal value span =>
    intro same alike
    cases same with
    | literal _ otherSpan =>
      cases alike
      exact .literal value otherSpan
    | _ => cases alike
  | @list items values span sameLength _ ih =>
    intro same alike
    cases same with
    | list written otherSpan =>
      rw [Expr.withoutSpans_list, Expr.withoutSpans_list] at alike
      injection alike with alike
      refine .list_of_forall₂ otherSpan (forall₂_of_meansAlike sameLength ?_ alike)
      intro item value member
      have covers := Expr.covers_item_of_list span (List.of_mem_zip member).1
      exact ih item value member fun next mentions => inside next (mentions.of_covers covers)
    | _ => cases alike
  | @tuple items values span sameLength _ ih =>
    intro same alike
    cases same with
    | tuple written otherSpan =>
      rw [Expr.withoutSpans_tuple, Expr.withoutSpans_tuple] at alike
      injection alike with alike
      refine .tuple_of_forall₂ otherSpan (forall₂_of_meansAlike sameLength ?_ alike)
      intro item value member
      have covers := Expr.covers_item_of_tuple span (List.of_mem_zip member).1
      exact ih item value member fun next mentions => inside next (mentions.of_covers covers)
    | _ => cases alike
  | @map entries pairs span sameLength names _ ih =>
    intro same alike
    cases same with
    | map written otherSpan =>
      rw [Expr.withoutSpans_map, Expr.withoutSpans_map] at alike
      injection alike with alike
      refine .map_of_forall₂ otherSpan (forall₂_entry_of_meansAlike sameLength names ?_ alike)
      intro entry pair member
      have covers := Expr.covers_value_of_map span (List.of_mem_zip member).1
      exact ih entry pair member fun next mentions => inside next (mentions.of_covers covers)
    | _ => cases alike
  | @macroRef name body value span ordinary defined _ ih =>
    intro same alike
    cases same with
    | macroRef _ otherSpan =>
      cases alike
      have about := inside _ (Config.mentions_self_macroRef span ordinary)
      obtain ⟨written, found, alike⟩ :=
        exists_of_map_eq_some (agree.definition name.toText about) defined
      refine .macroRef otherSpan ordinary found (ih ?_ written alike)
      exact fun item mentions => agree.closed _ _ about (.definition defined mentions)
    | _ => cases alike
  | @reference target owner node span named owned sameLength shapes meanings made ih =>
    intro same alike
    cases same with
    | reference _ otherSpan =>
      cases alike
      have about := inside _ (Config.mentions_self_reference span named)
      have built : Built config node :=
        ⟨owner, owned, Denotes.forall₂_fillsParam sameLength shapes meanings, made⟩
      refine .reference_of_built otherSpan ((agree.target? target).trans named)
        (built.of_meansAlike agree about ?_)
      intro other otherOwned param entry member e governed
      obtain rfl := Option.some.inj (owned.symm.trans otherOwned)
      refine ih param entry e member governed fun item mentions => ?_
      exact agree.closed _ _ about (.param owned (List.of_mem_zip member).1 governed mentions)
    | _ => cases alike

/-- A key stands for the same node in configurations that agree about it. -/
theorem Built.of_agree (agree : config.Agree about other) {node : Node}
    (inside : about (.node node.key)) (built : Built config node) : Built other node := by
  refine built.of_meansAlike agree inside ?_
  intro owner owned param entry member e governed
  obtain ⟨otherOwner, otherOwned, params, _⟩ := built
  obtain rfl := Option.some.inj (owned.symm.trans otherOwned)
  obtain ⟨_, _, has⟩ := (List.forall₂_iff_zip.mp params).2 member
  rw [HasValue, governed] at has
  refine Denotes.of_agree agree has fun item mentions => ?_
  exact agree.closed _ _ inside (.param owned (List.of_mem_zip member).1 governed mentions)

/-! ## Calls -/

/-- A node that is resolved in one configuration is resolved in another that agrees about it,
whatever calls were made before in either. -/
theorem Config.Agree.result (agree : config.Agree about other) (replayed : config.Replayed)
    (otherReplayed : other.Replayed) {calls otherCalls : List (Scope × DottedName)} {scope : Scope}
    {symbol : DottedName} {node : Node} (inside : about (.node node.key))
    (run : ((Resolver.after config calls).resolve config scope symbol).result = .ok node) :
    ((Resolver.after other otherCalls).resolve other scope symbol).result = .ok node := by
  have sound := Resolver.sound_after_of_replayed replayed calls
  have otherSound := Resolver.sound_after_of_replayed otherReplayed otherCalls
  obtain ⟨registration, found, keyed, built⟩ := (sound.result_eq_ok_iff replayed).mp run
  rw [← agree.registry] at found
  exact (otherSound.result_eq_ok_iff otherReplayed).mpr
    ⟨registration, found, keyed, built.of_agree agree inside⟩

end ConfigBinding
