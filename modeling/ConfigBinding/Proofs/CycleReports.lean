import ConfigBinding.Proofs.Cycles
import ConfigBinding.Proofs.Runs
import Mathlib.Data.List.Chain

/-!
# What the report of a cycle says

Nodes that are being constructed and macros that are being expanded stand in two lists, and a report
is cut out of the one in which the repeated item stands. What is under way between two entries but
stands in the other list is left out of it. So a node in a report leads to the next one through
macros, and a macro to the next one through nodes.

Results:
1. `Stage.Enters.trails`: a step of the evaluation continues both lists.
2. `Resolver.reported_cycle`: a report goes round a cycle of dependencies.
3. `Resolver.reported_macros_skip_nodes`: a macro in a report need not mention the next one.
-/

namespace ConfigBinding

namespace Item

def IsNode : Item → Prop
  | node _ => True
  | macroDef _ => False

def IsMacro : Item → Prop
  | node _ => False
  | macroDef _ => True

end Item

namespace Config

/-- `config.Leads through item next`: `item` depends on `next`, or on an item of the kind `through`
that in turn leads there through items of this kind.

* Through macros: a value that governs a parameter of the node `item` mentions `next` once all
  macros are replaced by their last definitions.
* Through nodes: the last definition of the macro `item` mentions `next`, or a node from which
  references alone lead to a node with a parameter whose value mentions `next`. -/
inductive Leads (config : Config) (through : Item → Prop) (item : Item) : Item → Prop
  | direct {next : Item} : config.Depends item next → Leads config through item next
  | on {middle next : Item} :
      Leads config through item middle → through middle → config.Depends middle next →
      Leads config through item next

end Config

/-- The list goes along links from an entry back to it. -/
structure ClosedWalk {κ : Type} (link : κ → κ → Prop) (chain : List κ) : Prop where
  length : 2 ≤ chain.length
  closed : chain.head? = chain.getLast?
  linked : chain.IsChain link

/-- The names are those of a cycle of nodes, each of which leads to the next one through macros, or
of a cycle of macros, each of which leads to the next one through nodes. -/
inductive Config.NamesCycle (config : Config) : List String → Prop
  | nodes {keys : List NodeKey} :
      ClosedWalk (fun key next => config.Leads Item.IsMacro (.node key) (.node next)) keys →
      NamesCycle config (keys.map NodeKey.toText)
  | macros {names : List String} :
      ClosedWalk (fun name next => config.Leads Item.IsNode (.macroDef name) (.macroDef next))
        names →
      NamesCycle config (names.map ("%" ++ ·))

/-! ## Trails -/

theorem Resolver.cycle_of_mem {κ : Type} [DecidableEq κ] {item : κ} {stack : List κ}
    (member : item ∈ stack) :
    ∃ before behind, stack = before ++ item :: behind ∧
      cycle item stack = item :: behind ++ [item] := by
  unfold cycle
  induction stack with
  | nil => cases member
  | cons head stack ih =>
    by_cases same : head = item
    · subst same
      exact ⟨[], stack, rfl, by simp⟩
    · obtain ⟨before, behind, rfl, cut⟩ :=
        ih (List.mem_of_ne_of_mem (fun found => same found.symm) member)
      exact ⟨head :: before, behind, rfl, by simpa [same] using cut⟩

/-- The entries of a list of what is under way lead to each other, and the last one leads to all
that the expression mentions. -/
structure Trail (config : Config) (through : Item → Prop) {κ : Type} (wrap : κ → Item)
    (stack : List κ) (e : Expr) : Prop where
  linked : stack.IsChain fun item next => config.Leads through (wrap item) (wrap next)
  ahead : ∀ last ∈ stack.getLast?, ∀ item, config.Mentions e item →
    config.Leads through (wrap last) item

namespace Trail

variable {config : Config} {through : Item → Prop} {κ : Type} {wrap : κ → Item} {stack : List κ}
  {e body : Expr}

theorem empty : Trail config through wrap [] e where
  linked := .nil
  ahead _ member := nomatch member

/-- An item of the list's own kind is entered: it becomes the last entry. -/
theorem enter (trail : Trail config through wrap stack e) {next : κ}
    (mentions : config.Mentions e (wrap next))
    (depends : ∀ item, config.Mentions body item → config.Depends (wrap next) item) :
    Trail config through wrap (stack ++ [next]) body where
  linked := by
    refine trail.linked.append (.singleton next) fun last isLast head isHead => ?_
    obtain rfl : next = head := by simpa using isHead
    exact trail.ahead last isLast _ mentions
  ahead last isLast item inside := by
    obtain rfl : next = last := by simpa using isLast
    exact .direct (depends item inside)

/-- An item of the other kind is entered: the last entry leads through it. -/
theorem pass (trail : Trail config through wrap stack e) {middle : Item}
    (mentions : config.Mentions e middle) (other : through middle)
    (depends : ∀ item, config.Mentions body item → config.Depends middle item) :
    Trail config through wrap stack body where
  linked := trail.linked
  ahead last isLast item inside :=
    .on (trail.ahead last isLast _ mentions) other (depends item inside)

/-- An entry is mentioned once more: from there on the list goes round. -/
theorem closedWalk [DecidableEq κ] (trail : Trail config through wrap stack e) {next : κ}
    (mentions : config.Mentions e (wrap next)) (member : next ∈ stack) :
    ClosedWalk (fun item next => config.Leads through (wrap item) (wrap next))
      (Resolver.cycle next stack) := by
  obtain ⟨before, behind, rfl, cut⟩ := Resolver.cycle_of_mem member
  rw [cut]
  refine ⟨by simp, by simp [List.getLast?_cons], ?_⟩
  refine trail.linked.right_of_append.append (.singleton next) fun last isLast head isHead => ?_
  obtain rfl : next = head := by simpa using isHead
  exact trail.ahead last (by simpa using isLast) _ mentions

end Trail

/-! ## Along an evaluation -/

namespace Stage

variable {config : Config} {stage next : Stage}

/-- Both lists of what is under way are trails that lead to the expression. -/
structure Trails (config : Config) (stage : Stage) : Prop where
  nodes : Trail config Item.IsMacro Item.node stage.pending stage.e
  macros : Trail config Item.IsNode Item.macroDef stage.macros stage.e

theorem trails_root (config : Config) (key : NodeKey) : (root key).Trails config :=
  ⟨.empty, .empty⟩

/-- What is entered continues the list of its own kind, and the other list leads through it. -/
theorem Enters.trails (enters : Enters config stage next) (trails : stage.Trails config) :
    next.Trails config := by
  cases enters with
  | definition mentions _ defined =>
    have depends (item : Item) (inside : config.Mentions _ item) : config.Depends _ item :=
      .definition defined inside
    exact ⟨trails.nodes.pass mentions trivial depends, trails.macros.enter mentions depends⟩
  | param mentions _ owned member governed =>
    have depends (item : Item) (inside : config.Mentions _ item) : config.Depends _ item :=
      .param owned member governed inside
    exact ⟨trails.nodes.enter mentions depends, trails.macros.pass mentions trivial depends⟩

theorem Reaches.trails (reaches : Reaches config stage next) (trails : stage.Trails config) :
    next.Trails config := by
  induction reaches with
  | refl => exact trails
  | tail _ enters ih => exact enters.trails ih

theorem Meets.namesCycle {chain : List String} (meets : Meets config stage chain)
    (trails : stage.Trails config) : config.NamesCycle chain := by
  cases meets with
  | macroDef mentions expanding => exact .macros (trails.macros.closedWalk mentions expanding)
  | node mentions constructing => exact .nodes (trails.nodes.closedWalk mentions constructing)

end Stage

namespace Resolver

variable {config : Config}

/-- A call that reports a cycle, whatever calls were made before, names at least two entries, the
first again as the last, that go round a cycle: nodes that lead to each other through macros, or
macros that lead to each other through nodes. -/
theorem reported_cycle (loaded : config.Loaded) (calls : List (Scope × DottedName)) {scope : Scope}
    {symbol : DottedName} {chain : List String}
    (failed : ((after config calls).resolve config scope symbol).result =
      .error (.cyclicReference chain)) :
    config.NamesCycle chain := by
  have sound := sound_after loaded calls
  rw [sound.result_eq loaded (.cyclicReference []) (Nat.le_refl _)] at failed
  obtain ⟨registration, _, _, last, reaches, meets⟩ :=
    Uncached.meets_of_resolve loaded failed (Nat.le_refl _)
  exact meets.namesCycle (reaches.trails (Stage.trails_root config _))

end Resolver

/-- A box whose content is a macro, with a loop on the way round: `%n` makes the loop, the loop
takes `%m`, and that is `%n` again. -/
def Config.detour : Config :=
  .ofBindings .sample
    ["n = 1", "m = %n", "n = @Loop()", "Loop.next = %m", "Box.content = %n"]

theorem Config.loaded_detour : Config.detour.Loaded :=
  loaded_ofBindings (by decide +kernel)

namespace Resolver

theorem reported_cycle_detour :
    ((after .detour []).resolve .detour ⟨[]⟩ ⟨["Box"]⟩).result.map (fun _ => ()) =
        .error (.cyclicReference ["%n", "%m", "%n"]) ∧
      Config.detour.NamesCycle ["%n", "%m", "%n"] := by
  have failed : ((after .detour []).resolve .detour ⟨[]⟩ ⟨["Box"]⟩).result.map (fun _ => ()) =
      .error (.cyclicReference ["%n", "%m", "%n"]) := by decide +kernel
  refine ⟨failed, ?_⟩
  cases ended : ((after .detour []).resolve .detour ⟨[]⟩ ⟨["Box"]⟩).result with
  | ok node =>
    rw [ended] at failed
    cases failed
  | error error =>
    rw [ended] at failed
    cases failed
    exact reported_cycle Config.loaded_detour [] ended

/-- A macro in a report need not mention the next one: the loop between `%n` and `%m` is left out,
though the call for the loop itself names it. -/
theorem reported_macros_skip_nodes :
    ((after .detour []).resolve .detour ⟨[]⟩ ⟨["Box"]⟩).result.map (fun _ => ()) =
        .error (.cyclicReference ["%n", "%m", "%n"]) ∧
      ¬ Config.detour.Depends (.macroDef "n") (.macroDef "m") ∧
      ((after .detour []).resolve .detour ⟨[]⟩ ⟨["Loop"]⟩).result.map (fun _ => ()) =
        .error (.cyclicReference ["m.Loop", "m.Loop"]) := by
  refine ⟨by decide +kernel, ?_, by decide +kernel⟩
  have nothing : (Config.detour.definition? "n").map Expr.macroRefs = some [] := by decide +kernel
  intro depends
  cases depends with
  | definition defined mentions =>
    rw [defined] at nothing
    obtain ⟨mention, member, _⟩ := mentions
    rw [Option.some.inj nothing] at member
    cases member

end Resolver

end ConfigBinding
