import ConfigBinding.Proofs.Additions
import ConfigBinding.Proofs.Runs

/-!
# Constructor calls

When constructors are called over any calls of a resolver, of which some fail. What a failing call
constructed is taken back, so a later call may construct it once more; the calls of its constructors
remain in the record.

Results:
1. `Resolver.resolve_error_resolver`: a call that fails leaves the resolver as it was.
2. `Resolver.cachedBy_unique`: each node that remains was cached by one call.
3. `Resolver.constructor_calls`: that call called the node's constructor once, with the parameters
   that the node has and after the constructors of all nodes that these refer to, and never called
   the constructor of a node that was there. If all calls succeed, no constructor is called twice
   for one key.
-/

namespace ConfigBinding

/-- The configurable of the key has a constructor. -/
def Config.Constructs (config : Config) (key : NodeKey) : Prop :=
  ∃ owner, config.owner? key = some owner ∧ owner.constructor?.isSome = true

theorem Config.Constructs.call? {config : Config} {node : Node}
    (constructs : config.Constructs node.key) :
    node.call? config.registry = some ⟨node.key, node.params⟩ := by
  obtain ⟨owner, owned, constructor⟩ := constructs
  unfold Node.call?
  rw [Config.lookup_of_owner? owned]
  exact if_pos constructor

/-- The calls that constructed nodes are for the keys of these nodes, in order. -/
theorem Node.keys_of_calls (registry : Registry) (nodes : List Node) :
    ((nodes.filterMap (Node.call? registry)).map Call.key).Sublist (nodes.map Node.key) := by
  induction nodes with
  | nil => exact .slnil
  | cons node nodes ih =>
    rw [List.filterMap_cons]
    cases made : node.call? registry with
    | none => exact ih.cons _
    | some call =>
      rw [Node.call?_eq_some made]
      exact ih.cons_cons _

/-! ## An example -/

/-- A leaf, a box and a pair, each with a constructor. -/
def Registry.workshop : Registry where
  entries := [
    ⟨⟨["m", "Leaf"]⟩, [⟨"size", some (.int 2), .scalar⟩],
      some fun params => (params.int "size").map fun size => toString size.toInt⟩,
    ⟨⟨["m", "Box"]⟩, [⟨"content", none, .reference⟩], some fun _ => .ok "box"⟩,
    ⟨⟨["m", "Pair"]⟩, [⟨"first", none, .reference⟩, ⟨"second", none, .reference⟩],
      some fun _ => .ok "pair"⟩]

/-- A leaf in a box, and a pair of the box and a number, which is no configurable. -/
def Config.workshop : Config :=
  .ofBindings .workshop ["n = 3", "a/Leaf.size = %n", "Box.content = @a/b/Leaf()",
    "Pair.first = @Box()", "Pair.second = %n"]

theorem Config.loaded_workshop : Config.workshop.Loaded :=
  loaded_ofBindings (by decide +kernel)

namespace Adds

variable {registry : Registry} {before after : Progress} {added : List Node}
  {failed : Option Call}

/-- If the cache has each key once, so have the calls, and none of them is for a key that was there
before. -/
theorem calls_fresh (adds : Adds registry before after added failed) (start : before.calls = [])
    (nodup : (after.cache.map Node.key).Nodup) :
    (after.calls.map Call.key).Nodup ∧
      ∀ call ∈ after.calls, call.key ∉ before.cache.map Node.key := by
  have madeKeys := Node.keys_of_calls registry added
  rw [adds.cache_eq, List.map_append, List.nodup_append] at nodup
  obtain ⟨_, addedNodup, apart⟩ := nodup
  have outside {key : NodeKey} (new : key ∈ added.map Node.key ∨
      key ∉ after.cache.map Node.key) : key ∉ before.cache.map Node.key := by
    intro old
    rcases new with new | absent
    · exact apart key old key new rfl
    · rw [adds.cache_eq, List.map_append] at absent
      exact absent (List.mem_append_left _ old)
  rw [adds.calls_eq, start, List.nil_append]
  constructor
  · rw [List.map_append, List.nodup_append]
    refine ⟨madeKeys.nodup addedNodup, ?_, ?_⟩
    · cases failed <;> simp
    · rintro key made other inFailed rfl
      obtain ⟨call, member, rfl⟩ := List.mem_map.mp inFailed
      have absent := adds.failed_fresh call (Option.mem_toList.mp member)
      rw [adds.cache_eq, List.map_append] at absent
      exact absent (List.mem_append_right _ (madeKeys.subset made))
  · intro call member
    rcases List.mem_append.mp member with made | inFailed
    · exact outside (.inl (madeKeys.subset (List.mem_map_of_mem made)))
    · exact outside (.inr (adds.failed_fresh call (Option.mem_toList.mp inFailed)))

end Adds

namespace Resolver

variable {config : Config}

/-! ## Failing calls -/

/-- Nothing is under way. -/
structure Idle (resolver : Resolver) : Prop where
  pending_eq : resolver.pending = []
  macros_eq : resolver.macros = []

/-- A call that succeeds adds nodes and calls their constructors. -/
theorem Idle.adds_of_ok {resolver : Resolver} (idle : resolver.Idle) {scope : Scope}
    {symbol : DottedName} {node : Node}
    (done : (resolver.resolve config scope symbol).result = .ok node) :
    (resolver.resolve config scope symbol).resolver.Idle ∧
      ∃ added, (resolver.resolve config scope symbol).resolver.cache = resolver.cache ++ added ∧
        (resolver.resolve config scope symbol).calls =
          added.filterMap (Node.call? config.registry) := by
  obtain ⟨registration, progress, _, run, same⟩ := resolve_of_ok done
  have adds := onlyAdds_resolveNode config ⟨scope, registration.name⟩ resolver.progress
  rw [run] at adds
  obtain ⟨added, adds, pendingEq, macrosEq⟩ := adds
  rw [same]
  have calls : progress.calls = [] ++ added.filterMap (Node.call? config.registry) ++ [] :=
    adds.calls_eq
  exact ⟨⟨pendingEq.trans idle.pending_eq, macrosEq.trans idle.macros_eq⟩, added, adds.cache_eq,
    by simpa using calls⟩

/-- A call that fails is taken back as a whole. -/
theorem Idle.eq_of_error {resolver : Resolver} (idle : resolver.Idle) {scope : Scope}
    {symbol : DottedName} {error : ConfigError}
    (failed : (resolver.resolve config scope symbol).result = .error error) :
    (resolver.resolve config scope symbol).resolver = resolver := by
  obtain same | ⟨registration, progress, _, run, same⟩ := resolve_of_error failed
  · rw [same]
  · have adds := onlyAdds_resolveNode config ⟨scope, registration.name⟩ resolver.progress
    rw [run] at adds
    obtain ⟨added, _, adds⟩ := adds
    rw [same]
    exact rollBack_eq idle.pending_eq idle.macros_eq adds.cache_eq

theorem Idle.resolve {resolver : Resolver} (idle : resolver.Idle) (scope : Scope)
    (symbol : DottedName) : (resolver.resolve config scope symbol).resolver.Idle := by
  cases ended : (resolver.resolve config scope symbol).result with
  | ok node => exact (idle.adds_of_ok ended).1
  | error error =>
    rw [idle.eq_of_error ended]
    exact idle

theorem after_concat (config : Config) (calls : List (Scope × DottedName)) (scope : Scope)
    (symbol : DottedName) :
    after config (calls ++ [(scope, symbol)]) =
      ((after config calls).resolve config scope symbol).resolver := by
  unfold after
  rw [List.foldl_append]
  rfl

theorem idle_after (config : Config) (calls : List (Scope × DottedName)) :
    (after config calls).Idle := by
  induction calls using List.reverseRecOn with
  | nil => exact ⟨rfl, rfl⟩
  | append_singleton calls call ih =>
    rw [after_concat]
    exact ih.resolve call.1 call.2

/-- A call that fails, for whatever reason and however deep, leaves the resolver as it was: with the
same nodes in the same order, the same roots, and nothing under way. -/
theorem resolve_error_resolver (config : Config) (calls : List (Scope × DottedName))
    (scope : Scope) (symbol : DottedName) {error : ConfigError}
    (failed : ((after config calls).resolve config scope symbol).result = .error error) :
    ((after config calls).resolve config scope symbol).resolver = after config calls ∧
      (after config calls).pending = [] ∧ (after config calls).macros = [] :=
  have idle := idle_after config calls
  ⟨idle.eq_of_error failed, idle.pending_eq, idle.macros_eq⟩

/-- The pair cannot be made after the box in it was. -/
theorem resolve_error_resolver_workshop :
    ((after .workshop [(⟨["a", "b"]⟩, ⟨["Leaf"]⟩)]).resolve .workshop ⟨[]⟩
        ⟨["Pair"]⟩).calls.map Call.key = [⟨⟨[]⟩, ⟨["m", "Box"]⟩⟩] ∧
      ((after .workshop [(⟨["a", "b"]⟩, ⟨["Leaf"]⟩)]).resolve .workshop ⟨[]⟩
        ⟨["Pair"]⟩).resolver = after .workshop [(⟨["a", "b"]⟩, ⟨["Leaf"]⟩)] := by
  refine ⟨by decide +kernel, ?_⟩
  have failed : ((after .workshop [(⟨["a", "b"]⟩, ⟨["Leaf"]⟩)]).resolve .workshop ⟨[]⟩
      ⟨["Pair"]⟩).result.isOk = false := by decide +kernel
  cases ended : ((after .workshop [(⟨["a", "b"]⟩, ⟨["Leaf"]⟩)]).resolve .workshop ⟨[]⟩
      ⟨["Pair"]⟩).result with
  | ok node =>
    rw [ended] at failed
    cases failed
  | error error => exact (resolve_error_resolver .workshop _ _ _ ended).1

/-! ## Records of calls -/

/-- The constructors that the call with the given number calls, in order. -/
def callsAt (config : Config) (calls : List (Scope × DottedName)) (number : Nat) : List Call :=
  match calls[number]? with
  | some (scope, symbol) => ((after config (calls.take number)).resolve config scope symbol).calls
  | none => []

/-- All constructors that are called, each with the number of the call that it belongs to. -/
def trace (config : Config) (calls : List (Scope × DottedName)) : List (Nat × Call) :=
  (List.range calls.length).flatMap fun number =>
    (callsAt config calls number).map fun call => (number, call)

/-- The node is cached by the call with the given number. -/
structure CachedBy (config : Config) (calls : List (Scope × DottedName)) (node : Node)
    (number : Nat) : Prop where
  absent : node.key ∉ (after config (calls.take number)).cache.map Node.key
  present : node ∈ (after config (calls.take (number + 1))).cache

/-- All calls give a node. -/
def AllSucceed (config : Config) (calls : List (Scope × DottedName)) : Prop :=
  ∀ number scope symbol, calls[number]? = some (scope, symbol) →
    ∃ node, ((after config (calls.take number)).resolve config scope symbol).result = .ok node

section Concat

variable (calls : List (Scope × DottedName)) (scope : Scope) (symbol : DottedName)

theorem callsAt_concat_of_lt (config : Config) {number : Nat} (early : number < calls.length) :
    callsAt config (calls ++ [(scope, symbol)]) number = callsAt config calls number := by
  unfold callsAt
  rw [List.getElem?_append_left early, List.take_append_of_le_length (Nat.le_of_lt early)]

theorem callsAt_concat_length (config : Config) :
    callsAt config (calls ++ [(scope, symbol)]) calls.length =
      ((after config calls).resolve config scope symbol).calls := by
  unfold callsAt
  rw [List.getElem?_concat_length, List.take_left]

theorem trace_concat (config : Config) :
    trace config (calls ++ [(scope, symbol)]) =
      trace config calls ++ ((after config calls).resolve config scope symbol).calls.map
        fun call => (calls.length, call) := by
  unfold trace
  rw [List.length_append, List.length_singleton, List.range_succ, List.flatMap_append,
    List.flatMap_singleton, callsAt_concat_length]
  congr 1
  rw [List.flatMap_def, List.flatMap_def]
  congr 1
  refine List.map_congr_left fun number member => ?_
  rw [callsAt_concat_of_lt calls scope symbol config (List.mem_range.mp member)]

end Concat

theorem lt_length_of_mem_trace {calls : List (Scope × DottedName)} {entry : Nat × Call}
    (member : entry ∈ trace config calls) : entry.1 < calls.length := by
  obtain ⟨number, inRange, inCalls⟩ := List.mem_flatMap.mp member
  obtain ⟨call, _, rfl⟩ := List.mem_map.mp inCalls
  exact List.mem_range.mp inRange

/-! ## Which call cached a node -/

theorem cache_initial_concat (config : Config) (calls : List (Scope × DottedName))
    (call : Scope × DottedName) :
    (after config calls).cache <+: (after config (calls ++ [call])).cache := by
  have idle := idle_after config calls
  rw [after_concat]
  cases ended : ((after config calls).resolve config call.1 call.2).result with
  | ok node =>
    obtain ⟨_, added, cache, _⟩ := idle.adds_of_ok ended
    exact ⟨added, cache.symm⟩
  | error error =>
    exact (idle.eq_of_error ended).symm ▸ List.prefix_refl _

/-- What remains after some calls remains after more of them. -/
theorem cache_initial (config : Config) (calls more : List (Scope × DottedName)) :
    (after config calls).cache <+: (after config (calls ++ more)).cache := by
  induction more using List.reverseRecOn with
  | nil => exact (List.append_nil calls).symm ▸ List.prefix_refl _
  | append_singleton more call ih =>
    rw [← List.append_assoc]
    exact ih.trans (cache_initial_concat config _ call)

section CachedBy

variable {calls : List (Scope × DottedName)} {node : Node} {number other : Nat}

theorem CachedBy.mem_of_lt (cached : CachedBy config calls node number) (later : number < other) :
    node ∈ (after config (calls.take other)).cache := by
  have shorter : calls.take (number + 1) <+: calls.take other := List.take_prefix_take_left later
  obtain ⟨more, same⟩ := shorter
  rw [← same]
  exact (cache_initial config _ more).subset cached.present

theorem cachedBy_unique (cached : CachedBy config calls node number)
    (otherCached : CachedBy config calls node other) : other = number := by
  rcases Nat.lt_trichotomy number other with later | same | earlier
  · exact absurd (List.mem_map_of_mem (cached.mem_of_lt later)) otherCached.absent
  · exact same.symm
  · exact absurd (List.mem_map_of_mem (otherCached.mem_of_lt earlier)) cached.absent

theorem CachedBy.lt_length (cached : CachedBy config calls node number) :
    number < calls.length := by
  by_contra outside
  -- Behind the last call, before and after are the same.
  have present := cached.present
  rw [List.take_of_length_le (by omega)] at present
  have absent := cached.absent
  rw [List.take_of_length_le (by omega)] at absent
  exact absent (List.mem_map_of_mem present)

theorem CachedBy.concat (cached : CachedBy config calls node number)
    (call : Scope × DottedName) : CachedBy config (calls ++ [call]) node number := by
  have early := cached.lt_length
  refine ⟨?_, ?_⟩
  · rw [List.take_append_of_le_length (Nat.le_of_lt early)]
    exact cached.absent
  · rw [List.take_append_of_le_length early]
    exact cached.present

theorem CachedBy.of_last {call : Scope × DottedName}
    (absent : node.key ∉ (after config calls).cache.map Node.key)
    (present : node ∈ (after config (calls ++ [call])).cache) :
    CachedBy config (calls ++ [call]) node calls.length := by
  refine ⟨?_, ?_⟩
  · rw [List.take_left]
    exact absent
  · rw [List.take_of_length_le (by simp)]
    exact present

end CachedBy

/-! ## What the record says about a node -/

/-- The constructor of the node was called once by the call that cached the node, with its
parameters, and after the constructors of all nodes inside that references stand for were called by
those that cached them. -/
structure Recorded (config : Config) (calls : List (Scope × DottedName)) (node : Node)
    (number : Nat) : Prop where
  cachedBy : CachedBy config calls node number
  called_once : ((trace config calls).filter fun entry =>
    decide (entry.1 = number ∧ entry.2.key = node.key)) = [(number, ⟨node.key, node.params⟩)]
  inner_before : ∀ part ∈ config.partsOf node, config.Constructs part.key →
    ∃ earlier, CachedBy config calls part earlier ∧
      [(earlier, ⟨part.key, part.params⟩), (number, ⟨node.key, node.params⟩)].Sublist
        (trace config calls)

section Recorded

variable {calls : List (Scope × DottedName)} {node : Node} {number : Nat}

/-- Later calls change nothing in the record of a node. -/
theorem Recorded.concat (recorded : Recorded config calls node number)
    (call : Scope × DottedName) : Recorded config (calls ++ [call]) node number := by
  have early := recorded.cachedBy.lt_length
  refine ⟨recorded.cachedBy.concat call, ?_, ?_⟩
  · rw [trace_concat, List.filter_append, recorded.called_once]
    rw [List.append_right_eq_self, List.filter_eq_nil_iff]
    intro entry member
    obtain ⟨made, _, rfl⟩ := List.mem_map.mp member
    simp [Nat.ne_of_gt early]
  · intro part inside constructs
    obtain ⟨earlier, cached, before⟩ := recorded.inner_before part inside constructs
    refine ⟨earlier, cached.concat call, ?_⟩
    rw [trace_concat]
    exact before.trans (List.sublist_append_left _ _)

/-- Among calls for different keys there is one for each key that occurs. -/
theorem filter_key {made : List Call} (nodup : (made.map Call.key).Nodup) {call : Call}
    (member : call ∈ made) : (made.filter fun other => decide (other.key = call.key)) = [call] := by
  induction made with
  | nil => cases member
  | cons head made ih =>
    obtain ⟨fresh, nodup⟩ := List.nodup_cons.mp nodup
    rcases List.mem_cons.mp member with rfl | later
    · rw [List.filter_cons_of_pos (by simp), List.filter_eq_nil_iff.mpr]
      intro other inTail
      rw [decide_eq_true_iff]
      exact fun same => fresh (same ▸ List.mem_map_of_mem inTail)
    · have apart : head.key ≠ call.key := fun same => fresh (same ▸ List.mem_map_of_mem later)
      rw [List.filter_cons_of_neg (by simpa using apart)]
      exact ih nodup later

/-- What a node holds by reference is in the old cache or was added before it. -/
theorem part_before {old added : List Node} (constructed : Constructed config (old ++ added))
    (member : node ∈ added) {part : Node} (inside : part ∈ config.partsOf node) :
    part ∈ old ∨ part ∈ added ∧ [part, node].Sublist added := by
  obtain ⟨early, late, rfl⟩ := List.append_of_mem member
  have at_end : (old ++ (early ++ node :: late))[(old ++ early).length]? = some node := by
    rw [← List.append_assoc, List.getElem?_append_right (Nat.le_refl _), Nat.sub_self]
    rfl
  obtain ⟨place, before, found⟩ := constructed.parts_before at_end inside
  rw [← List.append_assoc, List.getElem?_append_left before] at found
  rcases List.mem_append.mp (List.mem_of_getElem? found) with inOld | inEarly
  · exact .inl inOld
  · refine .inr ⟨List.mem_append_left _ inEarly, ?_⟩
    have first : [part].Sublist early := List.singleton_sublist.mpr inEarly
    exact first.append (List.singleton_sublist.mpr List.mem_cons_self)

/-- A node that the last call cached is recorded, if those are that were cached before. -/
theorem recorded_of_last (loaded : config.Loaded) {call : Scope × DottedName} {added : List Node}
    (cache : (after config (calls ++ [call])).cache = (after config calls).cache ++ added)
    (made : ((after config calls).resolve config call.1 call.2).calls =
      added.filterMap (Node.call? config.registry))
    (earlier : ∀ part ∈ (after config calls).cache, config.Constructs part.key →
      ∃ number, Recorded config calls part number)
    (member : node ∈ added) (constructs : config.Constructs node.key) :
    Recorded config (calls ++ [call]) node calls.length := by
  have constructed := (sound_after loaded (calls ++ [call])).constructed
  have nodup := constructed.keys_nodup
  rw [cache] at constructed
  rw [cache, List.map_append, List.nodup_append] at nodup
  obtain ⟨_, addedNodup, apart⟩ := nodup
  have cachedBy {part : Node} (inAdded : part ∈ added) :
      CachedBy config (calls ++ [call]) part calls.length := by
    refine .of_last (fun old => ?_) (by rw [cache]; exact List.mem_append_right _ inAdded)
    exact apart _ old _ (List.mem_map_of_mem inAdded) rfl
  have entry : (⟨node.key, node.params⟩ : Call) ∈
      added.filterMap (Node.call? config.registry) :=
    List.mem_filterMap.mpr ⟨node, member, constructs.call?⟩
  refine ⟨cachedBy member, ?_, ?_⟩
  · rw [trace_concat, made, List.filter_append, List.filter_map]
    have old : ((trace config calls).filter fun entry =>
        decide (entry.1 = calls.length ∧ entry.2.key = node.key)) = [] := by
      refine List.filter_eq_nil_iff.mpr fun entry inTrace => ?_
      simp [Nat.ne_of_lt (lt_length_of_mem_trace inTrace)]
    have once := filter_key ((Node.keys_of_calls _ added).nodup addedNodup) entry
    rw [old, List.nil_append]
    simp only [Function.comp_def, true_and, once, List.map_singleton]
  · intro part inside partConstructs
    rw [trace_concat, made]
    rcases part_before constructed member inside with inOld | ⟨inAdded, order⟩
    -- the part was cached by a call before the last one
    · obtain ⟨number, recorded⟩ := earlier part inOld partConstructs
      refine ⟨number, recorded.cachedBy.concat call, ?_⟩
      have first : [(number, (⟨part.key, part.params⟩ : Call))].Sublist (trace config calls) := by
        rw [← recorded.called_once]
        exact List.filter_sublist
      exact first.append (List.singleton_sublist.mpr (List.mem_map_of_mem entry))
    -- the last call cached the part before the node
    · refine ⟨calls.length, cachedBy inAdded, ?_⟩
      have ordered := (order.filterMap (Node.call? config.registry)).map
        fun call => (calls.length, call)
      simp only [List.filterMap_cons, partConstructs.call?, constructs.call?, List.filterMap_nil,
        List.map_cons, List.map_nil] at ordered
      exact ordered.trans (List.sublist_append_right _ _)

/-- Each node that remains is recorded. The induction is on the last call. -/
theorem exists_recorded (loaded : config.Loaded) (calls : List (Scope × DottedName)) :
    ∀ node ∈ (after config calls).cache, config.Constructs node.key →
      ∃ number, Recorded config calls node number := by
  induction calls using List.reverseRecOn with
  | nil => exact nofun
  | append_singleton calls call ih =>
    intro node member constructs
    have idle := idle_after config calls
    cases ended : ((after config calls).resolve config call.1 call.2).result with
    | error error =>
      rw [after_concat, idle.eq_of_error ended] at member
      obtain ⟨number, recorded⟩ := ih node member constructs
      exact ⟨number, recorded.concat call⟩
    | ok found =>
      obtain ⟨_, added, cache, made⟩ := idle.adds_of_ok ended
      rw [← after_concat] at cache
      rw [cache] at member
      rcases List.mem_append.mp member with old | new
      · obtain ⟨number, recorded⟩ := ih node old constructs
        exact ⟨number, recorded.concat call⟩
      · exact ⟨calls.length, recorded_of_last loaded cache made ih new constructs⟩

end Recorded

/-! ## Whole records -/

theorem AllSucceed.of_concat {calls : List (Scope × DottedName)} {call : Scope × DottedName}
    (succeed : AllSucceed config (calls ++ [call])) :
    AllSucceed config calls ∧
      ∃ node, ((after config calls).resolve config call.1 call.2).result = .ok node := by
  refine ⟨fun number scope symbol at_number => ?_, ?_⟩
  · obtain ⟨early, _⟩ := List.getElem?_eq_some_iff.mp at_number
    have done := succeed number scope symbol (by rw [List.getElem?_append_left early, at_number])
    rw [List.take_append_of_le_length (Nat.le_of_lt early)] at done
    exact done
  · have done := succeed calls.length call.1 call.2 List.getElem?_concat_length
    rw [List.take_left] at done
    exact done

/-- Where no call fails, the record is that of the nodes in the cache. -/
theorem AllSucceed.trace_eq {calls : List (Scope × DottedName)}
    (succeed : AllSucceed config calls) :
    (trace config calls).map Prod.snd =
      (after config calls).cache.filterMap (Node.call? config.registry) := by
  induction calls using List.reverseRecOn with
  | nil => rfl
  | append_singleton calls call ih =>
    obtain ⟨before, node, done⟩ := succeed.of_concat
    obtain ⟨_, added, cache, made⟩ := (idle_after config calls).adds_of_ok done
    rw [trace_concat, after_concat, cache, made, List.map_append, List.filterMap_append, ih before,
      List.map_map]
    congr 1
    exact List.map_id _

theorem Sound.calls_fresh {resolver : Resolver} (sound : resolver.Sound config)
    (loaded : config.Loaded) (scope : Scope) (symbol : DottedName) :
    ((resolver.resolve config scope symbol).calls.map Call.key).Nodup ∧
      ∀ call ∈ (resolver.resolve config scope symbol).calls,
        call.key ∉ resolver.cache.map Node.key := by
  -- What a call made is in its record also where it fails and its nodes are taken back.
  have ofRun {registration : Registration}
      (found : config.registry.lookup symbol = .ok registration)
      {result : Except ConfigError Node} {progress : Progress}
      (run : resolveNode config ⟨scope, registration.name⟩ resolver.progress =
        (result, progress)) :
      (progress.calls.map Call.key).Nodup ∧
        ∀ call ∈ progress.calls, call.key ∉ resolver.cache.map Node.key := by
    obtain ⟨_, outcome⟩ := sound.outcome loaded (.cyclicReference []) (.cyclicReference [])
      (Nat.le_refl _) (Nat.le_refl _) (Config.registered_of_lookup scope found)
    have nodup := outcome.constructed.keys_nodup
    have adds := onlyAdds_resolveNode config ⟨scope, registration.name⟩ resolver.progress
    rw [run] at nodup adds
    obtain ⟨added, failed, adds⟩ := adds.exists_adds
    exact adds.calls_fresh rfl nodup
  cases ended : (resolver.resolve config scope symbol).result with
  | ok node =>
    obtain ⟨registration, progress, found, run, same⟩ := resolve_of_ok ended
    rw [same]
    exact ofRun found run
  | error error =>
    obtain same | ⟨registration, progress, found, run, same⟩ := resolve_of_error ended
    · rw [same]
      exact ⟨List.nodup_nil, nofun⟩
    · rw [same]
      exact ofRun found run

/-- After any calls, failing or not: the next one calls no constructor twice for one key, nor for a
key that is there already. For each node that remains and has a constructor, the call that cached it
made one call of that constructor, with the parameters that the node has, after those for all nodes
inside that references stand for. These are all nodes inside if no default holds any. If no call
fails, there is at most one call of a constructor for each key in all. -/
theorem constructor_calls (loaded : config.Loaded) (calls : List (Scope × DottedName)) :
    (∀ scope symbol,
      (((after config calls).resolve config scope symbol).calls.map Call.key).Nodup ∧
      ∀ call ∈ ((after config calls).resolve config scope symbol).calls,
        call.key ∉ (after config calls).cache.map Node.key) ∧
    (∀ node ∈ (after config calls).graph.nodes, config.Constructs node.key →
      ∃ number, Recorded config calls node number ∧
        ∀ other, CachedBy config calls node other → other = number) ∧
    (config.registry.PlainDefaults →
      ∀ node ∈ (after config calls).graph.nodes, node.parts ⊆ config.partsOf node) ∧
    (AllSucceed config calls → ((trace config calls).map fun entry => entry.2.key).Nodup) := by
  have sound := sound_after loaded calls
  refine ⟨sound.calls_fresh loaded, ?_,
    fun plain node member => (sound.constructed.built member).parts_subset plain, ?_⟩
  · intro node member constructs
    obtain ⟨number, recorded⟩ := exists_recorded loaded calls node member constructs
    exact ⟨number, recorded, fun other cached => cachedBy_unique recorded.cachedBy cached⟩
  · intro succeed
    have keys : ((trace config calls).map fun entry => entry.2.key) =
        ((trace config calls).map Prod.snd).map Call.key := by
      rw [List.map_map]
      rfl
    rw [keys, succeed.trace_eq]
    exact (Node.keys_of_calls _ _).nodup sound.constructed.keys_nodup

/-- The first call fails after it made a leaf and a box, which the second makes once more. -/
theorem constructor_calls_workshop :
    (trace .workshop [(⟨[]⟩, ⟨["Pair"]⟩), (⟨[]⟩, ⟨["Box"]⟩)]).map
        (fun entry => (entry.1, entry.2.key.symbol.segments)) =
      [(0, ["m", "Leaf"]), (0, ["m", "Box"]), (1, ["m", "Leaf"]), (1, ["m", "Box"])] ∧
    (∀ node ∈ (after .workshop [(⟨[]⟩, ⟨["Pair"]⟩), (⟨[]⟩, ⟨["Box"]⟩)]).graph.nodes,
      Config.workshop.Constructs node.key →
      ∃ number, Recorded .workshop [(⟨[]⟩, ⟨["Pair"]⟩), (⟨[]⟩, ⟨["Box"]⟩)] node number ∧
        ∀ other, CachedBy .workshop [(⟨[]⟩, ⟨["Pair"]⟩), (⟨[]⟩, ⟨["Box"]⟩)] node other →
          other = number) :=
  ⟨by decide +kernel, (constructor_calls Config.loaded_workshop _).2.1⟩

/-- A leaf that a default holds may be constructed after the crate that it is in. Here the
constructor of the crate is called first, then that of a leaf with the same key and parameters. -/
theorem default_called_later :
    Config.crate.Loaded ∧
      ∃ crate ∈ (after .crate [(⟨[]⟩, ⟨["Crate"]⟩), (⟨[]⟩, ⟨["Leaf"]⟩)]).graph.nodes,
      ∃ leaf ∈ crate.parts, Config.crate.Constructs crate.key ∧ Config.crate.Constructs leaf.key ∧
        (∃ own ∈ (after .crate [(⟨[]⟩, ⟨["Crate"]⟩), (⟨[]⟩, ⟨["Leaf"]⟩)]).graph.nodes,
          own.key = leaf.key ∧ own.params.same leaf.params = true) ∧
        (trace .crate [(⟨[]⟩, ⟨["Crate"]⟩), (⟨[]⟩, ⟨["Leaf"]⟩)]).map (fun entry => entry.2.key) =
          [crate.key, leaf.key] := by
  have found : ((after .crate
      [(⟨[]⟩, ⟨["Crate"]⟩), (⟨[]⟩, ⟨["Leaf"]⟩)]).graph.nodes.any fun crate =>
        crate.parts.any fun leaf =>
          decide (crate.key = ⟨⟨[]⟩, ⟨["m", "Crate"]⟩⟩) &&
          decide (leaf.key = ⟨⟨[]⟩, ⟨["m", "Leaf"]⟩⟩) &&
          (after .crate [(⟨[]⟩, ⟨["Crate"]⟩), (⟨[]⟩, ⟨["Leaf"]⟩)]).graph.nodes.any fun own =>
            decide (own.key = leaf.key) && own.params.same leaf.params) = true := by
    decide +kernel
  have calls : (trace .crate [(⟨[]⟩, ⟨["Crate"]⟩), (⟨[]⟩, ⟨["Leaf"]⟩)]).map
      (fun entry => entry.2.key) =
        [⟨⟨[]⟩, ⟨["m", "Crate"]⟩⟩, ⟨⟨[]⟩, ⟨["m", "Leaf"]⟩⟩] := by
    decide +kernel
  simp only [List.any_eq_true, Bool.and_eq_true, decide_eq_true_eq] at found
  obtain ⟨crate, isCrate, leaf, inside, ⟨crateKey, leafKey⟩, own⟩ := found
  refine ⟨Config.loaded_crate, crate, isCrate, leaf, inside, ?_, ?_, own, ?_⟩
  · rw [crateKey]
    exact ⟨_, rfl, rfl⟩
  · rw [leafKey]
    exact ⟨_, rfl, rfl⟩
  · rw [crateKey, leafKey]
    exact calls

end Resolver

end ConfigBinding
