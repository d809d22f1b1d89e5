import ConfigBinding.Log
import ConfigBinding.Registry

/-!
# The table of final bindings

The bindings of a log by what they bind. Symbols are replaced by the registered names that they
stand for, so bindings of one parameter come together however its symbol is spelled. The last
binding of a parameter counts, and one in a scope also counts in the scopes below.

Results:
1. `history_insert`: an event is appended to the history of its own key.
2. `getScoped?_eq_some`: what is found in a scope stands in one of its ancestors.
-/

namespace ConfigBinding

/-- The bindings of each parameter, in order; parameters in the order of their first binding. -/
structure BindingTable where
  entries : List (BindingKey × List BindingEvent)

namespace BindingTable

def empty : BindingTable := ⟨[]⟩

def size (table : BindingTable) : Nat := table.entries.length

def isEmpty (table : BindingTable) : Bool := table.entries.isEmpty

/-- All bindings of a parameter. -/
def history (table : BindingTable) (key : BindingKey) : List BindingEvent :=
  (Entries.get? key table.entries).getD []

/-- The binding of exactly the given key that counts. -/
def get? (table : BindingTable) (key : BindingKey) : Option BindingEvent :=
  (table.history key).getLast?

/-- The binding that counts for a parameter in a scope: the one in the innermost scope around it. -/
def getScoped? (table : BindingTable) (key : BindingKey) : Option BindingEvent :=
  key.scope.ancestors.findSome? fun scope => table.get? { key with scope := scope }

/-- The bindings that count. -/
def bindings (table : BindingTable) : List BindingEvent :=
  table.entries.filterMap fun (_, events) => events.getLast?

/-- The parameters that are bound more than once. -/
def overrides (table : BindingTable) : List Override := Override.ofGroups table.entries

def insert (table : BindingTable) (event : BindingEvent) : BindingTable :=
  ⟨Entries.update event.key (fun events? => events?.getD [] ++ [event]) table.entries⟩

theorem history_insert (table : BindingTable) (event : BindingEvent) (key : BindingKey) :
    (table.insert event).history key =
      if event.key = key then table.history key ++ [event] else table.history key := by
  rw [history, insert, Entries.get?_update]
  by_cases same : event.key = key
  · subst same
    simp [history]
  · simp [history, same]

theorem getScoped?_eq_some {table : BindingTable} {key : BindingKey} {event : BindingEvent}
    (found : table.getScoped? key = some event) :
    ∃ scope ∈ key.scope.ancestors, table.get? { key with scope := scope } = some event :=
  List.exists_of_findSome?_eq_some found

end BindingTable

/-- The binding with its symbol replaced by the registered name that it stands for. It has to bind a
parameter of a configurable. -/
def BindingEvent.canonical (registry : Registry) (event : BindingEvent) :
    Except ConfigError BindingEvent :=
  match registry.lookup event.key.symbol with
  | .error error => .error (error.at? event.origin)
  | .ok registration =>
    if registration.hasParam event.key.param then
      .ok { event with key := { event.key with symbol := registration.name } }
    else
      .error (.unknownParameter registration.name.toText event.key.param (some event.origin))

/-- The table of a log. The first binding that binds no parameter of a configurable is an error. -/
def Log.replay (log : Log) (registry : Registry) : Except ConfigError BindingTable :=
  log.bindings.foldlM
    (fun table event => (event.canonical registry).map table.insert) BindingTable.empty

end ConfigBinding
