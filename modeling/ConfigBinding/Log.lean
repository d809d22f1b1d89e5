import ConfigBinding.Attempt
import ConfigBinding.Entries
import ConfigBinding.Statement

/-!
# The log of a configuration

All assignments that were read, in order: bindings of parameters and definitions of macros, each
with the place where it stands. Nothing is replaced; what a parameter has in the end is the last of
its bindings. For each macro the log also knows the number of its last definition.

A value may name only macros that are defined before it.

Results:
1. `macroIndexFrom_append`: the index of a log is built entry by entry.
-/

namespace ConfigBinding

/-- What a binding binds: a parameter of a symbol in a scope. -/
structure BindingKey where
  scope : Scope
  symbol : DottedName
  param : String
deriving DecidableEq, Repr

def BindingKey.toText (key : BindingKey) : String :=
  key.scope.qualify (key.symbol.toText ++ "." ++ key.param)

instance : ToString BindingKey := ⟨BindingKey.toText⟩

/-- One binding of a parameter. -/
structure BindingEvent where
  key : BindingKey
  value : Expr
  origin : Location

/-- One definition of a macro. -/
structure MacroEvent where
  name : String
  value : Expr
  origin : Location

/-- An entry of the log. -/
inductive Event
  | binding (event : BindingEvent)
  | macroDef (event : MacroEvent)

/-- The value that an entry assigns. -/
def Event.value : Event → Expr
  | .binding event => event.value
  | .macroDef event => event.value

/-- The log with all sources that its entries were read from. -/
structure Log where
  sources : SourceMap
  events : List Event
  /-- For each macro, the number of its last definition among the entries. -/
  macroIndex : List (String × Nat)

namespace Log

def empty : Log := ⟨.empty, [], []⟩

def size (log : Log) : Nat := log.events.length

def isEmpty (log : Log) : Bool := log.events.isEmpty

def location (log : Log) (span : Span) : Location := log.sources.location span

/-! ## Reading the log -/

/-- All values in the log, in order. -/
def values (log : Log) : List Expr := log.events.map Event.value

/-- The bindings of the log, in order. -/
def bindings (log : Log) : List BindingEvent :=
  log.events.filterMap fun
    | .binding event => some event
    | .macroDef _ => none

/-- The last definition of a macro. -/
def macro? (log : Log) (name : String) : Option MacroEvent :=
  match (Entries.get? name log.macroIndex).bind (log.events[·]?) with
  | some (.macroDef event) => some event
  | _ => none

/-- All definitions of a macro, in order. -/
def macroHistory (log : Log) (name : String) : List MacroEvent :=
  log.events.filterMap fun
    | .macroDef event => if event.name = name then some event else none
    | .binding _ => none

/-- All bindings of exactly the given key, in order. -/
def history (log : Log) (key : BindingKey) : List BindingEvent :=
  log.bindings.filter fun event => event.key == key

/-- The value that the last binding of the key gives. -/
def query (log : Log) (key : BindingKey) : Option Expr :=
  (log.history key).getLast?.map BindingEvent.value

/-! ## Writing the log -/

/-- The first macro in a value that is not defined, as an error. -/
def undefinedMacro? (log : Log) (value : Expr) : Option ConfigError :=
  (value.macroRefs.find? fun (name, _) => !Entries.contains name.toText log.macroIndex).map
    fun (name, span) => .undefinedMacro name.toText (log.location span)

/-- Appends the definition of a macro. -/
def addMacro (log : Log) (name : String) (value : Expr) (span : Span) : Except ConfigError Log :=
  match log.undefinedMacro? value with
  | some error => .error error
  | none => .ok { log with
      events := log.events ++ [.macroDef ⟨name, value, log.location span⟩]
      macroIndex := Entries.insert name log.events.length log.macroIndex }

/-- Appends the binding of a parameter. -/
def addBinding (log : Log) (key : BindingKey) (value : Expr) (span : Span) :
    Except ConfigError Log :=
  match log.undefinedMacro? value with
  | some error => .error error
  | none => .ok { log with events := log.events ++ [.binding ⟨key, value, log.location span⟩] }

/-- Adds the entries to an index of macros; the first of them has the given number. -/
def macroIndexFrom : Nat → List Event → List (String × Nat) → List (String × Nat)
  | _, [], index => index
  | number, .macroDef event :: events, index =>
    macroIndexFrom (number + 1) events (Entries.insert event.name number index)
  | number, .binding _ :: events, index => macroIndexFrom (number + 1) events index

/-- The log with its first `size` entries only. The sources stay. -/
def truncate (log : Log) (size : Nat) : Log :=
  if log.size ≤ size then log
  else
    let events := log.events.take size
    { log with events := events, macroIndex := macroIndexFrom 0 events [] }

/-- The log with one more source, and the number of that source. -/
def addSource (log : Log) (id text : String) : Log × Nat :=
  let (sources, number) := log.sources.add id text
  ({ log with sources := sources }, number)

theorem macroIndexFrom_append (number : Nat) (first second : List Event)
    (index : List (String × Nat)) :
    macroIndexFrom number (first ++ second) index =
      macroIndexFrom (number + first.length) second (macroIndexFrom number first index) := by
  induction first generalizing number index with
  | nil => rfl
  | cons event first ih =>
    cases event <;> simp only [List.cons_append, macroIndexFrom, ih, List.length_cons] <;>
      congr 1 <;> omega

end Log

/-! ## Repeated bindings -/

/-- Whether the bindings of a key differ. -/
inductive OverrideKind
  /-- All bindings of the key are written alike. -/
  | redundant
  /-- Some binding differs from the first. -/
  | conflicting
deriving DecidableEq, Repr

/-- A key that is bound more than once, with all its bindings in order. -/
structure Override where
  key : BindingKey
  events : List BindingEvent

namespace Override

def kind (override : Override) : OverrideKind :=
  let texts := override.events.map fun event => event.value.toText
  if texts.all fun text => texts.head? == some text then .redundant else .conflicting

def winner? (override : Override) : Option BindingEvent := override.events.getLast?

/-- The groups of bindings that have more than one member. -/
def ofGroups (groups : List (BindingKey × List BindingEvent)) : List Override :=
  (groups.filter fun group => decide (1 < group.2.length)).map fun group => ⟨group.1, group.2⟩

end Override

/-- Bindings by key, in the order of the first binding of each key. -/
def BindingEvent.group (events : List BindingEvent) : List (BindingKey × List BindingEvent) :=
  events.foldl (fun groups event =>
    Entries.update event.key (fun group? => group?.getD [] ++ [event]) groups) []

/-- The keys that are bound more than once as they are written. -/
def Log.overrides (log : Log) : List Override := Override.ofGroups (BindingEvent.group log.bindings)

end ConfigBinding
