import ConfigBinding.Error
import ConfigBinding.Value.Params

/-!
# The registry of configurables

A configurable is a dotted name with an ordered list of parameters, and perhaps a constructor. It is
found by its name, or by a suffix of it that no other configurable shares. Nothing that is
registered is ever changed or taken out again.

Results:
1. `Registry.get?_eq_some`: what is found under a name has this name.
2. `Registry.lookup_exact`: a registered name finds itself, whatever else it is a suffix of.
3. `Registry.register_eq_ok`: what can be registered.
4. `Registry.PlainDefaults.register`: registering keeps that no default holds anything constructed.
-/

namespace ConfigBinding

/-- Whether a value is of the given kind. `None` is of every kind. -/
def ParamKind.accepts (kind : ParamKind) (value : Value) : Bool :=
  match kind, value with
  | _, .none | .any, _ => true
  | .scalar, .bool _ | .scalar, .int _ | .scalar, .float _ => true
  | .string, .str _ => true
  | .list, .list _ | .list, .tuple _ => true
  | .mapping, .map _ => true
  | .reference, .object _ _ _ => true
  | _, _ => false

/-- A parameter of a configurable. Without a default it is required. A default may be any value,
also one that holds constructed configurables. -/
structure Param where
  name : String
  default : Option Value
  kind : ParamKind

/-- What makes an object of a configurable's parameters: a text, or a message why there is none. -/
abbrev Constructor := Params → Except String String

/-- A registered configurable. Without a constructor its objects are plain parameter records. -/
structure Registration where
  name : DottedName
  params : List Param
  constructor? : Option Constructor

namespace Registration

/-- What the constructor makes of the parameters, if there is one. -/
def product (registration : Registration) (params : Params) : Except String (Option String) :=
  match registration.constructor? with
  | none => .ok none
  | some constructor => (constructor params).map some

def param? (registration : Registration) (name : String) : Option Param :=
  registration.params.find? fun param => param.name == name

def hasParam (registration : Registration) (name : String) : Bool :=
  (registration.param? name).isSome

end Registration

/-- All registered configurables, in order of registration. -/
structure Registry where
  entries : List Registration

namespace Registry

def empty : Registry := ⟨[]⟩

def size (registry : Registry) : Nat := registry.entries.length

def isEmpty (registry : Registry) : Bool := registry.entries.isEmpty

/-- The configurable with exactly the given name. -/
def get? (registry : Registry) (name : DottedName) : Option Registration :=
  registry.entries.find? fun registration => decide (registration.name = name)

def contains (registry : Registry) (name : DottedName) : Bool := (registry.get? name).isSome

/-- The first name in a list that is among the `seen` ones or stands further ahead in the list. -/
def repeated? : List String → List String → Option String
  | _, [] => none
  | seen, name :: names => if name ∈ seen then some name else repeated? (name :: seen) names

/-- Registers a configurable. Its name must be new and its parameters must differ in name. -/
def register (registry : Registry) (registration : Registration) : Except ConfigError Registry :=
  if registry.contains registration.name then
    .error (.duplicateRegistration registration.name.toText)
  else match repeated? [] (registration.params.map Param.name) with
    | some param => .error (.duplicateRegistration (registration.name.toText ++ "." ++ param))
    | none => .ok ⟨registry.entries ++ [registration]⟩

/-- The configurables of which `name` is a suffix. -/
def matching (registry : Registry) (name : DottedName) : List Registration :=
  registry.entries.filter fun registration => registration.name.endsWith name

/-- The configurable that `name` stands for: the one of exactly this name, else the only one of
which it is a suffix. -/
def lookup (registry : Registry) (name : DottedName) : Except ConfigError Registration :=
  match registry.get? name with
  | some registration => .ok registration
  | none =>
    match registry.matching name with
    | [] => .error (.unknownConfigurable name.toText none)
    | [registration] => .ok registration
    | several =>
      .error (.ambiguousConfigurable name.toText (several.map fun r => r.name.toText) none)

theorem get?_eq_some {registry : Registry} {name : DottedName} {registration : Registration}
    (found : registry.get? name = some registration) :
    registration.name = name ∧ registration ∈ registry.entries :=
  ⟨of_decide_eq_true (List.find?_some (p := fun registration : Registration =>
    decide (registration.name = name)) found), List.mem_of_find?_eq_some found⟩

theorem repeated?_eq_none {seen names : List String} :
    repeated? seen names = none ↔ names.Nodup ∧ ∀ name ∈ names, name ∉ seen := by
  induction names generalizing seen with
  | nil => simp [repeated?]
  | cons name names ih =>
    rw [repeated?]
    split
    · simp_all
    · rw [ih, List.nodup_cons]
      simp only [List.mem_cons]
      grind

/-- A configurable can be registered if its name is new and its parameters differ in name. -/
theorem register_eq_ok {registry next : Registry} {registration : Registration} :
    registry.register registration = .ok next ↔
      registry.contains registration.name = false ∧
        (registration.params.map Param.name).Nodup ∧
        ⟨registry.entries ++ [registration]⟩ = next := by
  have differ : repeated? [] (registration.params.map Param.name) = none ↔
      (registration.params.map Param.name).Nodup := by
    simp [repeated?_eq_none]
  unfold register
  split
  · simp_all
  · split <;> simp_all

/-- No default holds a constructed configurable. -/
def PlainDefaults (registry : Registry) : Prop :=
  ∀ registration ∈ registry.entries, ∀ param ∈ registration.params,
    param.default.all Value.isPlain = true

instance (registry : Registry) : Decidable registry.PlainDefaults := by
  unfold PlainDefaults
  infer_instance

theorem PlainDefaults.register {registry next : Registry} {registration : Registration}
    (plain : registry.PlainDefaults)
    (fresh : ∀ param ∈ registration.params, param.default.all Value.isPlain = true)
    (registered : registry.register registration = .ok next) : next.PlainDefaults := by
  obtain ⟨_, _, rfl⟩ := register_eq_ok.mp registered
  exact List.forall_mem_append.mpr ⟨plain, List.forall_mem_singleton.mpr fresh⟩

theorem lookup_exact {registry : Registry} {name : DottedName} {registration : Registration}
    (found : registry.get? name = some registration) :
    registry.lookup name = .ok registration := by
  rw [lookup, found]

end Registry

/-- The imports of one file: the module that each local name stands for. -/
structure AliasTable where
  entries : List (DottedName × DottedName)

namespace AliasTable

def empty : AliasTable := ⟨[]⟩

def size (aliases : AliasTable) : Nat := aliases.entries.length

def isEmpty (aliases : AliasTable) : Bool := aliases.entries.isEmpty

/-- Lets `localName` stand for `path` from now on. -/
def insert (aliases : AliasTable) (localName path : DottedName) : AliasTable :=
  ⟨Entries.insert localName path aliases.entries⟩

def get? (aliases : AliasTable) (localName : DottedName) : Option DottedName :=
  Entries.get? localName aliases.entries

/-- The name with its longest start that is a local name replaced by what that stands for. `count`
bounds the length of that start. -/
def canonicalizeUpTo (aliases : AliasTable) (name : DottedName) : Nat → Option DottedName
  | 0 => none
  | count + 1 =>
    match aliases.get? (name.take (count + 1)) with
    | some path => some (name.replaceStart (count + 1) path)
    | none => aliases.canonicalizeUpTo name count

/-- The name with its longest start that is a local name replaced, if it has one. -/
def canonicalize (aliases : AliasTable) (name : DottedName) : Option DottedName :=
  aliases.canonicalizeUpTo name name.size

end AliasTable

/-- What a name means in a file with the given imports: a registered name means itself, another one
is renamed by the imports if they know a start of it. -/
def Registry.resolveAlias (registry : Registry) (aliases : AliasTable) (name : DottedName) :
    DottedName :=
  if registry.contains name then name else (aliases.canonicalize name).getD name

end ConfigBinding
