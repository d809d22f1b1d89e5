import ConfigBinding.Registry
import ConfigBinding.Yaml.Datum

/-!
# Registry manifests

A manifest is a YAML document that lists configurables with their parameters:

    configurables:
      - name: models.Encoder
        params:
          - width
          - name: depth
            default: 2
            kind: scalar

A parameter given by its name alone is required. A default, even null, makes it optional. A manifest
is read as a whole before anything of it is registered; its configurables are then registered one
after the other up to the first that cannot be, and those before it stay registered.

Results:
1. `registerAll_append`: a manifest in two parts registers like the one part after the other.
2. `Registry.PlainDefaults.loadManifest`: the defaults of a manifest hold nothing constructed.
-/

namespace ConfigBinding

open Yaml (Content Datum)

/-- A parameter as a manifest declares it. -/
structure ManifestParam where
  name : String
  default : Option Datum
  kind : ParamKind

/-- A configurable as a manifest declares it. -/
structure ManifestEntry where
  name : String
  params : List ManifestParam

namespace Manifest

/-! ## Records

A record is given by the values of its fields. A field may not be given twice, and no other field
may be given at all.
-/

/-- Sorts the entries of a mapping by field: the value of each of the `fields`, if it is given.
`name?` tells the field that a key stands for. -/
def fieldsOf? {α κ : Type} (name? : κ → Option String) (fields : List String)
    (entries : List (κ × α)) : Option (List (Option α)) := do
  let named ← entries.mapM fun (key, value) => (name? key).map (·, value)
  if named.all (fun (name, _) => name ∈ fields)
      && (Registry.repeated? [] (named.map Prod.fst)).isNone
  then return fields.map fun field => Entries.get? field named
  none

/-- The text of any scalar. -/
def scalarText? : Content → Option String
  | .scalar _ text _ => some text
  | _ => none

/-- The items of a sequence; where nothing is written there are none. -/
def items? : Content → Option (List Content)
  | .sequence _ items => some items
  | .scalar _ "" true => some []
  | _ => none

/-! ## Parameters -/

/-- The fields of a parameter. They may also be given by position. -/
def paramFields : List String := ["name", "default", "kind"]

/-- The field that a key of a parameter stands for: its name or its number. -/
def paramField? : Datum → Option String
  | .str name => some name
  | .natural number => paramFields[number]?
  | _ => none

/-- The kind that a datum names: by its name or its number, the latter as the only key of a
mapping. -/
def kind? : Datum → Option ParamKind
  | .str name => ParamKind.ofText? name
  | .mapping [(.str name, .null)] => ParamKind.ofText? name
  | .mapping [(.natural number, .null)] => ParamKind.all[number]?
  | _ => none

/-- The parameter with the given fields. -/
def paramOf? (name : Datum) (default kind : Option Datum) : Option ManifestParam :=
  match name with
  | .str name =>
    if default.all Datum.distinctKeys then
      match kind with
      | some kind => (kind? kind).map fun kind => ⟨name, default, kind⟩
      | none => some ⟨name, default, .any⟩
    else none
  | _ => none

/-- Reads a parameter: a name alone, or a record. -/
def param? : Datum → Option ManifestParam
  | .str name => some ⟨name, none, .any⟩
  | .mapping entries =>
    match fieldsOf? paramField? paramFields entries with
    | some [some name, default, kind] => paramOf? name default kind
    | _ => none
  | .sequence [name] => paramOf? name none none
  | .sequence [name, default] => paramOf? name (some default) none
  | .sequence [name, default, kind] => paramOf? name (some default) (some kind)
  | _ => none

/-! ## Entries -/

/-- Reads a configurable. -/
def entry? : Content → Option ManifestEntry
  | .mapping _ entries =>
    match fieldsOf? scalarText? ["name", "params"] entries with
    | some [some name, params] => do
      let name ← scalarText? name
      let params ← items? (params.getD (.sequence none []))
      let params ← params.mapM fun param => Datum.ofContent? param >>= param?
      return ⟨name, params⟩
    | _ => none
  | _ => none

/-- Reads the content of a manifest. -/
def ofContent? : Content → Option (List ManifestEntry)
  | .mapping _ entries =>
    match fieldsOf? scalarText? ["configurables"] entries with
    | some [some configurables] => do
      let items ← items? configurables
      items.mapM entry?
    | some [none] => some []
    | _ => none
  | .scalar _ "" true => some []
  | _ => none

/-- Reads a manifest. A text without a document declares nothing. -/
def parse? (text : String) : Option (List ManifestEntry) :=
  match Content.parse? text with
  | some (some content) => ofContent? content
  | some none => some []
  | none => none

end Manifest

/-! ## Defaults -/

mutual

/-- The value of a datum; the keys of its mappings have to be texts. An integer beyond 64 bits with
a sign is a floating point number. -/
def Value.ofDatum? : Datum → Option Value
  | .null => some .none
  | .bool value => some (.bool value)
  | .natural value =>
    some (if value ≤ Int64.maxValue.toInt then .int (Int64.ofNat value)
      else .float (Binary64.ofInt value))
  | .integer value => some (.int (Int64.ofInt value))
  | .float value => some (.float value)
  | .str text => some (.str text)
  | .sequence items => (Value.ofItems? items).map .list
  | .mapping entries => (Value.ofEntries? entries).map .map

def Value.ofItems? : List Datum → Option (List Value)
  | [] => some []
  | item :: items => do
    let value ← Value.ofDatum? item
    let values ← Value.ofItems? items
    return value :: values

def Value.ofEntries? : List (Datum × Datum) → Option (List (String × Value))
  | [] => some []
  | (.str key, datum) :: entries => do
    let value ← Value.ofDatum? datum
    let values ← Value.ofEntries? entries
    return (key, value) :: values
  | _ => Option.none

end

mutual

theorem Value.isPlain_of_ofDatum? {datum : Datum} {value : Value}
    (read : Value.ofDatum? datum = some value) : value.isPlain = true := by
  cases datum with
  | sequence items =>
    obtain ⟨values, inner, rfl⟩ := Option.map_eq_some_iff.mp read
    exact Value.arePlain_of_ofItems? inner
  | mapping entries =>
    obtain ⟨values, inner, rfl⟩ := Option.map_eq_some_iff.mp read
    exact Value.entriesArePlain_of_ofEntries? inner
  | natural number =>
    rw [Value.ofDatum?, Option.some.injEq] at read
    subst read
    split <;> rfl
  | _ =>
    cases read
    rfl

theorem Value.arePlain_of_ofItems? {items : List Datum} {values : List Value}
    (read : Value.ofItems? items = some values) : Value.arePlain values = true := by
  cases items with
  | nil =>
    cases read
    rfl
  | cons item items =>
    obtain ⟨value, first, read⟩ := Option.bind_eq_some_iff.mp read
    obtain ⟨rest, others, read⟩ := Option.bind_eq_some_iff.mp read
    cases read
    rw [Value.arePlain, Value.isPlain_of_ofDatum? first, Value.arePlain_of_ofItems? others]
    rfl

theorem Value.entriesArePlain_of_ofEntries? {entries : List (Datum × Datum)}
    {values : List (String × Value)} (read : Value.ofEntries? entries = some values) :
    Value.entriesArePlain values = true := by
  cases entries with
  | nil =>
    cases read
    rfl
  | cons entry entries =>
    obtain ⟨key, datum⟩ := entry
    cases key with
    | str key =>
      obtain ⟨value, first, read⟩ := Option.bind_eq_some_iff.mp read
      obtain ⟨rest, others, read⟩ := Option.bind_eq_some_iff.mp read
      cases read
      rw [Value.entriesArePlain, Value.isPlain_of_ofDatum? first,
        Value.entriesArePlain_of_ofEntries? others]
      rfl
    | _ => cases read

end

/-! ## Registration -/

/-- The parameter of the configurable `owner` that a manifest declares. -/
def ManifestParam.param (owner : String) (declared : ManifestParam) : Except ConfigError Param :=
  match declared.default with
  | none => .ok ⟨declared.name, none, declared.kind⟩
  | some datum =>
    match Value.ofDatum? datum with
    | some value => .ok ⟨declared.name, some value, declared.kind⟩
    | none => .error (.invalidManifest (some ("default for `" ++ owner ++ "." ++ declared.name
        ++ "`: mapping keys must be strings")))

/-- The configurable that a manifest declares. It has no constructor. -/
def ManifestEntry.registration (entry : ManifestEntry) : Except ConfigError Registration := do
  let params ← entry.params.mapM (ManifestParam.param entry.name)
  return ⟨DottedName.parse entry.name, params, none⟩

namespace Registry

/-- Registers configurables one after the other, up to the first that cannot be registered. Gives
the error of that one, and all that is registered then. -/
def registerAll (registry : Registry) : List ManifestEntry → Option ConfigError × Registry
  | [] => (none, registry)
  | entry :: entries =>
    match entry.registration >>= registry.register with
    | .ok registry => registry.registerAll entries
    | .error error => (some error, registry)

/-- Registers what a manifest declares. Gives the number of its configurables or an error, and all
that is registered then. -/
def loadManifest (registry : Registry) (text : String) : Except ConfigError Nat × Registry :=
  match Manifest.parse? text with
  | none => (.error (.invalidManifest none), registry)
  | some entries =>
    match registry.registerAll entries with
    | (none, registry) => (.ok entries.length, registry)
    | (some error, registry) => (.error error, registry)

theorem registerAll_append (registry : Registry) (first second : List ManifestEntry) :
    registry.registerAll (first ++ second) =
      match registry.registerAll first with
      | (none, registry) => registry.registerAll second
      | failed => failed := by
  induction first generalizing registry with
  | nil => rfl
  | cons entry first ih =>
    simp only [List.cons_append, registerAll]
    split
    · exact ih _
    · rfl

end Registry

/-! ## Defaults -/

theorem ManifestParam.isPlain_default {owner : String} {declared : ManifestParam} {param : Param}
    (read : declared.param owner = .ok param) : param.default.all Value.isPlain = true := by
  unfold ManifestParam.param at read
  split at read
  · cases read
    rfl
  · split at read
    · rename_i value given
      cases read
      exact Value.isPlain_of_ofDatum? given
    · cases read

/-- What the parameters of a configurable come from. -/
theorem ManifestParam.exists_of_mapM {owner : String} {declared : List ManifestParam}
    {params : List Param} (read : declared.mapM (ManifestParam.param owner) = .ok params)
    {param : Param} (member : param ∈ params) :
    ∃ source ∈ declared, source.param owner = .ok param := by
  induction declared generalizing params with
  | nil =>
    cases read
    cases member
  | cons source declared ih =>
    rw [List.mapM_cons] at read
    cases first : source.param owner with
    | error error =>
      rw [first] at read
      cases read
    | ok head =>
      cases others : declared.mapM (ManifestParam.param owner) with
      | error error =>
        rw [first, others] at read
        cases read
      | ok tail =>
        rw [first, others] at read
        cases read
        rcases List.mem_cons.mp member with rfl | later
        · exact ⟨source, List.mem_cons_self, first⟩
        · obtain ⟨found, inside, gives⟩ := ih others later
          exact ⟨found, List.mem_cons_of_mem _ inside, gives⟩

namespace Registry.PlainDefaults

variable {registry : Registry}

/-- The defaults of a manifest are data, in which nothing constructed occurs. -/
theorem registerAll (plain : registry.PlainDefaults) (entries : List ManifestEntry) :
    (registry.registerAll entries).2.PlainDefaults := by
  induction entries generalizing registry with
  | nil => exact plain
  | cons entry entries ih =>
    unfold Registry.registerAll
    split
    · rename_i next registered
      cases read : entry.params.mapM (ManifestParam.param entry.name) with
      | error error =>
        rw [ManifestEntry.registration, read] at registered
        cases registered
      | ok params =>
        rw [ManifestEntry.registration, read] at registered
        refine ih (plain.register (fun param member => ?_) registered)
        obtain ⟨_, _, gives⟩ := ManifestParam.exists_of_mapM read member
        exact ManifestParam.isPlain_default gives
    · exact plain

theorem loadManifest (plain : registry.PlainDefaults) (text : String) :
    (registry.loadManifest text).2.PlainDefaults := by
  unfold Registry.loadManifest
  split
  · exact plain
  · rename_i entries _
    have kept := plain.registerAll entries
    split <;> simp_all

end Registry.PlainDefaults

end ConfigBinding
