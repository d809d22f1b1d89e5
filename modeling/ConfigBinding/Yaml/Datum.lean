import ConfigBinding.Number.Reader
import ConfigBinding.Yaml.Content

/-!
# Data of a YAML document

What the content of a document means as data. A scalar with quotes is a text. A plain one is null, a
truth value or a number if it is written like one, and a text otherwise; a tag of the core types
says which it has to be. Nodes with a tag of the document's own have no meaning here.

Integers have 64 bits. A wider one has no meaning, but one that is wider than 128 bits is read as a
floating point number. A number with a needless zero in front is a text.
-/

namespace ConfigBinding.Yaml

/-- Data without anchors, tags and styles. -/
inductive Datum
  | null
  | bool (value : Bool)
  /-- An integer that is written without a minus sign. -/
  | natural (value : Nat)
  /-- An integer that is written with a minus sign. -/
  | integer (value : Int)
  | float (value : Binary64)
  | str (text : String)
  | sequence (items : List Datum)
  | mapping (entries : List (Datum × Datum))

namespace Datum

/-! ## Scalars -/

def null? : String → Option Datum
  | "null" | "Null" | "NULL" | "~" => some .null
  | _ => none

def bool? : String → Option Datum
  | "true" | "True" | "TRUE" => some (.bool true)
  | "false" | "False" | "FALSE" => some (.bool false)
  | _ => none

/-- Whether a number has a needless zero in front. -/
def isZeroPadded (cs : List Char) : Bool :=
  match (Decimal.takeSign cs).2 with
  | '0' :: c :: cs => (c :: cs).all Char.isDigit
  | _ => false

/-- The integer that a text denotes, by its sign and its size. Its base is ten, or given by a mark
before the digits. -/
def numeral? (cs : List Char) : Option (Bool × Nat) :=
  if isZeroPadded cs then none
  else
    let (negative, digits) := Decimal.takeSign cs
    let size := match digits with
      | '0' :: 'x' :: digits => Decimal.nat? 16 digits
      | '0' :: 'o' :: digits => Decimal.nat? 8 digits
      | '0' :: 'b' :: digits => Decimal.nat? 2 digits
      | digits => Decimal.nat? 10 digits
    size.map (negative, ·)

/-- Whether a number fits in the given number of bits; only a negative one needs a bit for its
sign. -/
def fits (bits : Nat) (negative : Bool) (size : Nat) : Bool :=
  if negative then decide (size ≤ 1 <<< (bits - 1)) else decide (size < 1 <<< bits)

/-- A finite number with a point or an exponent, or one of the names of infinity and NaN. -/
def float? (text : String) : Option Datum :=
  match text with
  | ".inf" | ".Inf" | ".INF" | "+.inf" | "+.Inf" | "+.INF" =>
    some (.float (Binary64.infinity false))
  | "-.inf" | "-.Inf" | "-.INF" => some (.float (Binary64.infinity true))
  | ".nan" | ".NaN" | ".NAN" => some (.float Binary64.nan)
  | _ => ((Binary64.parse? text).filter Binary64.isFinite).map .float

/-- What reading a text as an integer gives. -/
inductive IntegerReading
  | value (datum : Datum)
  /-- It is an integer, but too wide for one. -/
  | tooWide
  /-- It is no integer, or so wide that it does not count as one. -/
  | other

def readInteger (text : String) : IntegerReading :=
  match numeral? text.toList with
  | some (negative, size) =>
    if fits 64 negative size then .value (if negative then .integer (-size) else .natural size)
    else if fits 128 negative size then .tooWide
    else .other
  | none => .other

/-- What a plain scalar without a tag means. -/
def ofPlain? (text : String) : Option Datum :=
  if text.isEmpty then some .null
  else match null? text <|> bool? text with
    | some datum => some datum
    | none =>
      match readInteger text with
      | .value datum => some datum
      | .tooWide => none
      | .other =>
        if isZeroPadded text.toList then some (.str text)
        else some ((float? text).getD (.str text))

/-- What a scalar means. -/
def ofScalar? (tag : Option Tag) (text : String) (plain : Bool) : Option Datum :=
  match tag with
  | none | some .illegible => if plain then ofPlain? text else some (.str text)
  | some .bool => bool? text
  | some .int =>
    match readInteger text with
    | .value datum => some datum
    | _ => none
  | some .float => float? text
  | some .null => null? text
  | some .own => none
  | some .other => some (.str text)

/-! ## Trees -/

mutual

/-- What a node means. -/
def ofContent? : Content → Option Datum
  | .scalar tag text plain => ofScalar? tag text plain
  | .sequence tag items =>
    if tag = some .own then none else (ofItems? items).map .sequence
  | .mapping tag entries =>
    if tag = some .own then none else (ofEntries? entries).map .mapping

def ofItems? : List Content → Option (List Datum)
  | [] => some []
  | item :: items => do
    let item ← ofContent? item
    let items ← ofItems? items
    return item :: items

def ofEntries? : List (Content × Content) → Option (List (Datum × Datum))
  | [] => some []
  | (key, value) :: entries => do
    let key ← ofContent? key
    let value ← ofContent? value
    let entries ← ofEntries? entries
    return (key, value) :: entries

end

/-! ## Keys -/

/-- Whether two floating point numbers are the same key. -/
def sameFloat (a b : Binary64) : Bool := a.ieeeEq b || (a.isNaN && b.isNaN)

mutual

/-- Whether two data are the same key. The order of a mapping does not count. -/
def same : Datum → Datum → Bool
  | .null, .null => true
  | .bool a, .bool b => a == b
  | .natural a, .natural b => a == b
  | .natural a, .integer b | .integer b, .natural a => (a : Int) == b
  | .integer a, .integer b => a == b
  | .float a, .float b => sameFloat a b
  | .str a, .str b => a == b
  | .sequence as, .sequence bs => sameItems as bs
  | .mapping as, .mapping bs => as.length == bs.length && sameEntries as bs
  | _, _ => false

def sameItems : List Datum → List Datum → Bool
  | [], [] => true
  | a :: as, b :: bs => a.same b && sameItems as bs
  | _, _ => false

/-- Whether the entries `bs` hold each of the given entries. -/
def sameEntries : List (Datum × Datum) → List (Datum × Datum) → Bool
  | [], _ => true
  | (key, a) :: as, bs =>
    (bs.any fun (other, b) => key.same other && a.same b) && sameEntries as bs

end

mutual

/-- Whether no mapping in a datum has a key twice. -/
def distinctKeys : Datum → Bool
  | .sequence items => distinctKeysInItems items
  | .mapping entries => distinctKeysInEntries entries
  | _ => true

def distinctKeysInItems : List Datum → Bool
  | [] => true
  | item :: items => item.distinctKeys && distinctKeysInItems items

def distinctKeysInEntries : List (Datum × Datum) → Bool
  | [] => true
  | (key, value) :: entries =>
    key.distinctKeys && value.distinctKeys && !(entries.any fun (other, _) => key.same other)
      && distinctKeysInEntries entries

end

end Datum

end ConfigBinding.Yaml
