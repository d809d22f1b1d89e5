import ConfigBinding.Entries
import ConfigBinding.Expr.Printer
import ConfigBinding.Text.Shown

/-!
# Values

What a parameter has once macros are substituted and references are constructed. A mapping has each
key once. A constructed configurable is a value as well: it holds the parameters it was made with
and what its constructor made of them.

Values are compared as data, with two exceptions. Numbers are compared as numbers, so NaN differs
from itself; and a constructed configurable is told by its key alone, since one graph has only one
for each key.

Results:
1. `Value.toText_literal`: a constant is written as its literal is.
2. `Value.induction`: what holds of a value if it holds of its parts holds of all.
-/

namespace ConfigBinding

/-- The identity of a constructed configurable: its scope and its registered name. -/
structure NodeKey where
  scope : Scope
  symbol : DottedName
deriving DecidableEq, Repr

def NodeKey.toText (key : NodeKey) : String := key.scope.qualify key.symbol.toText

instance : ToString NodeKey := ⟨NodeKey.toText⟩

/-- The value of a parameter. -/
inductive Value
  | none
  | bool (value : Bool)
  | int (value : Int64)
  | float (value : Binary64)
  | str (text : String)
  | list (items : List Value)
  | tuple (items : List Value)
  | map (entries : List (String × Value))
  /-- A constructed configurable. Without a product it is the plain record of its parameters. -/
  | object (key : NodeKey) (params : List (String × Value)) (product : Option String)

namespace Value

instance : Inhabited Value := ⟨.none⟩

def ofLiteral : Literal → Value
  | .none => .none
  | .bool value => .bool value
  | .int value => .int value
  | .float value => .float value
  | .str text => .str text

/-- The name of a value's shape in messages. -/
def shape : Value → String
  | .none => "None"
  | .bool _ => "bool"
  | .int _ => "int"
  | .float _ => "float"
  | .str _ => "string"
  | .list _ => "list"
  | .tuple _ => "tuple"
  | .map _ => "mapping"
  | .object _ _ _ => "reference"

def isNone : Value → Bool
  | .none => true
  | _ => false

def bool? : Value → Option Bool
  | .bool value => some value
  | _ => Option.none

def int? : Value → Option Int64
  | .int value => some value
  | _ => Option.none

/-- A number as a floating point number; an integer is rounded to the nearest one. -/
def float? : Value → Option Binary64
  | .float value => some value
  | .int value => some (Binary64.ofInt value.toInt)
  | _ => Option.none

def str? : Value → Option String
  | .str text => some text
  | _ => Option.none

/-- The items of a list or a tuple. -/
def items? : Value → Option (List Value)
  | .list items | .tuple items => some items
  | _ => Option.none

def map? : Value → Option (List (String × Value))
  | .map entries => some entries
  | _ => Option.none

def key? : Value → Option NodeKey
  | .object key _ _ => some key
  | _ => Option.none

mutual

/-- Whether no constructed configurable occurs in a value. -/
def isPlain : Value → Bool
  | .none | .bool _ | .int _ | .float _ | .str _ => true
  | .list items => arePlain items
  | .tuple items => arePlain items
  | .map entries => entriesArePlain entries
  | .object _ _ _ => false

def arePlain : List Value → Bool
  | [] => true
  | item :: items => item.isPlain && arePlain items

def entriesArePlain : List (String × Value) → Bool
  | [] => true
  | (_, value) :: entries => value.isPlain && entriesArePlain entries

end

/-! ## Comparison -/

mutual

/-- Whether two values are equal. -/
def same : Value → Value → Bool
  | .none, .none => true
  | .bool a, .bool b => a == b
  | .int a, .int b => a == b
  | .float a, .float b => a.ieeeEq b
  | .str a, .str b => a == b
  | .list as, .list bs => sameItems as bs
  | .tuple as, .tuple bs => sameItems as bs
  | .map as, .map bs => as.length == bs.length && sameEntries as bs
  | .object a _ _, .object b _ _ => a == b
  | _, _ => false

def sameItems : List Value → List Value → Bool
  | [], [] => true
  | a :: as, b :: bs => a.same b && sameItems as bs
  | _, _ => false

/-- Whether each entry is found, with an equal value, among the entries `bs`. -/
def sameEntries : List (String × Value) → List (String × Value) → Bool
  | [], _ => true
  | (key, a) :: as, bs =>
    (match Entries.get? key bs with
      | some b => a.same b
      | Option.none => false) && sameEntries as bs

end

/-! ## Written values -/

mutual

/-- A value in the syntax of the language; a constructed configurable is the call that makes it. -/
def toText : Value → String
  | .none => Literal.none.toText
  | .bool value => (Literal.bool value).toText
  | .int value => (Literal.int value).toText
  | .float value => (Literal.float value).toText
  | .str text => (Literal.str text).toText
  | .list items => Expr.enclose "[" "]" false (toTexts items)
  | .tuple items => Expr.enclose "(" ")" true (toTexts items)
  | .map entries => Expr.enclose "\x7b" "\x7d" false (entryTexts entries)
  | .object key _ _ => (Reference.mk key.scope key.symbol true).toText

def toTexts : List Value → List String
  | [] => []
  | item :: items => item.toText :: toTexts items

def entryTexts : List (String × Value) → List String
  | [] => []
  | (key, value) :: entries =>
    (Text.Quoted.quote key ++ ": " ++ value.toText) :: entryTexts entries

end

mutual

/-- A value with its shape, for inspection: no number has an exponent, and a whole number shows no
point. -/
def shown : Value → String
  | .none => "None"
  | .bool value => "Bool(" ++ (if value then "true" else "false") ++ ")"
  | .int value => "Int(" ++ toString value.toInt ++ ")"
  | .float value => "Float(" ++ FloatNotation.plain.write value ++ ")"
  | .str text => "Str(" ++ Text.Shown.quote text ++ ")"
  | .list items => "List([" ++ Text.join ", " (shownItems items) ++ "])"
  | .tuple items => "Tuple([" ++ Text.join ", " (shownItems items) ++ "])"
  | .map entries => "Map(\x7b" ++ Text.join ", " (shownEntries entries) ++ "\x7d)"
  | .object key _ _ => "Object(" ++ key.toText ++ ")"

def shownItems : List Value → List String
  | [] => []
  | item :: items => item.shown :: shownItems items

def shownEntries : List (String × Value) → List String
  | [] => []
  | (key, value) :: entries =>
    (Text.Shown.quote key ++ ": " ++ value.shown) :: shownEntries entries

end

theorem toText_literal (literal : Literal) : (ofLiteral literal).toText = literal.toText := by
  cases literal <;> rfl

theorem toTexts_eq (items : List Value) : toTexts items = items.map toText := by
  induction items with
  | nil => rfl
  | cons item items ih => rw [toTexts, ih, List.map_cons]

theorem entryTexts_eq (entries : List (String × Value)) :
    entryTexts entries =
      entries.map fun entry => Text.Quoted.quote entry.1 ++ ": " ++ entry.2.toText := by
  induction entries with
  | nil => rfl
  | cons entry entries ih => rw [entryTexts, ih, List.map_cons]

/-! ## Induction -/

@[elab_as_elim]
theorem induction {P : Value → Prop} (literal : ∀ literal, P (ofLiteral literal))
    (list : ∀ items, (∀ item ∈ items, P item) → P (.list items))
    (tuple : ∀ items, (∀ item ∈ items, P item) → P (.tuple items))
    (map : ∀ entries, (∀ entry ∈ entries, P entry.2) → P (.map entries))
    (object : ∀ key params product, (∀ entry ∈ params, P entry.2) → P (.object key params product))
    (value : Value) : P value := by
  refine @Value.rec P (fun items => ∀ item ∈ items, P item)
    (fun entries => ∀ entry ∈ entries, P entry.2) (fun entry => P entry.2)
    (literal .none) (fun value => literal (.bool value)) (fun value => literal (.int value))
    (fun value => literal (.float value)) (fun text => literal (.str text)) list tuple map
    (fun key params product each => object key params product each) ?_ ?_ ?_ ?_ ?_ value
  · exact fun _ member => nomatch member
  · exact fun _ _ first rest => List.forall_mem_cons.mpr ⟨first, rest⟩
  · exact fun _ member => nomatch member
  · exact fun _ _ first rest => List.forall_mem_cons.mpr ⟨first, rest⟩
  · exact fun _ _ holds => holds

end Value

end ConfigBinding
