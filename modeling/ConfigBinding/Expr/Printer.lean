import ConfigBinding.Expr
import ConfigBinding.Number.Notation
import ConfigBinding.Text.Quoted

/-!
# Written expressions

An expression is written in the syntax in which it is read: items with a comma and a blank between
them, a comma behind the only item of a tuple, strings between single quotes.
-/

namespace ConfigBinding

def Literal.toText : Literal → String
  | .none => "None"
  | .bool true => "True"
  | .bool false => "False"
  | .int n => toString n.toInt
  | .float x => x.toText
  | .str text => Text.Quoted.quote text

def Reference.toText (target : Reference) : String :=
  "@" ++ target.scope.qualify target.symbol.toText ++ (if target.call then "()" else "")

namespace Expr

/-- The items of a container between its brackets. A tuple of one item needs a comma to be one. -/
def enclose (opening closing : String) (onlyNeedsComma : Bool) (items : List String) : String :=
  opening ++ Text.join ", " items
    ++ (if onlyNeedsComma && items.length == 1 then "," else "") ++ closing

mutual

def toText : Expr → String
  | .literal value _ => value.toText
  | .list items _ => enclose "[" "]" false (toTexts items)
  | .tuple items _ => enclose "(" ")" true (toTexts items)
  | .map entries _ => enclose "\x7b" "\x7d" false (entryTexts entries)
  | .macroRef name _ => "%" ++ name.toText
  | .reference target _ => target.toText

def toTexts : List Expr → List String
  | [] => []
  | item :: items => item.toText :: toTexts items

def entryTexts : List (String × Expr) → List String
  | [] => []
  | (key, value) :: entries =>
    (Text.Quoted.quote key ++ ": " ++ value.toText) :: entryTexts entries

end

theorem toTexts_eq (items : List Expr) : toTexts items = items.map toText := by
  induction items with
  | nil => rfl
  | cons item items ih => rw [toTexts, ih, List.map_cons]

theorem entryTexts_eq (entries : List (String × Expr)) :
    entryTexts entries =
      entries.map fun entry => Text.Quoted.quote entry.1 ++ ": " ++ entry.2.toText := by
  induction entries with
  | nil => rfl
  | cons entry entries ih => rw [entryTexts, ih, List.map_cons]

end Expr

end ConfigBinding
