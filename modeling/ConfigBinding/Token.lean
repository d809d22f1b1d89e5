import ConfigBinding.Number.Notation
import ConfigBinding.Source.Span

/-!
# Tokens

The words of the binding language: marks with a fixed spelling, number and string literals, and
names. Keywords are reserved only at the start of a statement, so each of the four statement
keywords is a name as well.

Results:
1. `spelling_injective`: a mark is known by its spelling.
-/

namespace ConfigBinding

/-- A token with a fixed spelling. -/
inductive Mark
  | kwImport | kwFrom | kwInclude | kwAs
  | constTrue | constFalse | constNone
  | atSign | percent | slash | equals | colon | comma | dot
  | openParen | closeParen | openBracket | closeBracket | openBrace | closeBrace
deriving DecidableEq, Repr

namespace Mark

def spelling : Mark → String
  | .kwImport => "import"
  | .kwFrom => "from"
  | .kwInclude => "include"
  | .kwAs => "as"
  | .constTrue => "True"
  | .constFalse => "False"
  | .constNone => "None"
  | .atSign => "@"
  | .percent => "%"
  | .slash => "/"
  | .equals => "="
  | .colon => ":"
  | .comma => ","
  | .dot => "."
  | .openParen => "("
  | .closeParen => ")"
  | .openBracket => "["
  | .closeBracket => "]"
  | .openBrace => "\x7b"
  | .closeBrace => "\x7d"

/-- The mark that is one character long. -/
def ofChar? : Char → Option Mark
  | '@' => some .atSign
  | '%' => some .percent
  | '/' => some .slash
  | '=' => some .equals
  | ':' => some .colon
  | ',' => some .comma
  | '.' => some .dot
  | '(' => some .openParen
  | ')' => some .closeParen
  | '[' => some .openBracket
  | ']' => some .closeBracket
  | '\x7b' => some .openBrace
  | '\x7d' => some .closeBrace
  | _ => none

/-- The mark that is spelled like a name. -/
def ofWord? : String → Option Mark
  | "import" => some .kwImport
  | "from" => some .kwFrom
  | "include" => some .kwInclude
  | "as" => some .kwAs
  | "True" => some .constTrue
  | "False" => some .constFalse
  | "None" => some .constNone
  | _ => none

/-- Whether the mark may also stand where a name is expected. -/
def isName : Mark → Bool
  | .kwImport | .kwFrom | .kwInclude | .kwAs => true
  | _ => false

theorem spelling_injective {a b : Mark} (same : a.spelling = b.spelling) : a = b := by
  revert same
  cases a <;> cases b <;> decide

end Mark

/-- A token of the binding language. -/
inductive Token
  | mark (mark : Mark)
  | int (value : Int64)
  | float (value : Binary64)
  | str (text : String)
  | ident (name : String)
deriving DecidableEq

namespace Token

/-- The token as messages show it; the text of a string stands between quotes as it is. -/
def toText : Token → String
  | .mark m => m.spelling
  | .int n => toString n.toInt
  | .float x => x.toText
  | .str text => "'" ++ text ++ "'"
  | .ident name => name

/-- The name that the token stands for, if it may stand for one. -/
def name? : Token → Option String
  | .ident name => some name
  | .mark m => if m.isName then some m.spelling else none
  | _ => none

theorem spelling_of_name? {m : Mark} {name : String} (named : (mark m).name? = some name) :
    m.spelling = name := by
  rw [name?] at named
  split at named
  · exact Option.some.inj named
  · cases named

end Token

/-- A token with the bytes of the source that it was read from. -/
structure Lexeme where
  token : Token
  start : Nat
  stop : Nat
deriving DecidableEq

/-- The lexeme with its offsets as spans store them. -/
def Lexeme.stored (l : Lexeme) : Lexeme := ⟨l.token, storedOffset l.start, storedOffset l.stop⟩

end ConfigBinding
