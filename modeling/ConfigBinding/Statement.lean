import ConfigBinding.Expr.Printer

/-!
# Statements

A binding file is a sequence of statements: imports, the switch that lets imports rename symbols,
inclusions of other files, definitions of macros, and bindings of parameters. A binding is written
for one parameter, or as a block for several parameters of one symbol.

Statements are written in the syntax in which they are read.
-/

namespace ConfigBinding

/-- An import: of a module as a whole, or of its last segment from the rest of its path. -/
structure Import where
  /-- The full path of what is imported. -/
  path : DottedName
  /-- The name given by `as`, if there is one. -/
  asName : Option String
  /-- Whether the import is written `from a import b`. -/
  fromForm : Bool
deriving DecidableEq, Repr

/-- The name under which the file knows what it imports: the given name, else the last segment if
it is imported from its parent, else the whole path. -/
def Import.localName (imported : Import) : DottedName :=
  match imported.asName, imported.fromForm with
  | some name, _ => DottedName.parse name
  | none, true => DottedName.parse (imported.path.last?.getD "")
  | none, false => imported.path

/-- What a binding gives to its symbol. -/
inductive BindingBody
  | single (param : String) (value : Expr)
  /-- Several parameters at once, with the span from brace to brace. -/
  | block (entries : List (String × Expr)) (span : Span)

/-- A binding of parameters of a symbol in a scope. -/
structure Binding where
  scope : Scope
  symbol : DottedName
  body : BindingBody

/-- The parameters that the binding gives, in order. -/
def Binding.parameters (binding : Binding) : List (String × Expr) :=
  match binding.body with
  | .single param value => [(param, value)]
  | .block entries _ => entries

/-- What a statement says. -/
inductive StatementBody
  | importPath (imported : Import)
  /-- `from __gin__ import dynamic_registration`. -/
  | dynamicRegistration
  | includeFile (path : String)
  | macroDef (name : String) (value : Expr)
  | binding (binding : Binding)

/-- A statement with the span from its first to its last token. -/
structure Statement where
  body : StatementBody
  span : Span

/-! ## Written statements -/

/-- What stands before the equals sign or the colon. -/
def Binding.targetText (binding : Binding) : String :=
  binding.scope.qualify binding.symbol.toText ++
    match binding.body with
    | .single param _ => "." ++ param
    | .block _ _ => ""

def Binding.toText (binding : Binding) : String :=
  match binding.body with
  | .single _ value => binding.targetText ++ " = " ++ value.toText
  | .block entries _ =>
    binding.targetText ++ ": \x7b\n"
      ++ String.join (entries.map fun entry =>
          "    " ++ entry.1 ++ " = " ++ entry.2.toText ++ ",\n")
      ++ "\x7d"

def Import.toText (imported : Import) : String :=
  (if imported.fromForm then
    "from " ++ (match imported.path.parent? with
      | some parent => parent.toText
      | none => "") ++ " import " ++ imported.path.last?.getD ""
  else "import " ++ imported.path.toText)
  ++ (match imported.asName with
    | some name => " as " ++ name
    | none => "")

def Statement.toText (statement : Statement) : String :=
  match statement.body with
  | .importPath imported => imported.toText
  | .dynamicRegistration => "from __gin__ import dynamic_registration"
  | .includeFile path => "include " ++ Text.Quoted.quote path
  | .macroDef name value => name ++ " = " ++ value.toText
  | .binding binding => binding.toText

end ConfigBinding
