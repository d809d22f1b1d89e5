import ConfigBinding.Expr.Parser
import ConfigBinding.Statement

/-!
# Reading statements

The first token of a statement decides between an import, an inclusion and an assignment. An
assignment to a name without dots and scope defines a macro; the last segment of a dotted name is
the parameter of a binding; a colon opens a block of parameters.

Statements need no separator: a statement ends where the next token cannot go on with it.
-/

namespace ConfigBinding

namespace Statement

/-- The module whose import switches dynamic registration on. -/
def switchModule : String := "__gin__"

def switchName : String := "dynamic_registration"

/-- Reads `as name`, if it is there. -/
def parseAsName (c : Cursor) : Except SyntaxError (Option String × Cursor) :=
  if c.sees .kwAs then do
    let (name, c) ← c.advance.expectName .importAlias
    return (some name, c)
  else .ok (none, c)

/-- Reads an import of a whole path, behind its keyword. -/
def parseImport (c : Cursor) : Except SyntaxError (StatementBody × Cursor) := do
  let (path, c) ← c.dotted .importPath
  let (asName, c) ← parseAsName c
  return (.importPath ⟨path, asName, false⟩, c)

/-- Reads an import from a parent, behind the keyword `from`. -/
def parseFromImport (c : Cursor) : Except SyntaxError (StatementBody × Cursor) := do
  let (parent, c) ← c.dotted .importPath
  let c ← c.expect .kwImport
  let (name, c) ← c.expectName .importPath
  if parent.toText = switchModule then
    if name = switchName then return (.dynamicRegistration, c)
    throw ⟨.unknownSwitch name, c.here⟩
  let (asName, c) ← parseAsName c
  return (.importPath ⟨parent.append name, asName, true⟩, c)

/-- Reads an inclusion, behind its keyword. -/
def parseInclude (c : Cursor) : Except SyntaxError (StatementBody × Cursor) :=
  match c.peek? with
  | some (.str path) => .ok (.includeFile path, c.advance)
  | _ => .error (c.unexpected .includePath)

/-- Reads the parameters of a block up to its closing brace; `seen` are those read already. -/
def parseBlockEntries : Nat → List String → Cursor →
    Except SyntaxError (List (String × Expr) × Cursor)
  | 0, _, c => .error (c.unexpected .paramName)
  | fuel + 1, seen, c =>
    if c.sees .closeBrace then .ok ([], c)
    else do
      let (param, after) ← c.expectName .paramName
      if param ∈ seen then throw ⟨.repeatedParam param, c.spanTo after⟩
      let after ← after.expect .equals
      let (value, after) ← Expr.parseAt after
      let (entries, after) ← parseBlockEntries fuel (param :: seen) (after.skip .comma)
      return ((param, value) :: entries, after)

/-- Reads the block of a binding, from brace to brace. -/
def parseBlock (c : Cursor) : Except SyntaxError (BindingBody × Cursor) := do
  let inner ← c.expect .openBrace
  let (entries, after) ← parseBlockEntries (inner.rest.length + 1) [] inner
  let after ← after.expect .closeBrace
  return (.block entries (c.spanTo after), after)

/-- What an assignment to a name in a scope is; `target` is the span of both. -/
def assign (scope : Scope) (path : DottedName) (target : Span) (value : Expr) :
    Except SyntaxError StatementBody :=
  match path.parent? with
  | some symbol => .ok (.binding ⟨scope, symbol, .single (path.last?.getD "") value⟩)
  | none =>
    if scope.isRoot then .ok (.macroDef path.toText value)
    else .error ⟨.scopedMacro scope path, target⟩

/-- Reads a macro definition or a binding. -/
def parseAssignment (c : Cursor) : Except SyntaxError (StatementBody × Cursor) := do
  let ((scope, path), after) ← c.scopedName .bindingTarget Cursor.here []
  if after.sees .colon then
    let (body, after) ← parseBlock after.advance
    return (.binding ⟨scope, path, body⟩, after)
  let valueStart ← after.expect .equals
  let (value, last) ← Expr.parseAt valueStart
  let body ← assign scope path (c.spanTo after) value
  return (body, last)

/-- Reads what a statement says. -/
def parseBody (c : Cursor) : Except SyntaxError (StatementBody × Cursor) :=
  match c.peek? with
  | some (.mark .kwImport) => parseImport c.advance
  | some (.mark .kwFrom) => parseFromImport c.advance
  | some (.mark .kwInclude) => parseInclude c.advance
  | some token =>
    if token.name?.isSome then parseAssignment c else .error (c.unexpected .statementStart)
  | none => .error (c.unexpected .statementStart)

/-- Reads one statement. -/
def parseAt (c : Cursor) : Except SyntaxError (Statement × Cursor) := do
  let (body, after) ← parseBody c
  return (⟨body, c.spanTo after⟩, after)

/-- Reads statements up to the end of the input; each takes a token. -/
def parseAll : Nat → Cursor → Except SyntaxError (List Statement)
  | 0, _ => .ok []
  | fuel + 1, c =>
    if c.atEnd then .ok []
    else do
      let (statement, c) ← parseAt c
      let statements ← parseAll fuel c
      return statement :: statements

/-- Reads tokens as a sequence of statements. -/
def ofLexemes (file : Nat) (lexemes : List Lexeme) : Except SyntaxError (List Statement) :=
  parseAll lexemes.length (Cursor.start file lexemes)

/-- Reads a source text as a sequence of statements. -/
def parseSource (file : Nat) (text : String) : Except SyntaxError (List Statement) :=
  match tokenize text with
  | .error error => .error (.ofLexError file error)
  | .ok lexemes => ofLexemes file lexemes

/-- Reads a source text, with offsets as spans store them. -/
def parseStored (file : Nat) (text : String) : Except SyntaxError (List Statement) :=
  SyntaxError.readStored file text (ofLexemes file)

/-- Whether a statement defines a macro or binds parameters. -/
def isAssignment (statement : Statement) : Bool :=
  match statement.body with
  | .macroDef _ _ | .binding _ => true
  | _ => false

/-- Reads tokens that are one macro definition or binding and nothing else. -/
def assignmentOfLexemes (file : Nat) (lexemes : List Lexeme) : Except SyntaxError Statement := do
  let (statement, c) ← parseAt (Cursor.start file lexemes)
  if c.atEnd then
    if statement.isAssignment then return statement
    throw ⟨.notBinding, statement.span⟩
  throw (c.unexpected .afterBinding)

/-- Reads a text that is one macro definition or binding and nothing else. -/
def parseAssignmentText (file : Nat) (text : String) : Except SyntaxError Statement :=
  match tokenize text with
  | .error error => .error (.ofLexError file error)
  | .ok lexemes => assignmentOfLexemes file lexemes

/-- Reads a text that is one macro definition or binding, with offsets as spans store them. -/
def parseStoredAssignment (file : Nat) (text : String) : Except SyntaxError Statement :=
  SyntaxError.readStored file text (assignmentOfLexemes file)

end Statement

end ConfigBinding
