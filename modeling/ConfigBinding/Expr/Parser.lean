import ConfigBinding.Expr
import ConfigBinding.Token.Cursor

/-!
# Reading expressions

Values are constants, containers, macros and references; there are no operators. One token decides
what a value is. Adjacent strings are one string. A value between parentheses is the value itself
under a longer span, unless a comma makes it a tuple.

The reader takes steps from a token to the tokens behind it, and enters a container behind its
bracket, so twice the number of tokens bounds its depth.
-/

namespace ConfigBinding

namespace Expr

/-- Reads the scope segments before the `@` of a reference: names, each with a slash behind it. -/
def parseOuterScope : Nat → Cursor → Except SyntaxError (List String × Cursor)
  | 0, c => .error (c.unexpected .referenceScope)
  | fuel + 1, c => do
    let (segment, c) ← c.expectName .referenceScope
    let c ← c.expect .slash
    if c.sees .atSign then return ([segment], c)
    let (segments, c) ← parseOuterScope fuel c
    return (segment :: segments, c)

/-- Reads what follows the `@` of a reference below the scope segments `outer`. -/
def parseReference (outer : List String) (c : Cursor) :
    Except SyntaxError (Reference × Cursor) := do
  let ((scope, symbol), c) ← c.scopedName .reference Cursor.before outer
  if c.sees .openParen then
    let c ← c.advance.expect .closeParen
    return (⟨scope, symbol, true⟩, c)
  return (⟨scope, symbol, false⟩, c)

/-- What parentheses around items mean: one item without a comma is the item itself. -/
def ofParentheses (items : List Expr) (comma : Bool) (span : Span) : Expr :=
  match items, comma with
  | [item], false => item.withSpan span
  | items, _ => .tuple items span

mutual

/-- Reads one value. -/
def parseFuel : Nat → Cursor → Except SyntaxError (Expr × Cursor)
  | 0, c => .error (c.unexpected .value)
  | fuel + 1, c =>
    match c.peek? with
    | some (.str _) =>
      let (text, after) := c.strings c.rest.length
      .ok (.literal (.str text) (c.spanTo after), after)
    | some (.int n) => .ok (.literal (.int n) (c.spanTo c.advance), c.advance)
    | some (.float x) => .ok (.literal (.float x) (c.spanTo c.advance), c.advance)
    | some (.mark .constTrue) => .ok (.literal (.bool true) (c.spanTo c.advance), c.advance)
    | some (.mark .constFalse) => .ok (.literal (.bool false) (c.spanTo c.advance), c.advance)
    | some (.mark .constNone) => .ok (.literal .none (c.spanTo c.advance), c.advance)
    | some (.mark .openBracket) => do
      let ((items, _), after) ← parseItems .closeBracket fuel false c.advance
      let after ← after.expect .closeBracket
      return (.list items (c.spanTo after), after)
    | some (.mark .openParen) => do
      let ((items, comma), after) ← parseItems .closeParen fuel false c.advance
      let after ← after.expect .closeParen
      return (ofParentheses items comma (c.spanTo after), after)
    | some (.mark .openBrace) => do
      let (entries, after) ← parseEntries fuel c.advance
      let after ← after.expect .closeBrace
      return (.map entries (c.spanTo after), after)
    | some (.mark .percent) => do
      let (name, after) ← c.advance.dotted .macroName
      return (.macroRef name (c.spanTo after), after)
    | some (.mark .atSign) => do
      let (target, after) ← parseReference [] c.advance
      return (.reference target (c.spanTo after), after)
    | some token =>
      if token.name?.isSome then do
        let (outer, after) ← parseOuterScope c.rest.length c
        let after ← after.expect .atSign
        let (target, after) ← parseReference outer after
        return (.reference target (c.spanTo after), after)
      else .error (c.unexpected .value)
    | none => .error (c.unexpected .value)

/-- Reads items up to the closing bracket, and whether a comma stands right before it. `comma` says
so of what was read already. -/
def parseItems (close : Mark) : Nat → Bool → Cursor →
    Except SyntaxError ((List Expr × Bool) × Cursor)
  | 0, _, c => .error (c.unexpected .value)
  | fuel + 1, comma, c =>
    if c.sees close then .ok (([], comma), c)
    else do
      let (item, c) ← parseFuel fuel c
      if c.sees .comma then
        let ((items, comma), c) ← parseItems close fuel true c.advance
        return ((item :: items, comma), c)
      return (([item], false), c)

/-- Reads the entries of a mapping up to its closing brace. -/
def parseEntries : Nat → Cursor → Except SyntaxError (List (String × Expr) × Cursor)
  | 0, c => .error (c.unexpected .value)
  | fuel + 1, c =>
    if c.sees .closeBrace then .ok ([], c)
    else match c.peek? with
      | some (.str _) => do
        let (key, c) := c.strings c.rest.length
        let c ← c.expect .colon
        let (value, c) ← parseFuel fuel c
        if c.sees .comma then
          let (entries, c) ← parseEntries fuel c.advance
          return ((key, value) :: entries, c)
        return ([(key, value)], c)
      | _ => .error (c.unexpected .mapKey)

end

/-- A depth that no value at the cursor exceeds. -/
def depthAt (c : Cursor) : Nat := 2 * c.rest.length + 2

/-- Reads one value at the cursor. -/
def parseAt (c : Cursor) : Except SyntaxError (Expr × Cursor) := parseFuel (depthAt c) c

/-- Reads tokens that are one value and nothing else. -/
def ofLexemes (file : Nat) (lexemes : List Lexeme) : Except SyntaxError Expr := do
  let (value, c) ← parseAt (Cursor.start file lexemes)
  if c.atEnd then return value
  throw (c.unexpected .afterValue)

/-- Reads a text that is one value and nothing else. -/
def parse (file : Nat) (text : String) : Except SyntaxError Expr :=
  match tokenize text with
  | .error error => .error (.ofLexError file error)
  | .ok lexemes => ofLexemes file lexemes

/-- Reads a text that is one value, with offsets as spans store them. -/
def parseStored (file : Nat) (text : String) : Except SyntaxError Expr :=
  SyntaxError.readStored file text (ofLexemes file)

end Expr

end ConfigBinding
