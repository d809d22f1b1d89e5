import ConfigBinding.SyntaxError

/-!
# A place among tokens

A cursor stands before the next token of a source. It knows where the last token behind it ends, so
that the span of what was read between two cursors can be told from the two alone. At the end of the
input reports point just behind the last token.

Results:
1. `rest_advance`: a cursor moves by one token.
-/

namespace ConfigBinding

/-- A place among the tokens of the source with number `file`, whose last token ends at `finish`. -/
structure Cursor where
  file : Nat
  finish : Nat
  /-- The end of the last token behind the cursor. -/
  reached : Nat
  rest : List Lexeme

namespace Cursor

/-- The cursor before the first token. -/
def start (file : Nat) (lexemes : List Lexeme) : Cursor :=
  ⟨file, (lexemes.getLast?.map Lexeme.stop).getD 0, 0, lexemes⟩

def peek? (c : Cursor) : Option Token := c.rest.head?.map Lexeme.token

def atEnd (c : Cursor) : Bool := c.rest.isEmpty

/-- The cursor behind the next token. -/
def advance (c : Cursor) : Cursor :=
  match c.rest with
  | [] => c
  | lexeme :: rest => { c with reached := lexeme.stop, rest := rest }

def sees (c : Cursor) (m : Mark) : Bool := c.peek? == some (.mark m)

/-- The offset at which the next token starts. -/
def offset (c : Cursor) : Nat := (c.rest.head?.map Lexeme.start).getD c.finish

/-- The span of the next token; at the end of the input it is empty. -/
def here (c : Cursor) : Span :=
  match c.rest with
  | [] => ⟨c.file, c.finish, c.finish⟩
  | lexeme :: _ => ⟨c.file, lexeme.start, lexeme.stop⟩

/-- The empty span before the next token. -/
def before (c : Cursor) : Span := ⟨c.file, c.offset, c.offset⟩

/-- The span of the tokens between this cursor and a later one. -/
def spanTo (c later : Cursor) : Span :=
  ⟨c.file, c.offset, if later.rest.length < c.rest.length then later.reached else c.offset⟩

/-- The report that the next token has no place here. -/
def unexpected (c : Cursor) (place : SyntaxError.Place) : SyntaxError :=
  ⟨.unexpected c.peek? place, c.here⟩

/-- Passes over the given mark, which has to be next. -/
def expect (m : Mark) (c : Cursor) : Except SyntaxError Cursor :=
  if c.sees m then .ok c.advance else .error ⟨.expected m c.peek?, c.here⟩

/-- Passes over the given mark if it is next. -/
def skip (m : Mark) (c : Cursor) : Cursor := if c.sees m then c.advance else c

/-- Reads a name; a keyword of statements may stand for one. -/
def expectName (place : SyntaxError.Place) (c : Cursor) : Except SyntaxError (String × Cursor) :=
  match c.peek?.bind Token.name? with
  | some name => .ok (name, c.advance)
  | none => .error (c.unexpected place)

theorem rest_advance (c : Cursor) : c.advance.rest = c.rest.tail := by
  unfold advance
  split <;> simp_all

/-- Reads the segments that follow a name, each behind a dot. -/
def segments (place : SyntaxError.Place) :
    Nat → Cursor → Except SyntaxError (List String × Cursor)
  | 0, c => .ok ([], c)
  | fuel + 1, c =>
    if c.sees .dot then do
      let (segment, c) ← c.advance.expectName place
      let (more, c) ← segments place fuel c
      return (segment :: more, c)
    else .ok ([], c)

/-- Reads a dotted name. -/
def dotted (place : SyntaxError.Place) (c : Cursor) : Except SyntaxError (DottedName × Cursor) := do
  let (first, c) ← c.expectName place
  let (more, c) ← segments place c.rest.length c
  return (⟨first :: more⟩, c)

/-- Reads the rest of a scoped name whose last name so far is `name`: as long as a slash follows,
`name` was a segment of the scope and may have no dots. If it has, `blame` says what the report
points at. -/
def scopedRest (place : SyntaxError.Place) (blame : Cursor → Span) :
    Nat → List String → DottedName → Cursor →
      Except SyntaxError ((List String × DottedName) × Cursor)
  | 0, scope, name, c => .ok ((scope, name), c)
  | fuel + 1, scope, name, c =>
    if c.sees .slash then
      if name.size = 1 then do
        let (next, after) ← c.advance.dotted place
        scopedRest place blame fuel (scope ++ [name.toText]) next after
      else .error ⟨.dottedScope name, blame c⟩
    else .ok ((scope, name), c)

/-- Reads a dotted name with its scope before it, below the scope segments `outer`. -/
def scopedName (place : SyntaxError.Place) (blame : Cursor → Span) (outer : List String)
    (c : Cursor) : Except SyntaxError ((Scope × DottedName) × Cursor) := do
  let (name, c) ← c.dotted place
  let ((scope, name), c) ← scopedRest place blame c.rest.length outer name c
  return ((⟨scope⟩, name), c)

/-- Reads strings that follow each other, which are one text. -/
def strings : Nat → Cursor → String × Cursor
  | 0, c => ("", c)
  | fuel + 1, c =>
    match c.peek? with
    | some (.str text) =>
      let (more, after) := strings fuel c.advance
      (text ++ more, after)
    | _ => ("", c)

end Cursor

end ConfigBinding
