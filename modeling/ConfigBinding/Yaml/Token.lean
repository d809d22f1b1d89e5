import ConfigBinding.Source.Span

/-!
# Tokens of YAML

A YAML text is a sequence of marks, scalars and properties of nodes. The layout of a text (its
indentation, and the colons behind keys) is turned into marks that open and close collections, so
that what follows does not look at columns again.
-/

namespace ConfigBinding.Yaml

/-- A token of a YAML text. -/
inductive Token
  | versionDirective (major minor : Nat)
  | tagDirective (handle : String) (start : List UInt8)
  | documentStart
  | documentEnd
  | blockSequenceStart
  | blockMappingStart
  | blockEnd
  | flowSequenceStart
  | flowSequenceEnd
  | flowMappingStart
  | flowMappingEnd
  | blockEntry
  | flowEntry
  | key
  | value
  | aliasOf (anchor : String)
  | anchor (name : String)
  | tag (handle : String) (suffix : List UInt8)
  /-- A scalar is plain if it stands without quotes and in one of the plain styles. -/
  | scalar (text : String) (plain : Bool)
deriving DecidableEq, Repr

/-! ## Characters -/

def isBlank (c : Char) : Bool := c == ' ' || c == '\t'

def isBreak (c : Char) : Bool :=
  c == '\n' || c == '\r' || c == '\x85' || c == '\u2028' || c == '\u2029'

/-- Whether a text ends or goes on with a blank or a line break. -/
def blankNext : List Char → Bool
  | [] => true
  | c :: _ => isBlank c || isBreak c

/-- The characters of names: letters, digits, underscores and hyphens. -/
def isWordChar (c : Char) : Bool := c.isAlphanum || c == '_' || c == '-'

/-- The characters that a text may hold at all. -/
def isAllowed (c : Char) : Bool :=
  let n := c.toNat
  n == 9 || n == 10 || n == 13 || decide (32 ≤ n ∧ n ≤ 126) || n == 0x85
    || decide (0xa0 ≤ n ∧ n ≤ 0xd7ff) || decide (0xe000 ≤ n ∧ n ≤ 0xfffd)
    || decide (0x10000 ≤ n)

/-- The byte order mark, which may stand at the start of any line. -/
def byteOrderMark : Char := '\ufeff'

/-! ## Places -/

/-- A place in a text: what follows, how many bytes it is from the start of the text, and how many
characters from the start of its line. -/
structure Place where
  rest : List Char
  index : Nat
  line : Nat
  column : Nat

namespace Place

def start (cs : List Char) : Place := ⟨cs, 0, 0, 0⟩

/-- The place `count` characters further on the same line. -/
def advance (p : Place) (count : Nat) : Place :=
  ⟨p.rest.drop count, p.index + byteSize (p.rest.take count), p.line, p.column + count⟩

/-- Passes over the characters up to the given rest of the text. -/
def moveTo (p : Place) (rest : List Char) : Place :=
  p.advance (p.rest.length - rest.length)

def skipWhile (p : Place) (test : Char → Bool) : Place :=
  p.advance (p.rest.takeWhile test).length

/-- Passes over a line break, and gives it as it counts in a scalar. -/
def takeBreak (p : Place) : List Char × Place :=
  match p.rest with
  | '\r' :: '\n' :: rest => (['\n'], ⟨rest, p.index + 2, p.line + 1, 0⟩)
  | c :: rest =>
    (if c = '\u2028' ∨ c = '\u2029' then [c] else ['\n'],
      ⟨rest, p.index + c.utf8Size, p.line + 1, 0⟩)
  | [] => ([], p)

def skipBreak (p : Place) : Place := p.takeBreak.2

def next? (p : Place) : Option Char := p.rest.head?

def sees (p : Place) (c : Char) : Bool := p.next? == some c

def seesBreak (p : Place) : Bool := p.next?.any isBreak

def seesBlank (p : Place) : Bool := p.next?.any isBlank

def atEnd (p : Place) : Bool := p.rest.isEmpty

/-- Whether one of the two marks between documents stands here. -/
def seesDocumentMark (p : Place) : Bool :=
  p.column == 0 &&
    match p.rest with
    | '-' :: '-' :: '-' :: rest => blankNext rest
    | '.' :: '.' :: '.' :: rest => blankNext rest
    | _ => false

end Place

end ConfigBinding.Yaml
