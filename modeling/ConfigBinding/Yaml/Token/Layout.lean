import ConfigBinding.Yaml.Scalar
import ConfigBinding.Yaml.Tag

/-!
# From a YAML text to tokens

The state of reading holds, beside the place, what the layout needs: the columns of the open block
collections, and for each open pair of brackets the token that may turn out to be a key because a
colon follows it on the same line. When the colon comes, the mark of a key is put before that token,
and in block style the start of a mapping before the mark if the column is new.

A token can be a key only where a line, a collection or an entry starts. A token that stands at the
column of the open block collection has to be one.
-/

namespace ConfigBinding.Yaml

/-- A token that is a key if a colon follows. -/
structure PossibleKey where
  /-- Whether nothing but a key can stand here. -/
  required : Bool
  /-- The number of the token among all tokens. -/
  number : Nat
  index : Nat
  line : Nat
  column : Nat

/-- The state of reading tokens. -/
structure Layout where
  place : Place
  tokens : List Token
  /-- The column of the innermost block collection, and -1 outside all of them. -/
  indent : Int
  /-- The columns of the block collections around it. -/
  outer : List Int
  /-- Whether the next token may be a key. -/
  keyAllowed : Bool
  /-- The possible key of the innermost pair of brackets, or of the text outside brackets. -/
  possible : Option PossibleKey
  /-- The possible keys outside the innermost pair of brackets, one for each pair around it. -/
  outerPossible : List (Option PossibleKey)

namespace Layout

def start (cs : List Char) : Layout :=
  { place := Place.start cs, tokens := [], indent := -1, outer := [], keyAllowed := true,
    possible := none, outerPossible := [] }

/-- Whether the place is inside brackets or braces, where columns do not matter. -/
def inFlow (s : Layout) : Bool := !s.outerPossible.isEmpty

def push (s : Layout) (token : Token) : Layout := { s with tokens := s.tokens ++ [token] }

/-- Puts a token before the one with the given number. -/
def insertAt (s : Layout) (number : Nat) (token : Token) : Layout :=
  { s with tokens := s.tokens.take number ++ token :: s.tokens.drop number }

def skip (s : Layout) (count : Nat) : Layout := { s with place := s.place.advance count }

def column (s : Layout) : Int := s.place.column

/-! ## Possible keys -/

/-- Gives up the possible key; malformed if there has to be one. -/
def dropKey (s : Layout) : Option Layout :=
  if s.possible.any PossibleKey.required then none else some { s with possible := none }

/-- Notes that the token at this place may be a key. -/
def noteKey (s : Layout) : Option Layout :=
  if s.keyAllowed then do
    let s ← s.dropKey
    let required := !s.inFlow && s.indent == s.column
    let key : PossibleKey :=
      ⟨required, s.tokens.length, s.place.index, s.place.line, s.place.column⟩
    return { s with possible := some key }
  else some s

/-- Whether a key can no longer be completed: it ends with its line, and after 1024 bytes. -/
def isStale (p : Place) (key : PossibleKey) : Bool :=
  decide (key.line < p.line) || decide (key.index + 1024 < p.index)

/-- Gives up a possible key that is stale; malformed if there has to be one. -/
def refresh (p : Place) : Option PossibleKey → Option (Option PossibleKey)
  | none => some none
  | some key =>
    if isStale p key then (if key.required then none else some none) else some (some key)

/-- Gives up all possible keys that are stale. -/
def dropStale (s : Layout) : Option Layout := do
  let possible ← refresh s.place s.possible
  let outerPossible ← s.outerPossible.mapM (refresh s.place)
  return { s with possible := possible, outerPossible := outerPossible }

/-! ## Block collections -/

/-- Opens a block collection at a column that is new; its mark comes before the token of the given
number, or last. -/
def openBlock (s : Layout) (column : Int) (number : Option Nat) (mark : Token) : Layout :=
  if !s.inFlow && decide (s.indent < column) then
    let s := { s with outer := s.indent :: s.outer, indent := column }
    match number with
    | some number => s.insertAt number mark
    | none => s.push mark
  else s

/-- Closes the innermost block collections as long as they are deeper than `column`. -/
def closeAbove (column : Int) : Int → List Int → List Token → Int × List Int × List Token
  | indent, [], tokens => (indent, [], tokens)
  | indent, next :: outer, tokens =>
    if column < indent then closeAbove column next outer (tokens ++ [.blockEnd])
    else (indent, next :: outer, tokens)

/-- Closes the block collections that are deeper than `column`. -/
def closeBlocks (s : Layout) (column : Int) : Layout :=
  if s.inFlow then s
  else
    let (indent, outer, tokens) := closeAbove column s.indent s.outer s.tokens
    { s with indent := indent, outer := outer, tokens := tokens }

/-! ## Steps -/

/-- Passes over blanks, comments and line breaks, and over a byte order mark at the start of a line.
Where a key may stand, a tab is no blank. -/
def skipToToken : Nat → Layout → Layout
  | 0, s => s
  | fuel + 1, s =>
    let tabs := s.inFlow || !s.keyAllowed
    let p := s.place
    let p := if p.column == 0 && p.sees byteOrderMark then p.advance 1 else p
    let p := p.skipWhile fun c => c == ' ' || (tabs && c == '\t')
    let p := if p.sees '#' then p.skipWhile fun c => !isBreak c else p
    if p.seesBreak then
      skipToToken fuel { s with place := p.skipBreak, keyAllowed := s.keyAllowed || !s.inFlow }
    else { s with place := p }

/-- Opens brackets or braces. -/
def openFlow (s : Layout) (mark : Token) : Option Layout := do
  let s ← s.noteKey
  return ({ s with outerPossible := s.possible :: s.outerPossible, possible := none,
                   keyAllowed := true }.push mark).skip 1

/-- Closes brackets or braces. -/
def closeFlow (s : Layout) (mark : Token) : Option Layout := do
  let s ← s.dropKey
  let s := match s.outerPossible with
    | possible :: outer => { s with possible := possible, outerPossible := outer }
    | [] => s
  return ({ s with keyAllowed := false }.push mark).skip 1

/-- Takes a mark that starts an entry or a key: in block style it opens a collection at its column,
where a key has to be allowed. -/
def entryMark (s : Layout) (collection mark : Token) (allowedAfter : Bool) : Option Layout := do
  let s ←
    if s.inFlow then some s
    else if s.keyAllowed then some (s.openBlock s.column none collection)
    else none
  let s ← s.dropKey
  return ({ s with keyAllowed := allowedAfter }.push mark).skip 1

/-- Takes the colon of a value. The possible key before it becomes a key; without one, the key is
empty. -/
def valueMark (s : Layout) : Option Layout :=
  match s.possible with
  | some key =>
    let s := s.insertAt key.number .key
    let s := s.openBlock key.column (some key.number) .blockMappingStart
    some (({ s with possible := none, keyAllowed := false }.push .value).skip 1)
  | none => do
    let s ←
      if s.inFlow then some s
      else if s.keyAllowed then some (s.openBlock s.column none .blockMappingStart)
      else none
    return ({ s with keyAllowed := !s.inFlow }.push .value).skip 1

/-- Takes a mark between documents. -/
def documentMark (s : Layout) (mark : Token) : Option Layout := do
  let s ← (s.closeBlocks (-1)).dropKey
  return ({ s with keyAllowed := false }.push mark).skip 3

/-- Takes an anchor, or the name of one. -/
def anchorName (s : Layout) (mark : String → Token) : Option Layout := do
  let s ← s.noteKey
  let p := s.place.advance 1
  let name := p.rest.takeWhile isWordChar
  let p := p.advance name.length
  let closed := blankNext p.rest ||
    p.next?.any fun c => c ∈ ['?', ':', ',', ']', '\x7d', '%', '@', '`']
  if name.isEmpty || !closed then none
  return { s with place := p, keyAllowed := false }.push (mark (String.ofList name))

/-! ## Tags and directives -/

/-- Decodes the bytes that `%` and two hexadecimal digits each give. -/
def escapedBytes : Nat → List Char → Option (List UInt8 × List Char)
  | 0, cs => some ([], cs)
  | count + 1, '%' :: a :: b :: cs => do
    let n ← Decimal.nat? 16 [a, b]
    let (bytes, rest) ← escapedBytes count cs
    return (UInt8.ofNat n :: bytes, rest)
  | _ + 1, _ => none

/-- How many bytes a character has whose first byte is given; none starts with the other bytes. -/
def bytesFrom? (first : UInt8) : Option Nat :=
  if first < 0x80 then some 1
  else if first &&& 0xe0 = 0xc0 then some 2
  else if first &&& 0xf0 = 0xe0 then some 3
  else if first &&& 0xf8 = 0xf0 then some 4
  else none

/-- Reads the bytes of a character. They need not be those of a character that there is. -/
def escapedChar (cs : List Char) : Option (List UInt8 × List Char) :=
  match escapedBytes 1 cs with
  | some ([first], rest) => do
    let count ← bytesFrom? first
    let (others, rest) ← escapedBytes (count - 1) rest
    if others.all fun byte => byte &&& 0xc0 = 0x80 then some (first :: others, rest) else none
  | _ => none

/-- The byte of a character among the first 128. -/
def asciiByte (c : Char) : UInt8 := UInt8.ofNat c.toNat

/-- Reads the bytes of a tag. Inside `<` and `>`, and in directives, brackets and commas belong to
it. -/
def tagBytes (verbatim : Bool) : Nat → List Char → Option (List UInt8 × List Char)
  | 0, cs => some ([], cs)
  | _, [] => some ([], [])
  | fuel + 1, c :: cs =>
    if c = '%' then do
      let (bytes, rest) ← escapedChar (c :: cs)
      let (more, rest) ← tagBytes verbatim fuel rest
      return (bytes ++ more, rest)
    else if isWordChar c || c ∈ [';', '/', '?', ':', '@', '&', '=', '+', '$', '.', '!', '~', '*',
        '\x27', '(', ')'] || (verbatim && c ∈ [',', '[', ']']) then
      (tagBytes verbatim fuel cs).map fun (bytes, rest) => (asciiByte c :: bytes, rest)
    else some ([], c :: cs)

/-- Reads a tag handle: `!`, a word, and perhaps `!` again. In a directive the second `!` has to be
there unless the handle is `!` alone. -/
def tagHandle (directive : Bool) : List Char → Option (List Char × List Char)
  | '!' :: cs =>
    let word := cs.takeWhile isWordChar
    match cs.drop word.length with
    | '!' :: rest => some ('!' :: word ++ ['!'], rest)
    | rest => if directive && !word.isEmpty then none else some ('!' :: word, rest)
  | _ => none

/-- Reads a tag as a handle and a suffix. The handle is empty in a tag that is written in full and
in the tag that is an exclamation mark alone. -/
def tagParts (cs : List Char) : Option (List Char × List UInt8 × List Char) :=
  match cs with
  | '!' :: '<' :: cs => do
    let (suffix, rest) ← tagBytes true cs.length cs
    match rest with
    | '>' :: rest => if suffix.isEmpty then none else some ([], suffix, rest)
    | _ => none
  | cs => do
    let (handle, rest) ← tagHandle false cs
    let (suffix, rest) ← tagBytes false rest.length rest
    if handle.length > 1 && handle.getLast? == some '!' then
      if suffix.isEmpty then none else some (handle, suffix, rest)
    else
      let suffix := (handle.drop 1).map asciiByte ++ suffix
      if (Tag.beforeZero suffix).isEmpty then some ([], [asciiByte '!'], rest)
      else some (['!'], suffix, rest)

/-- Takes a tag. -/
def tagMark (s : Layout) : Option Layout := do
  let s ← s.noteKey
  let (handle, suffix, rest) ← tagParts s.place.rest
  let closed := blankNext rest || (s.inFlow && rest.head? == some ',')
  if !closed then none
  return { s with place := s.place.moveTo rest, keyAllowed := false }.push
    (.tag (String.ofList handle) suffix)

/-- Reads a number of a version: one to nine digits. -/
def versionNumber (cs : List Char) : Option (Nat × List Char) :=
  let digits := cs.takeWhile Char.isDigit
  if digits.length ≤ 9 then
    (Decimal.nat? 10 digits).map fun n => (n, cs.drop digits.length)
  else none

/-- Reads a directive behind its `%`. -/
def directiveParts (cs : List Char) : Option (Token × List Char) :=
  let name := cs.takeWhile isWordChar
  let rest := cs.drop name.length
  let values := rest.dropWhile isBlank
  if !blankNext rest then none
  else match String.ofList name with
    | "YAML" => do
      let (major, rest) ← versionNumber values
      match rest with
      | '.' :: rest =>
        let (minor, rest) ← versionNumber rest
        return (.versionDirective major minor, rest)
      | _ => none
    | "TAG" => do
      let (handle, rest) ← tagHandle true values
      if !rest.head?.any isBlank then none
      let rest := rest.dropWhile isBlank
      let (start, rest) ← tagBytes true rest.length rest
      if start.isEmpty || !blankNext rest then none
      return (.tagDirective (String.ofList handle) start, rest)
    | _ => none

/-- Takes a directive with the rest of its line. -/
def directive (s : Layout) : Option Layout := do
  let s ← (s.closeBlocks (-1)).dropKey
  let (token, rest) ← directiveParts (s.place.rest.drop 1)
  let p := (s.place.moveTo rest).skipWhile isBlank
  let p := if p.sees '#' then p.skipWhile fun c => !isBreak c else p
  if !p.atEnd && !p.seesBreak then none
  return { s with place := p.skipBreak, keyAllowed := false }.push token

/-! ## Scalars -/

def blockScalar (s : Layout) (literal : Bool) : Option Layout := do
  let s ← s.dropKey
  let (text, p) ← readBlock literal s.indent (s.place.advance 1)
  return { s with place := p, keyAllowed := true }.push (.scalar (String.ofList text) false)

def quotedScalar (s : Layout) (single : Bool) : Option Layout := do
  let s ← s.noteKey
  let p := s.place.advance 1
  let (text, p) ← readQuoted single (p.rest.length + 1) [] p
  return { s with place := p, keyAllowed := false }.push (.scalar (String.ofList text) false)

def plainScalar (s : Layout) : Option Layout := do
  let s ← s.noteKey
  let (text, broken, p) ←
    readPlain s.inFlow (s.indent + 1).toNat (s.place.rest.length + 1) [] Gap.none s.place
  return { s with place := p, keyAllowed := broken }.push (.scalar (String.ofList text) true)

/-- Whether a plain scalar can start with `c` when `cs` follow. -/
def startsPlain (flow : Bool) (c : Char) (cs : List Char) : Bool :=
  !(isBlank c || isBreak c || c ∈ ['-', '?', ':', ',', '[', ']', '\x7b', '\x7d', '#', '&', '*', '!',
      '|', '>', '\x27', '\x22', '%', '@', '`'])
    || (c == '-' && !cs.head?.any isBlank)
    || (!flow && (c == '?' || c == ':') && !blankNext cs)

/-- Takes the token that starts with `c`, when `cs` follow. -/
def token (s : Layout) (c : Char) (cs : List Char) : Option Layout :=
  if s.place.column == 0 && c == '%' then s.directive
  else if s.place.seesDocumentMark then
    s.documentMark (if c = '-' then .documentStart else .documentEnd)
  else if c = '[' then s.openFlow .flowSequenceStart
  else if c = '\x7b' then s.openFlow .flowMappingStart
  else if c = ']' then s.closeFlow .flowSequenceEnd
  else if c = '\x7d' then s.closeFlow .flowMappingEnd
  else if c = ',' then do
    let s ← s.dropKey
    return ({ s with keyAllowed := true }.push .flowEntry).skip 1
  else if c == '-' && blankNext cs then s.entryMark .blockSequenceStart .blockEntry true
  else if c == '?' && (s.inFlow || blankNext cs) then
    s.entryMark .blockMappingStart .key (!s.inFlow)
  else if c == ':' && (s.inFlow || blankNext cs) then s.valueMark
  else if c = '*' then s.anchorName .aliasOf
  else if c = '&' then s.anchorName .anchor
  else if c = '!' then s.tagMark
  else if c == '|' && !s.inFlow then s.blockScalar true
  else if c == '>' && !s.inFlow then s.blockScalar false
  else if c = '\x27' then s.quotedScalar true
  else if c = '\x22' then s.quotedScalar false
  else if startsPlain s.inFlow c cs then s.plainScalar
  else none

/-- Takes tokens up to the end of the text. -/
def run : Nat → Layout → Option (List Token)
  | 0, _ => none
  | fuel + 1, s => do
    let s := skipToToken (s.place.rest.length + 1) s
    let s ← s.dropStale
    let s := s.closeBlocks s.column
    match s.place.rest with
    | [] =>
      let s ← (s.closeBlocks (-1)).dropKey
      return s.tokens
    | c :: cs => run fuel (← s.token c cs)

end Layout

/-- The tokens of a YAML text, if it is well formed so far. -/
def tokenize? (text : String) : Option (List Token) :=
  let cs := text.toList
  if cs.all isAllowed then Layout.run (cs.length + 1) (Layout.start cs) else none

end ConfigBinding.Yaml
