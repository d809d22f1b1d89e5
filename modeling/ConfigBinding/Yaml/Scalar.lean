import ConfigBinding.Number.Reader
import ConfigBinding.Yaml.Token

/-!
# Reading scalars of YAML

Scalars come plain, between single or double quotes, or as a block of lines. In all but the block
styles a line break with what surrounds it is folded: one break is a blank, and of several the first
is dropped.

Each reader gives the text of the scalar and the place behind it, or nothing if the scalar is
malformed.
-/

namespace ConfigBinding.Yaml

/-- The blanks and line breaks between two runs of characters. -/
structure Gap where
  /-- Blanks before the first break. -/
  blanks : List Char
  /-- The first break. -/
  first : List Char
  /-- The breaks behind the first. -/
  more : List Char
  /-- Whether there was a break, one that is escaped included. -/
  broken : Bool

namespace Gap

def none : Gap := ⟨[], [], [], false⟩

/-- What stands for the gap in the scalar. -/
def fold (gap : Gap) : List Char :=
  if gap.broken then
    if gap.first = ['\n'] then (if gap.more.isEmpty then [' '] else gap.more)
    else gap.first ++ gap.more
  else gap.blanks

/-- Reads blanks and breaks. Behind a break, a tab before the column `indent` is malformed. -/
def read (indent : Nat) : Nat → Gap → Place → Option (Gap × Place)
  | 0, gap, p => some (gap, p)
  | fuel + 1, gap, p =>
    match p.next? with
    | some c =>
      if isBlank c then
        if gap.broken then
          if c = '\t' ∧ p.column < indent then Option.none
          else read indent fuel gap (p.advance 1)
        else read indent fuel { gap with blanks := gap.blanks ++ [c] } (p.advance 1)
      else if isBreak c then
        let (text, p) := p.takeBreak
        if gap.broken then read indent fuel { gap with more := gap.more ++ text } p
        else read indent fuel { gap with blanks := [], first := text, broken := true } p
      else some (gap, p)
    | Option.none => some (gap, p)

end Gap

/-! ## Plain scalars -/

/-- Whether a character ends a plain scalar inside brackets or braces. -/
def isFlowMark (c : Char) : Bool :=
  c == ',' || c == '[' || c == ']' || c == '\x7b' || c == '\x7d'

/-- The characters of a plain scalar up to a blank or to its end, and what follows them. -/
def plainRun (flow : Bool) : List Char → Option (List Char × List Char)
  | [] => some ([], [])
  | c :: cs =>
    if isBlank c || isBreak c then some ([], c :: cs)
    else if flow && c == ':' && cs.head?.any (fun d => isFlowMark d || d == '?') then none
    else if (c == ':' && blankNext cs) || (flow && isFlowMark c) then some ([], c :: cs)
    else (plainRun flow cs).map fun (run, rest) => (c :: run, rest)

/-- Reads on in a plain scalar whose text so far is `text`, followed by a gap. Also gives whether
the scalar ends behind a line break. -/
def readPlain (flow : Bool) (indent : Nat) :
    Nat → List Char → Gap → Place → Option (List Char × Bool × Place)
  | 0, text, gap, p => some (text, gap.broken, p)
  | fuel + 1, text, gap, p =>
    if p.seesDocumentMark || p.sees '#' then some (text, gap.broken, p)
    else match plainRun flow p.rest with
      | none => none
      | some (run, rest) =>
        let (text, gap) := if run.isEmpty then (text, gap) else (text ++ gap.fold ++ run, .none)
        let p := p.moveTo rest
        if p.seesBlank || p.seesBreak then
          match gap.read indent p.rest.length p with
          | none => none
          | some (gap, p) =>
            if !flow && decide (p.column < indent) then some (text, gap.broken, p)
            else readPlain flow indent fuel text gap p
        else some (text, gap.broken, p)

/-! ## Quoted scalars -/

/-- A character given by the hexadecimal digits at the start of a text, and what follows them. -/
def hexChar (count : Nat) (cs : List Char) : Option (Char × List Char) :=
  let digits := cs.take count
  if digits.length = count then
    match Decimal.nat? 16 digits with
    | some n => if n.isValidChar then some (Char.ofNat n, cs.drop count) else none
    | none => none
  else none

/-- The character that an escape stands for, given what follows the backslash. -/
def unescape : List Char → Option (Char × List Char)
  | [] => none
  | c :: cs =>
    match c with
    | '0' => some ('\x00', cs)
    | 'a' => some ('\x07', cs)
    | 'b' => some ('\x08', cs)
    | 't' | '\t' => some ('\t', cs)
    | 'n' => some ('\n', cs)
    | 'v' => some ('\x0b', cs)
    | 'f' => some ('\x0c', cs)
    | 'r' => some ('\r', cs)
    | 'e' => some ('\x1b', cs)
    | ' ' => some (' ', cs)
    | '\x22' => some ('\x22', cs)
    | '/' => some ('/', cs)
    | '\\' => some ('\\', cs)
    | 'N' => some ('\x85', cs)
    | '_' => some ('\xa0', cs)
    | 'L' => some ('\u2028', cs)
    | 'P' => some ('\u2029', cs)
    | 'x' => hexChar 2 cs
    | 'u' => hexChar 4 cs
    | 'U' => hexChar 8 cs
    | _ => none

/-- The characters of a quoted scalar up to a blank, the closing quote or an escaped line break, and
what follows them. -/
def quotedRun (single : Bool) : Nat → List Char → Option (List Char × List Char)
  | 0, cs => some ([], cs)
  | _, [] => some ([], [])
  | fuel + 1, c :: cs =>
    if isBlank c || isBreak c then some ([], c :: cs)
    else if single then
      if c = '\x27' then
        match cs with
        | '\x27' :: cs => (quotedRun single fuel cs).map fun (run, rest) => ('\x27' :: run, rest)
        | cs => some ([], c :: cs)
      else (quotedRun single fuel cs).map fun (run, rest) => (c :: run, rest)
    else if c = '\x22' then some ([], c :: cs)
    else if c = '\\' then
      if cs.head?.any isBreak then some ([], c :: cs)
      else match unescape cs with
        | none => none
        | some (d, cs) => (quotedRun single fuel cs).map fun (run, rest) => (d :: run, rest)
    else (quotedRun single fuel cs).map fun (run, rest) => (c :: run, rest)

/-- Reads on in a quoted scalar whose text so far is `text`. -/
def readQuoted (single : Bool) : Nat → List Char → Place → Option (List Char × Place)
  | 0, _, _ => none
  | fuel + 1, text, p =>
    if p.seesDocumentMark || p.atEnd then none
    else match quotedRun single p.rest.length p.rest with
      | none => none
      | some (run, rest) =>
        let text := text ++ run
        let p := p.moveTo rest
        if p.sees (if single then '\x27' else '\x22') then some (text, p.advance 1)
        else
          let escaped := p.sees '\\'
          let p := if escaped then (p.advance 1).skipBreak else p
          match Gap.read 0 p.rest.length { Gap.none with broken := escaped } p with
          | none => none
          | some (gap, p) => readQuoted single fuel (text ++ gap.fold) p

/-! ## Block scalars -/

/-- What happens to the line breaks at the end of a block. -/
inductive Chomping
  | strip
  | clip
  | keep
deriving DecidableEq, Repr

/-- Reads the indicators behind the mark of a block: how it ends and by how much it is indented, in
either order. -/
def blockHeader (p : Place) : Option (Chomping × Option Nat × Place) :=
  let chomping? (p : Place) : Option (Chomping × Place) :=
    if p.sees '+' then some (.keep, p.advance 1)
    else if p.sees '-' then some (.strip, p.advance 1)
    else none
  let digit? (p : Place) : Option (Option Nat × Place) :=
    match p.next? with
    | some c =>
      if c = '0' then none
      else if c.isDigit then some (some (c.toNat - '0'.toNat), p.advance 1)
      else some (none, p)
    | none => some (none, p)
  match chomping? p with
  | some (chomping, p) => (digit? p).map fun (digit, p) => (chomping, digit, p)
  | none =>
    match digit? p with
    | none => none
    | some (none, p) => some (.clip, none, p)
    | some (some digit, p) =>
      match chomping? p with
      | some (chomping, p) => some (chomping, some digit, p)
      | none => some (.clip, some digit, p)

/-- Reads empty lines and the indentation of the next line. Without a given indentation, `widest` is
the widest one so far. Gives the breaks, the widest indentation, and the place. -/
def blockBreaks (indent : Option Nat) :
    Nat → Nat → List Char → Place → Option (List Char × Nat × Place)
  | 0, widest, breaks, p => some (breaks, widest, p)
  | fuel + 1, widest, breaks, p =>
    let room := match indent with
      | some indent => indent - p.column
      | none => p.rest.length
    let p := p.advance (min room (p.rest.takeWhile (· == ' ')).length)
    let widest := max widest p.column
    if p.sees '\t' && indent.all (fun indent => decide (p.column < indent)) then none
    else if p.seesBreak then
      let (text, p) := p.takeBreak
      blockBreaks indent fuel widest (breaks ++ text) p
    else some (breaks, widest, p)

/-- Reads the lines of a block. `first` is the break behind the line before, `more` are the breaks
behind that, and `blankBefore` says whether that line started with a blank. -/
def blockLines (literal : Bool) (indent : Nat) :
    Nat → List Char → List Char → List Char → Bool → Place →
      Option (List Char × List Char × List Char × Place)
  | 0, text, first, more, _, p => some (text, first, more, p)
  | fuel + 1, text, first, more, blankBefore, p =>
    if p.column = indent ∧ p.atEnd = false then
      let blankHere := p.seesBlank
      let joint :=
        if !literal && first == ['\n'] && !blankBefore && !blankHere then
          if more.isEmpty then [' '] else more
        else first ++ more
      let line := p.rest.takeWhile fun c => !isBreak c
      let (first, p) := (p.advance line.length).takeBreak
      match blockBreaks (some indent) (p.rest.length + 1) 0 [] p with
      | none => none
      | some (more, _, p) =>
        blockLines literal indent fuel (text ++ joint ++ line) first more blankHere p
    else some (text, first, more, p)

/-- Reads a block scalar behind its mark, inside a collection of the given indentation. -/
def readBlock (literal : Bool) (parent : Int) (p : Place) : Option (List Char × Place) := do
  let (chomping, increment, p) ← blockHeader p
  let p := p.skipWhile isBlank
  let p := if p.sees '#' then p.skipWhile fun c => !isBreak c else p
  if !p.atEnd && !p.seesBreak then none
  let p := p.skipBreak
  let given := increment.map fun n => (max parent 0).toNat + n
  let (more, widest, p) ← blockBreaks given (p.rest.length + 1) 0 [] p
  let indent := given.getD (max widest (max (parent + 1).toNat 1))
  let (text, first, more, p) ← blockLines literal indent (p.rest.length + 1) [] [] more false p
  return match chomping with
    | .strip => (text, p)
    | .clip => (text ++ first, p)
    | .keep => (text ++ first ++ more, p)

end ConfigBinding.Yaml
