import ConfigBinding.Proofs.Reading.Expressions
import ConfigBinding.Statement.Parser

/-!
# The grammar of statements

What a sequence of tokens says, told without a reader and without fuel.

- value: strings that are one text, a number, a constant, `[items]`, `(items)`, a mapping between
  braces, `%name`, or a reference `(segment /)* @ (segment /)* name` with `()` behind it or not. One
  item between parentheses without a comma is the item itself.
- items, entries: separated by commas, with a comma behind the last or not. The key of an entry is
  a text, with a colon behind it.
- statement: `import name [as alias]`, `from name import alias [as alias]`, the switch
  `from __gin__ import dynamic_registration`, `include text`, `target = value`, or a target with a
  colon and a block of `parameter = value` between braces, each with a comma behind it or not, where
  no parameter comes twice.
- target: `(segment /)* name`, where the first token is none that begins another statement. Before
  an equals sign, a name of one segment is a macro and may have no scope.

Statements follow each other without a separator. An import that gives no alias is not followed by a
statement that begins with `as`, which would be its alias.

Every relation relates the tokens, with their places in the source, to what they say; an expression
carries the span of its tokens.

Results:
1. `DottedName.toText_eq_iff`: only a name of one segment has a text without dots.
2. `Grammar.Body.exists_cons`: a statement begins with a name.
-/

namespace ConfigBinding

/-- The lexeme is the mark. -/
def Lexeme.Is (l : Lexeme) (m : Mark) : Prop := l.token = .mark m

/-- The lexeme stands for the name. -/
def Lexeme.Names (l : Lexeme) (name : String) : Prop := l.token.name? = some name

/-- The span from the first of the lexemes to the last. -/
def cover (file : Nat) (ls : List Lexeme) : Span :=
  ⟨file, (ls.head?.map Lexeme.start).getD 0, (ls.getLast?.map Lexeme.stop).getD 0⟩

theorem DottedName.toText_eq_iff {name : DottedName} (nonempty : name.segments ≠ [])
    {word : String} (plain : '.' ∉ word.toList) : name.toText = word ↔ name = ⟨[word]⟩ := by
  obtain ⟨segments⟩ := name
  match segments with
  | [] => exact absurd rfl nonempty
  | [segment] => simp [toText, joinWith, Text.join]
  | first :: second :: others =>
    refine ⟨fun same => absurd ?_ plain, fun same => by cases same⟩
    rw [← same]
    simp [toText, joinWith, Text.join]

namespace Grammar

/-! ## Names -/

/-- `(. segment)*` -/
inductive Segments : List Lexeme → List String → Prop
  | nil : Segments [] []
  | cons {dot l : Lexeme} {name : String} {ls : List Lexeme} {names : List String} :
      dot.Is .dot → l.Names name → Segments ls names → Segments (dot :: l :: ls) (name :: names)

/-- `segment (. segment)*` -/
inductive Dotted : List Lexeme → DottedName → Prop
  | mk {l : Lexeme} {first : String} {ls : List Lexeme} {names : List String} :
      l.Names first → Segments ls names → Dotted (l :: ls) ⟨first :: names⟩

/-- `(segment /)*` -/
inductive Path : List Lexeme → List String → Prop
  | nil : Path [] []
  | cons {l slash : Lexeme} {name : String} {ls : List Lexeme} {names : List String} :
      l.Names name → slash.Is .slash → Path ls names → Path (l :: slash :: ls) (name :: names)

/-- `(segment /)* name` -/
inductive Scoped : List Lexeme → List String → DottedName → Prop
  | name {ls : List Lexeme} {symbol : DottedName} : Dotted ls symbol → Scoped ls [] symbol
  | scope {l slash : Lexeme} {name : String} {ls : List Lexeme} {names : List String}
      {symbol : DottedName} :
      l.Names name → slash.Is .slash → Scoped ls names symbol →
        Scoped (l :: slash :: ls) (name :: names) symbol

/-! ## Values -/

/-- One string or more, which are one text. -/
inductive Strings : List Lexeme → String → Prop
  | last {l : Lexeme} {text : String} : l.token = .str text → Strings [l] text
  | more {l : Lexeme} {text rest : String} {ls : List Lexeme} :
      l.token = .str text → Strings ls rest → Strings (l :: ls) (text ++ rest)

/-- `[()]` -/
inductive Call : List Lexeme → Bool → Prop
  | no : Call [] false
  | yes {opening closing : Lexeme} :
      opening.Is .openParen → closing.Is .closeParen → Call [opening, closing] true

/-- `(segment /)* @ (segment /)* name [()]`. The segments on both sides of the sign are one
scope. -/
inductive ReferenceTo : List Lexeme → Reference → Prop
  | mk {outer inner call : List Lexeme} {sign : Lexeme} {above below : List String}
      {symbol : DottedName} {called : Bool} :
      Path outer above → sign.Is .atSign → Scoped inner below symbol → Call call called →
        ReferenceTo (outer ++ sign :: (inner ++ call)) ⟨⟨above ++ below⟩, symbol, called⟩

mutual

/-- A value that the lexemes of the source with number `file` say. -/
inductive Value (file : Nat) : List Lexeme → Expr → Prop
  | constant {l : Lexeme} {value : Literal} :
      l.token = value.token → (∀ text, value ≠ .str text) →
        Value file [l] (.literal value (cover file [l]))
  | text {ls : List Lexeme} {text : String} :
      Strings ls text → Value file ls (.literal (.str text) (cover file ls))
  | list {opening closing : Lexeme} {ls : List Lexeme} {items : List Expr} {comma : Bool} :
      opening.Is .openBracket → Items file false ls items comma → closing.Is .closeBracket →
        Value file (opening :: (ls ++ [closing]))
          (.list items (cover file (opening :: (ls ++ [closing]))))
  | tuple {opening closing : Lexeme} {ls : List Lexeme} {items : List Expr} {comma : Bool} :
      opening.Is .openParen → Items file false ls items comma → closing.Is .closeParen →
        (items.length = 1 → comma = true) →
        Value file (opening :: (ls ++ [closing]))
          (.tuple items (cover file (opening :: (ls ++ [closing]))))
  | parentheses {opening closing : Lexeme} {ls : List Lexeme} {value : Expr} :
      opening.Is .openParen → Value file ls value → closing.Is .closeParen →
        Value file (opening :: (ls ++ [closing]))
          (value.withSpan (cover file (opening :: (ls ++ [closing]))))
  | map {opening closing : Lexeme} {ls : List Lexeme} {entries : List (String × Expr)} :
      opening.Is .openBrace → Entries file ls entries → closing.Is .closeBrace →
        Value file (opening :: (ls ++ [closing]))
          (.map entries (cover file (opening :: (ls ++ [closing]))))
  | macroRef {percent : Lexeme} {ls : List Lexeme} {name : DottedName} :
      percent.Is .percent → Dotted ls name →
        Value file (percent :: ls) (.macroRef name (cover file (percent :: ls)))
  | reference {ls : List Lexeme} {target : Reference} :
      ReferenceTo ls target → Value file ls (.reference target (cover file ls))

/-- `Items file before ls items behind`: items with commas between them. `before` says whether a
comma stands before the lexemes, and `behind` whether one stands at their end. -/
inductive Items (file : Nat) : Bool → List Lexeme → List Expr → Bool → Prop
  | none {comma : Bool} : Items file comma [] [] comma
  | last {comma : Bool} {ls : List Lexeme} {value : Expr} :
      Value file ls value → Items file comma ls [value] false
  | more {before behind : Bool} {comma : Lexeme} {ls rest : List Lexeme} {value : Expr}
      {items : List Expr} :
      Value file ls value → comma.Is .comma → Items file true rest items behind →
        Items file before (ls ++ comma :: rest) (value :: items) behind

/-- Entries of a mapping with commas between them, and with one behind the last or not. -/
inductive Entries (file : Nat) : List Lexeme → List (String × Expr) → Prop
  | none : Entries file [] []
  | last {colon : Lexeme} {key ls : List Lexeme} {text : String} {value : Expr} :
      Strings key text → colon.Is .colon → Value file ls value →
        Entries file (key ++ colon :: ls) [(text, value)]
  | more {colon comma : Lexeme} {key ls rest : List Lexeme} {text : String} {value : Expr}
      {entries : List (String × Expr)} :
      Strings key text → colon.Is .colon → Value file ls value → comma.Is .comma →
        Entries file rest entries →
        Entries file (key ++ colon :: (ls ++ comma :: rest)) ((text, value) :: entries)

end

/-! ## Statements -/

/-- `[as alias]` -/
inductive Alias : List Lexeme → Option String → Prop
  | none : Alias [] none
  | some {word l : Lexeme} {name : String} :
      word.Is .kwAs → l.Names name → Alias [word, l] (some name)

/-- The mark or nothing. -/
inductive Optional (m : Mark) : List Lexeme → Prop
  | no : Optional m []
  | yes {l : Lexeme} : l.Is m → Optional m [l]

/-- `(parameter = value [,])*` -/
inductive Parameters (file : Nat) : List Lexeme → List (String × Expr) → Prop
  | nil : Parameters file [] []
  | cons {l equals : Lexeme} {name : String} {value : Expr} {ls comma rest : List Lexeme}
      {entries : List (String × Expr)} :
      l.Names name → equals.Is .equals → Value file ls value → Optional .comma comma →
        Parameters file rest entries →
        Parameters file (l :: equals :: (ls ++ (comma ++ rest))) ((name, value) :: entries)

/-- What may not be the first token of a target. -/
def opensOther : Token → Bool
  | .mark .kwImport | .mark .kwFrom | .mark .kwInclude => true
  | _ => false

/-- A name in a scope that begins no other statement. -/
structure Target (ls : List Lexeme) (scope : Scope) (name : DottedName) : Prop where
  path : Scoped ls scope.segments name
  plain : ∀ l ∈ ls.head?, opensOther l.token = false

/-- What a statement that consists of the lexemes says. -/
inductive Body (file : Nat) : List Lexeme → StatementBody → Prop
  | importPath {word : Lexeme} {ls as : List Lexeme} {path : DottedName}
      {asName : Option String} :
      word.Is .kwImport → Dotted ls path → Alias as asName →
        Body file (word :: (ls ++ as)) (.importPath ⟨path, asName, false⟩)
  | importFrom {word middle l : Lexeme} {ls as : List Lexeme} {parent : DottedName}
      {name : String} {asName : Option String} :
      word.Is .kwFrom → Dotted ls parent → parent ≠ ⟨[Statement.switchModule]⟩ →
        middle.Is .kwImport → l.Names name → Alias as asName →
        Body file (word :: (ls ++ middle :: l :: as))
          (.importPath ⟨parent.append name, asName, true⟩)
  | dynamicRegistration {word middle l : Lexeme} {ls : List Lexeme} :
      word.Is .kwFrom → Dotted ls ⟨[Statement.switchModule]⟩ → middle.Is .kwImport →
        l.Names Statement.switchName →
        Body file (word :: (ls ++ [middle, l])) .dynamicRegistration
  | includeFile {word l : Lexeme} {path : String} :
      word.Is .kwInclude → l.token = .str path → Body file [word, l] (.includeFile path)
  | macroDef {equals : Lexeme} {ls values : List Lexeme} {name : String} {value : Expr} :
      Target ls Scope.root ⟨[name]⟩ → equals.Is .equals → Value file values value →
        Body file (ls ++ equals :: values) (.macroDef name value)
  | single {equals : Lexeme} {ls values : List Lexeme} {scope : Scope} {symbol : DottedName}
      {param : String} {value : Expr} :
      Target ls scope (symbol.append param) → symbol.segments ≠ [] → equals.Is .equals →
        Value file values value →
        Body file (ls ++ equals :: values) (.binding ⟨scope, symbol, .single param value⟩)
  | block {colon opening closing : Lexeme} {ls inner : List Lexeme} {scope : Scope}
      {symbol : DottedName} {entries : List (String × Expr)} :
      Target ls scope symbol → colon.Is .colon → opening.Is .openBrace →
        Parameters file inner entries → (entries.map Prod.fst).Nodup → closing.Is .closeBrace →
        Body file (ls ++ colon :: opening :: (inner ++ [closing]))
          (.binding ⟨scope, symbol,
            .block entries (cover file (opening :: (inner ++ [closing])))⟩)

/-- The lexemes spell the statement. -/
structure Spells (file : Nat) (ls : List Lexeme) (statement : Statement) : Prop where
  body : Body file ls statement.body
  span : statement.span = cover file ls

/-- An import without an alias takes one that comes next. -/
def takesAlias : StatementBody → Bool
  | .importPath imported => imported.asName.isNone
  | _ => false

/-- The lexemes are the statements, one after the other. -/
inductive Statements (file : Nat) : List Lexeme → List Statement → Prop
  | nil : Statements file [] []
  | cons {ls rest : List Lexeme} {statement : Statement} {statements : List Statement} :
      Spells file ls statement → Statements file rest statements →
        (takesAlias statement.body = true → ∀ l ∈ rest.head?, ¬ l.Is .kwAs) →
        Statements file (ls ++ rest) (statement :: statements)

/-! ## First tokens -/

theorem Dotted.exists_cons {ls : List Lexeme} {name : DottedName} (named : Dotted ls name) :
    ∃ l rest first, ls = l :: rest ∧ l.Names first := by
  cases named with
  | mk first => exact ⟨_, _, _, rfl, first⟩

theorem Dotted.segments_ne_nil {ls : List Lexeme} {name : DottedName} (named : Dotted ls name) :
    name.segments ≠ [] := by
  cases named
  exact List.cons_ne_nil _ _

theorem Scoped.segments_ne_nil {ls : List Lexeme} {names : List String} {symbol : DottedName}
    (qualified : Scoped ls names symbol) : symbol.segments ≠ [] := by
  induction qualified with
  | name named => exact named.segments_ne_nil
  | scope _ _ _ ih => exact ih

theorem Segments.length_le {ls : List Lexeme} {names : List String} (segments : Segments ls names) :
    names.length ≤ ls.length := by
  induction segments with
  | nil => exact Nat.le_refl 0
  | cons _ _ _ ih => exact Nat.succ_le_succ (Nat.le_succ_of_le ih)

theorem Scoped.length_lt {ls : List Lexeme} {names : List String} {symbol : DottedName}
    (qualified : Scoped ls names symbol) : names.length < ls.length := by
  induction qualified with
  | name named =>
    obtain ⟨l, rest, _, rfl, _⟩ := named.exists_cons
    exact Nat.succ_pos _
  | scope _ _ _ ih => exact Nat.succ_lt_succ (Nat.lt_succ_of_lt ih)

theorem Path.length_le {ls : List Lexeme} {names : List String} (path : Path ls names) :
    names.length ≤ ls.length := by
  induction path with
  | nil => exact Nat.le_refl 0
  | cons _ _ _ ih => exact Nat.succ_le_succ (Nat.le_succ_of_le ih)

theorem Scoped.exists_cons {ls : List Lexeme} {names : List String} {symbol : DottedName}
    (qualified : Scoped ls names symbol) :
    ∃ l rest first, ls = l :: rest ∧ l.Names first := by
  cases qualified with
  | name named => exact named.exists_cons
  | scope first => exact ⟨_, _, _, rfl, first⟩

theorem Strings.exists_cons {ls : List Lexeme} {text : String} (strings : Strings ls text) :
    ∃ l rest first, ls = l :: rest ∧ l.token = .str first := by
  cases strings with
  | last first => exact ⟨_, _, _, rfl, first⟩
  | more first => exact ⟨_, _, _, rfl, first⟩

theorem Parameters.length_le {file : Nat} {ls : List Lexeme} {entries : List (String × Expr)}
    (parameters : Parameters file ls entries) : entries.length ≤ ls.length := by
  induction parameters with
  | nil => exact Nat.le_refl 0
  | cons _ _ _ _ _ ih =>
    rw [List.length_cons, List.length_cons, List.length_cons, List.length_append,
      List.length_append]
    omega

theorem Body.exists_cons {file : Nat} {ls : List Lexeme} {body : StatementBody}
    (said : Body file ls body) : ∃ l rest first, ls = l :: rest ∧ l.Names first := by
  have keyword {m : Mark} {l : Lexeme} (is : l.Is m) (named : m.isName = true) :
      l.Names m.spelling := by
    rw [Lexeme.Names, is, Token.name?, if_pos named]
  have target {ls : List Lexeme} {scope : Scope} {name : DottedName} (begins : Target ls scope name)
      (more : List Lexeme) : ∃ l rest first, ls ++ more = l :: rest ∧ l.Names first := by
    obtain ⟨l, rest, first, rfl, named⟩ := begins.path.exists_cons
    exact ⟨l, rest ++ more, first, rfl, named⟩
  cases said with
  | importPath word => exact ⟨_, _, _, rfl, keyword word rfl⟩
  | importFrom word => exact ⟨_, _, _, rfl, keyword word rfl⟩
  | dynamicRegistration word => exact ⟨_, _, _, rfl, keyword word rfl⟩
  | includeFile word => exact ⟨_, _, _, rfl, keyword word rfl⟩
  | macroDef begins => exact target begins _
  | single begins => exact target begins _
  | block begins => exact target begins _

end Grammar

end ConfigBinding
