import ConfigBinding.Proofs.Grammar.Names
import ConfigBinding.Proofs.SourceNumbers

/-!
# Values by the grammar

The readers of values take exactly what the grammar derives. Values hold values, so both directions
go by induction on the fuel, with one statement for the three readers that call each other.

Results:
1. `Expr.passes_of_parseAt`: what is read as a value is derived from the lexemes that were taken.
2. `Expr.parseAt_past`: a value that is derived from the next lexemes is read from them.
-/

namespace ConfigBinding

open Grammar

namespace Expr

open Cursor (passes_of_sees passes_of_expect)

variable {c after : Cursor}

theorem passes_of_parseOuterScope {fuel : Nat} {names : List String}
    (read : parseOuterScope fuel c = .ok (names, after)) :
    ∃ ls, c.Passes ls after ∧ Path ls names := by
  induction fuel generalizing c after names with
  | zero => cases read
  | succ fuel ih =>
    unfold parseOuterScope at read
    obtain ⟨⟨name, d⟩, readName, read⟩ := ok_of_bind read
    obtain ⟨e, readSlash, read⟩ := ok_of_bind read
    obtain ⟨l, namePassed, named⟩ := Cursor.passes_of_expectName readName
    obtain ⟨slash, slashPassed, isSlash⟩ := passes_of_expect readSlash
    split at read
    · cases read
      exact ⟨[l, slash], namePassed.cons slashPassed, .cons named isSlash .nil⟩
    · obtain ⟨⟨others, f⟩, readOthers, read⟩ := ok_of_bind read
      obtain ⟨ls, passed, path⟩ := ih readOthers
      cases read
      exact ⟨l :: slash :: ls, namePassed.cons (slashPassed.cons passed),
        .cons named isSlash path⟩

theorem passes_of_parseReference {outer : List String} {target : Reference}
    (read : parseReference outer c = .ok (target, after)) :
    ∃ inner call below, c.Passes (inner ++ call) after ∧ target.scope = ⟨outer ++ below⟩ ∧
      Scoped inner below target.symbol ∧ Call call target.call := by
  unfold parseReference at read
  obtain ⟨⟨⟨scope, symbol⟩, d⟩, readName, read⟩ := ok_of_bind read
  obtain ⟨inner, below, passed, rfl, qualified⟩ := Cursor.passes_of_scopedName readName
  dsimp only at read
  split at read
  · rename_i seen
    obtain ⟨opening, openingPassed, opens⟩ := passes_of_sees seen
    obtain ⟨e, readClosing, read⟩ := ok_of_bind read
    obtain ⟨closing, closingPassed, closes⟩ := passes_of_expect readClosing
    cases read
    exact ⟨inner, [opening, closing], below, passed.trans (openingPassed.cons closingPassed), rfl,
      qualified, .yes opens closes⟩
  · cases read
    exact ⟨inner, [], below, passed.trans (.refl _), rfl, qualified, .no⟩

/-- Only one item without a comma behind it is no tuple. -/
theorem value_ofParentheses {file : Nat} {opening closing : Lexeme} {ls : List Lexeme}
    {items : List Expr} {comma : Bool} (opens : opening.Is .openParen)
    (inside : Items file false ls items comma) (closes : closing.Is .closeParen) :
    Value file (opening :: (ls ++ [closing]))
      (ofParentheses items comma (cover file (opening :: (ls ++ [closing])))) := by
  cases inside with
  | none => exact .tuple opens .none closes nofun
  | last value => exact .parentheses opens value closes
  | more value isComma rest =>
    have whole : Items file false _ _ _ := .more value isComma rest
    cases rest with
    | none => exact .tuple opens whole closes fun _ => rfl
    | last => exact .tuple opens whole closes nofun
    | more => exact .tuple opens whole closes nofun

/-- The readers of values with the given fuel follow the grammar. -/
structure Sound (fuel : Nat) : Prop where
  value {c after : Cursor} {e : Expr} : parseFuel fuel c = .ok (e, after) →
    ∃ ls, c.Passes ls after ∧ Value c.file ls e
  items {c after : Cursor} {close : Mark} {before behind : Bool} {items : List Expr} :
    parseItems close fuel before c = .ok ((items, behind), after) →
      ∃ ls, c.Passes ls after ∧ Items c.file before ls items behind
  entries {c after : Cursor} {entries : List (String × Expr)} :
    parseEntries fuel c = .ok (entries, after) →
      ∃ ls, c.Passes ls after ∧ Entries c.file ls entries

/-- A constant is one lexeme. -/
theorem passes_of_constant {token : Token} (next : c.peek? = some token) (value : Literal)
    (same : token = value.token) (noText : ∀ text, value ≠ .str text) {e : Expr}
    (read : Except.ok (ε := SyntaxError) (literal value (c.spanTo c.advance), c.advance) =
      .ok (e, after)) :
    ∃ ls, c.Passes ls after ∧ Value c.file ls e := by
  obtain ⟨l, passes, isToken⟩ := Cursor.passes_of_peek? next
  cases read
  rw [passes.spanTo (List.cons_ne_nil _ _)]
  exact ⟨[l], passes, .constant (isToken.trans same) noText⟩

theorem passes_of_parseScoped {e : Expr} (read : parseScoped c = .ok (e, after)) :
    ∃ ls, c.Passes ls after ∧ Value c.file ls e := by
  unfold parseScoped at read
  obtain ⟨⟨outer, d⟩, readOuter, read⟩ := ok_of_bind read
  obtain ⟨f, readSign, read⟩ := ok_of_bind read
  obtain ⟨⟨target, g⟩, readTarget, read⟩ := ok_of_bind read
  obtain ⟨above, outerPassed, path⟩ := passes_of_parseOuterScope readOuter
  obtain ⟨sign, signPassed, isSign⟩ := passes_of_expect readSign
  obtain ⟨inner, call, below, innerPassed, scope, qualified, called⟩ :=
    passes_of_parseReference readTarget
  obtain ⟨_, symbol, hasCall⟩ := target
  cases scope
  have passed := outerPassed.trans (signPassed.cons innerPassed)
  cases read
  rw [passed.spanTo (List.append_ne_nil_of_right_ne_nil _ (List.cons_ne_nil _ _))]
  exact ⟨_, passed, .reference (.mk path isSign qualified called)⟩

-- As for the change of numbers, the cases are those of the token.
theorem Sound.value_succ {fuel : Nat} (inner : Sound fuel) {e : Expr}
    (read : parseFuel (fuel + 1) c = .ok (e, after)) :
    ∃ ls, c.Passes ls after ∧ Value c.file ls e := by
  dsimp only [parseFuel] at read
  cases next : c.peek? with
  | none =>
    rw [next] at read
    cases read
  | some token =>
    rw [next] at read
    obtain ⟨l, passes, isToken⟩ := Cursor.passes_of_peek? next
    have nonempty (ls : List Lexeme) : l :: ls ≠ [] := List.cons_ne_nil _ _
    have file := passes.file
    cases token with
    | int n => exact passes_of_constant next (.int n) rfl nofun read
    | float x => exact passes_of_constant next (.float x) rfl nofun read
    | str text =>
      obtain ⟨fuel, more⟩ : ∃ fuel, c.rest.length = fuel + 1 := by
        rw [passes.rest]
        exact ⟨_, rfl⟩
      obtain ⟨ls, passed, strings⟩ := Cursor.passes_of_strings fuel next
      rw [← more] at passed strings
      have some : ls ≠ [] := by
        rintro rfl
        cases strings
      cases read
      rw [passed.spanTo some]
      exact ⟨ls, passed, .text strings⟩
    | ident name =>
      dsimp only at read
      split at read
      · exact passes_of_parseScoped read
      · cases read
    | mark m =>
      cases m with
      | constTrue => exact passes_of_constant next (.bool true) rfl nofun read
      | constFalse => exact passes_of_constant next (.bool false) rfl nofun read
      | constNone => exact passes_of_constant next .none rfl nofun read
      | openBracket =>
        obtain ⟨⟨⟨items, comma⟩, d⟩, readItems, read⟩ := ok_of_bind read
        obtain ⟨f, readClosing, read⟩ := ok_of_bind read
        obtain ⟨ls, itemsPassed, items⟩ := inner.items readItems
        obtain ⟨closing, closingPassed, closes⟩ := passes_of_expect readClosing
        have passed := passes.cons (itemsPassed.trans closingPassed)
        rw [file] at items
        cases read
        rw [passed.spanTo (nonempty _)]
        exact ⟨_, passed, .list isToken items closes⟩
      | openParen =>
        obtain ⟨⟨⟨items, comma⟩, d⟩, readItems, read⟩ := ok_of_bind read
        obtain ⟨f, readClosing, read⟩ := ok_of_bind read
        obtain ⟨ls, itemsPassed, items⟩ := inner.items readItems
        obtain ⟨closing, closingPassed, closes⟩ := passes_of_expect readClosing
        have passed := passes.cons (itemsPassed.trans closingPassed)
        rw [file] at items
        cases read
        rw [passed.spanTo (nonempty _)]
        exact ⟨_, passed, value_ofParentheses isToken items closes⟩
      | openBrace =>
        obtain ⟨⟨entries, d⟩, readEntries, read⟩ := ok_of_bind read
        obtain ⟨f, readClosing, read⟩ := ok_of_bind read
        obtain ⟨ls, entriesPassed, entries⟩ := inner.entries readEntries
        obtain ⟨closing, closingPassed, closes⟩ := passes_of_expect readClosing
        have passed := passes.cons (entriesPassed.trans closingPassed)
        rw [file] at entries
        cases read
        rw [passed.spanTo (nonempty _)]
        exact ⟨_, passed, .map isToken entries closes⟩
      | percent =>
        obtain ⟨⟨name, d⟩, readName, read⟩ := ok_of_bind read
        obtain ⟨ls, namePassed, named⟩ := Cursor.passes_of_dotted readName
        have passed := passes.cons namePassed
        cases read
        rw [passed.spanTo (nonempty _)]
        exact ⟨_, passed, .macroRef isToken named⟩
      | atSign =>
        obtain ⟨⟨⟨_, symbol, hasCall⟩, d⟩, readTarget, read⟩ := ok_of_bind read
        obtain ⟨inner, call, below, innerPassed, scope, qualified, called⟩ :=
          passes_of_parseReference readTarget
        cases scope
        have passed := passes.cons innerPassed
        cases read
        rw [passed.spanTo (nonempty _)]
        exact ⟨_, passed, .reference (.mk .nil isToken qualified called)⟩
      | _ =>
        dsimp only at read
        split at read
        · exact passes_of_parseScoped read
        · cases read

theorem Sound.items_succ {fuel : Nat} (inner : Sound fuel) {close : Mark} {before behind : Bool}
    {items : List Expr}
    (read : parseItems close (fuel + 1) before c = .ok ((items, behind), after)) :
    ∃ ls, c.Passes ls after ∧ Items c.file before ls items behind := by
  unfold parseItems at read
  split at read
  · cases read
    exact ⟨[], .refl _, .none⟩
  · obtain ⟨⟨item, d⟩, readItem, read⟩ := ok_of_bind read
    obtain ⟨ls, itemPassed, value⟩ := inner.value readItem
    dsimp only at read
    split at read
    · rename_i seen
      obtain ⟨comma, commaPassed, isComma⟩ := passes_of_sees seen
      obtain ⟨⟨⟨others, last⟩, e⟩, readOthers, read⟩ := ok_of_bind read
      obtain ⟨rest, othersPassed, others⟩ := inner.items readOthers
      rw [commaPassed.file, itemPassed.file] at others
      cases read
      exact ⟨_, itemPassed.trans (commaPassed.cons othersPassed), .more value isComma others⟩
    · cases read
      exact ⟨ls, itemPassed, .last value⟩

theorem Sound.entries_succ {fuel : Nat} (inner : Sound fuel) {entries : List (String × Expr)}
    (read : parseEntries (fuel + 1) c = .ok (entries, after)) :
    ∃ ls, c.Passes ls after ∧ Entries c.file ls entries := by
  unfold parseEntries at read
  split at read
  · cases read
    exact ⟨[], .refl _, .none⟩
  · split at read
    · rename_i text next
      obtain ⟨l, passes, _⟩ := Cursor.passes_of_peek? next
      obtain ⟨enough, more⟩ : ∃ fuel, c.rest.length = fuel + 1 := by
        rw [passes.rest]
        exact ⟨_, rfl⟩
      obtain ⟨key, keyPassed, strings⟩ := Cursor.passes_of_strings enough next
      rw [← more] at keyPassed strings
      obtain ⟨d, readColon, read⟩ := ok_of_bind read
      obtain ⟨⟨value, e⟩, readValue, read⟩ := ok_of_bind read
      obtain ⟨colon, colonPassed, isColon⟩ := passes_of_expect readColon
      obtain ⟨ls, valuePassed, value⟩ := inner.value readValue
      rw [colonPassed.file, keyPassed.file] at value
      have passed := keyPassed.trans (colonPassed.cons valuePassed)
      dsimp only at read
      split at read
      · rename_i seen
        obtain ⟨comma, commaPassed, isComma⟩ := passes_of_sees seen
        obtain ⟨⟨others, f⟩, readOthers, read⟩ := ok_of_bind read
        obtain ⟨rest, othersPassed, others⟩ := inner.entries readOthers
        rw [commaPassed.file, valuePassed.file, colonPassed.file, keyPassed.file] at others
        cases read
        refine ⟨_, passed.trans (commaPassed.cons othersPassed), ?_⟩
        rw [List.append_assoc]
        exact .more strings isColon value isComma others
      · cases read
        exact ⟨_, passed, .last strings isColon value⟩
    · cases read

theorem sound (fuel : Nat) : Sound fuel := by
  induction fuel with
  | zero =>
    refine ⟨fun read => ?_, fun read => ?_, fun read => ?_⟩
    · dsimp only [parseFuel] at read
      cases read
    · unfold parseItems at read
      cases read
    · unfold parseEntries at read
      cases read
  | succ fuel ih => exact ⟨ih.value_succ, ih.items_succ, ih.entries_succ⟩

theorem passes_of_parseAt {e : Expr} (read : parseAt c = .ok (e, after)) :
    ∃ ls, c.Passes ls after ∧ Value c.file ls e :=
  (sound (depthAt c)).value read

/-! ## Values that are there -/

variable {more : List Lexeme}

open Cursor (past_past rest_past rest_past_one spanTo_past advance_eq_past peek?_of_rest
  sees_of_rest not_sees_of_rest apart_of_is apart_of_names begins_of_is expect_past)

/-- The segments before the sign of a reference. -/
theorem parseOuterScope_past {ls : List Lexeme} {names : List String} (path : Path ls names)
    (nonempty : names ≠ []) {sign : Lexeme} (isSign : sign.Is .atSign) {fuel : Nat}
    (enough : names.length ≤ fuel) (next : c.rest = ls ++ sign :: more) :
    parseOuterScope fuel c = .ok (names, c.past ls) := by
  induction path generalizing c fuel with
  | nil => exact absurd rfl nonempty
  | @cons l slash name ls names named isSlash path ih =>
    cases fuel with
    | zero => cases enough
    | succ fuel =>
      have afterName : (c.past [l]).rest = slash :: (ls ++ sign :: more) := rest_past next
      have afterSlash := rest_past_one afterName
      unfold parseOuterScope
      rw [ok_bind (Cursor.expectName_past next named)]
      dsimp only
      rw [ok_bind (expect_past afterName isSlash)]
      cases path with
      | nil =>
        rw [if_pos (sees_of_rest afterSlash isSign), past_past]
        rfl
      | cons named' isSlash' path =>
        rw [if_neg (not_sees_of_rest afterSlash (apart_of_names named' rfl _)),
          ok_bind (ih (List.cons_ne_nil _ _) (Nat.le_of_succ_le_succ enough) afterSlash), past_past,
          past_past]
        rfl

theorem parseReference_past {inner call : List Lexeme} {below : List String} {symbol : DottedName}
    {called : Bool} (qualified : Scoped inner below symbol) (calls : Call call called)
    (ends : Begins Token.endsValue (more.map Lexeme.token)) (outer : List String)
    (next : c.rest = inner ++ (call ++ more)) :
    parseReference outer c = .ok (⟨⟨outer ++ below⟩, symbol, called⟩, c.past (inner ++ call)) := by
  unfold parseReference
  cases calls with
  | no =>
    rw [ok_bind (Cursor.scopedName_past qualified ends.endsName outer next)]
    dsimp only
    rw [if_neg (not_sees_of_rest (rest_past next) (ends.ne rfl)), List.append_nil]
    rfl
  | @yes opening closing opens closes =>
    have afterName : (c.past inner).rest = opening :: closing :: more := rest_past next
    have afterOpening := rest_past_one afterName
    rw [ok_bind (Cursor.scopedName_past qualified (begins_of_is opens rfl _) outer next)]
    dsimp only
    rw [if_pos (sees_of_rest afterName opens), advance_eq_past afterName,
      ok_bind (expect_past afterOpening closes), past_past, past_past]
    rfl

theorem closes_of_names {l : Lexeme} {name : String} (named : l.Names name) :
    closes l.token = false := by
  have apart {m : Mark} (noName : m.isName = false) : l.token ≠ .mark m :=
    apart_of_names named noName [] _ rfl
  unfold closes
  split
  · exact absurd ‹_› (apart rfl)
  · exact absurd ‹_› (apart rfl)
  · exact absurd ‹_› (apart rfl)
  · rfl

/-- No value begins with a mark that ends a container. -/
theorem exists_cons_of_value {file : Nat} {ls : List Lexeme} {e : Expr} (value : Value file ls e) :
    ∃ l rest, ls = l :: rest ∧ closes l.token = false := by
  have mark {l : Lexeme} {m : Mark} (is : l.Is m) (opens : closes (.mark m) = false) :
      closes l.token = false := by
    rw [is, opens]
  cases value with
  | @constant l value same _ =>
    refine ⟨l, [], rfl, ?_⟩
    rw [same]
    cases value with
    | bool value => cases value <;> rfl
    | _ => rfl
  | text strings =>
    obtain ⟨l, rest, _, rfl, same⟩ := strings.exists_cons
    exact ⟨l, rest, rfl, by rw [same]; rfl⟩
  | list opens => exact ⟨_, _, rfl, mark opens rfl⟩
  | tuple opens => exact ⟨_, _, rfl, mark opens rfl⟩
  | parentheses opens => exact ⟨_, _, rfl, mark opens rfl⟩
  | map opens => exact ⟨_, _, rfl, mark opens rfl⟩
  | macroRef percent => exact ⟨_, _, rfl, mark percent rfl⟩
  | reference target =>
    obtain ⟨path, isSign, _, _⟩ := target
    cases path with
    | nil => exact ⟨_, _, rfl, mark isSign rfl⟩
    | cons named => exact ⟨_, _, rfl, closes_of_names named⟩

theorem not_sees_of_value {file : Nat} {ls : List Lexeme} {e : Expr} (value : Value file ls e)
    {close : Mark} (closing : closes (.mark close) = true) (next : c.rest = ls ++ more) :
    ¬ c.sees close = true := by
  obtain ⟨l, rest, rfl, opens⟩ := exists_cons_of_value value
  intro seen
  have same : l.token = .mark close := by
    rw [Cursor.sees, peek?_of_rest next, beq_iff_eq] at seen
    exact Option.some.inj seen
  rw [same, closing] at opens
  cases opens

/-- The readers of values with the given fuel take what the grammar derives. -/
structure Complete (fuel : Nat) : Prop where
  value (c : Cursor) {ls more : List Lexeme} {e : Expr} : Value c.file ls e →
    2 * ls.length ≤ fuel → c.rest = ls ++ more → Begins Token.endsValue (more.map Lexeme.token) →
      parseFuel fuel c = .ok (e, c.past ls)
  items (c : Cursor) {ls more : List Lexeme} {before behind : Bool} {items : List Expr}
    {l : Lexeme} {close : Mark} : Items c.file before ls items behind → l.Is close →
    closes (.mark close) = true → 2 * ls.length + 1 ≤ fuel → c.rest = ls ++ l :: more →
      parseItems close fuel before c = .ok ((items, behind), c.past ls)
  entries (c : Cursor) {ls more : List Lexeme} {entries : List (String × Expr)} {l : Lexeme} :
    Entries c.file ls entries → l.Is .closeBrace → 2 * ls.length + 1 ≤ fuel →
    c.rest = ls ++ l :: more → parseEntries fuel c = .ok (entries, c.past ls)

theorem begins_of_closes {close : Mark} (closing : closes (.mark close) = true) {l : Lexeme}
    (is : l.Is close) : Begins Token.endsValue ((l :: more).map Lexeme.token) :=
  begins_of_is is (by cases close <;> first | rfl | cases closing) _

theorem ofParentheses_eq_tuple {items : List Expr} {comma : Bool}
    (separated : items.length = 1 → comma = true) (span : Span) :
    ofParentheses items comma span = .tuple items span := by
  match items, comma with
  | [], _ => rfl
  | [_], true => rfl
  | [_], false => cases separated rfl
  | _ :: _ :: _, _ => rfl

/-- Where the lexemes between two brackets stand. -/
theorem rest_enclosed {opening closing : Lexeme} {ls : List Lexeme}
    (next : c.rest = opening :: (ls ++ [closing]) ++ more) :
    (c.past [opening]).rest = ls ++ closing :: more ∧
      ((c.past [opening]).past ls).rest = closing :: more ∧
      ((c.past [opening]).past ls).past [closing] = c.past (opening :: (ls ++ [closing])) := by
  have inside : (c.past [opening]).rest = ls ++ closing :: more := by
    refine rest_past ?_
    rw [next, List.cons_append, List.append_assoc]
    rfl
  exact ⟨inside, rest_past inside, by rw [past_past, past_past]; rfl⟩

theorem enough_inside {opening closing : Lexeme} {ls : List Lexeme} {fuel : Nat}
    (enough : 2 * (opening :: (ls ++ [closing])).length ≤ fuel + 1) :
    2 * ls.length + 1 ≤ fuel := by
  rw [List.length_cons, List.length_append, List.length_singleton] at enough
  omega

theorem Complete.items_between {fuel : Nat} (inner : Complete fuel) {opening closing : Lexeme}
    {ls : List Lexeme} {behind : Bool} {items : List Expr} {close : Mark}
    (derived : Items c.file false ls items behind) (closed : closing.Is close)
    (ends : closes (.mark close) = true)
    (enough : 2 * (opening :: (ls ++ [closing])).length ≤ fuel + 1)
    (next : c.rest = opening :: (ls ++ [closing]) ++ more) :
    ∃ d, parseItems close fuel false c.advance = .ok ((items, behind), d) ∧
      d.expect close = .ok (c.past (opening :: (ls ++ [closing]))) := by
  obtain ⟨inside, after, whole⟩ := rest_enclosed next
  refine ⟨(c.past [opening]).past ls, ?_, ?_⟩
  · rw [advance_eq_past next]
    exact inner.items (c.past [opening]) derived closed ends (enough_inside enough) inside
  · rw [expect_past after closed, whole]

theorem Complete.entries_between {fuel : Nat} (inner : Complete fuel) {opening closing : Lexeme}
    {ls : List Lexeme} {entries : List (String × Expr)} (derived : Entries c.file ls entries)
    (closed : closing.Is .closeBrace)
    (enough : 2 * (opening :: (ls ++ [closing])).length ≤ fuel + 1)
    (next : c.rest = opening :: (ls ++ [closing]) ++ more) :
    ∃ d, parseEntries fuel c.advance = .ok (entries, d) ∧
      d.expect .closeBrace = .ok (c.past (opening :: (ls ++ [closing]))) := by
  obtain ⟨inside, after, whole⟩ := rest_enclosed next
  refine ⟨(c.past [opening]).past ls, ?_, ?_⟩
  · rw [advance_eq_past next]
    exact inner.entries (c.past [opening]) derived closed (enough_inside enough) inside
  · rw [expect_past after closed, whole]

/-- A reference that begins with a segment of its scope. -/
theorem parseScoped_past {outer inner call : List Lexeme} {sign : Lexeme}
    {above below : List String} {symbol : DottedName} {called : Bool}
    (path : Path outer above) (nonempty : above ≠ [])
    (isSign : sign.Is .atSign) (qualified : Scoped inner below symbol) (calls : Call call called)
    (ends : Begins Token.endsValue (more.map Lexeme.token))
    (next : c.rest = outer ++ sign :: (inner ++ call) ++ more) :
    parseScoped c = .ok (.reference ⟨⟨above ++ below⟩, symbol, called⟩
      (cover c.file (outer ++ sign :: (inner ++ call))),
      c.past (outer ++ sign :: (inner ++ call))) := by
  have start : c.rest = outer ++ sign :: (inner ++ (call ++ more)) := by
    rw [next, List.append_assoc, List.cons_append, List.append_assoc]
  have enough : above.length ≤ c.rest.length := by
    rw [start, List.length_append]
    exact Nat.le_add_right_of_le path.length_le
  have afterOuter := rest_past start
  have afterSign := rest_past_one afterOuter
  unfold parseScoped
  rw [ok_bind (parseOuterScope_past path nonempty isSign enough start)]
  dsimp only
  rw [ok_bind (expect_past afterOuter isSign),
    ok_bind (parseReference_past qualified calls ends above afterSign), past_past, past_past,
    List.singleton_append]
  dsimp only
  rw [spanTo_past next (List.append_ne_nil_of_right_ne_nil _ (List.cons_ne_nil _ _))]
  rfl

theorem Complete.value_succ {fuel : Nat} (inner : Complete fuel) {ls : List Lexeme} {e : Expr}
    (value : Value c.file ls e) (enough : 2 * ls.length ≤ fuel + 1) (next : c.rest = ls ++ more)
    (ends : Begins Token.endsValue (more.map Lexeme.token)) :
    parseFuel (fuel + 1) c = .ok (e, c.past ls) := by
  have span (ls : List Lexeme) (l : Lexeme) (next : c.rest = l :: ls ++ more) :
      c.spanTo (c.past (l :: ls)) = cover c.file (l :: ls) :=
    spanTo_past next (List.cons_ne_nil _ _)
  dsimp only [parseFuel]
  cases value with
  | @constant l value same noText =>
    rw [peek?_of_rest next, same, advance_eq_past next, span [] l next]
    cases value with
    | str text => exact absurd rfl (noText text)
    | bool value => cases value <;> rfl
    | _ => rfl
  | text strings =>
    obtain ⟨l, rest, first, rfl, same⟩ := strings.exists_cons
    have all : (l :: rest).length ≤ c.rest.length := by
      rw [next, List.length_append]
      exact Nat.le_add_right _ _
    rw [peek?_of_rest next, same]
    dsimp only
    rw [Cursor.strings_past strings ends all next, span rest l next]
  | list opens items closes =>
    obtain ⟨d, read, ended⟩ := inner.items_between items closes rfl enough next
    rw [peek?_of_rest next, opens]
    dsimp only
    rw [ok_bind read]
    dsimp only
    rw [ok_bind ended, span _ _ next]
    rfl
  | tuple opens items closes separated =>
    obtain ⟨d, read, ended⟩ := inner.items_between items closes rfl enough next
    rw [peek?_of_rest next, opens]
    dsimp only
    rw [ok_bind read]
    dsimp only
    rw [ok_bind ended, span _ _ next, ofParentheses_eq_tuple separated]
    rfl
  | parentheses opens inside closes =>
    obtain ⟨d, read, ended⟩ := inner.items_between (.last inside) closes rfl enough next
    rw [peek?_of_rest next, opens]
    dsimp only
    rw [ok_bind read]
    dsimp only
    rw [ok_bind ended, span _ _ next]
    rfl
  | map opens entries closes =>
    obtain ⟨d, read, ended⟩ := inner.entries_between entries closes enough next
    rw [peek?_of_rest next, opens]
    dsimp only
    rw [ok_bind read]
    dsimp only
    rw [ok_bind ended, span _ _ next]
    rfl
  | @macroRef percent ls name isPercent named =>
    rw [peek?_of_rest next, isPercent]
    dsimp only
    rw [advance_eq_past next,
      ok_bind (Cursor.dotted_past named (ends.ne rfl) (rest_past_one next)), past_past]
    dsimp only
    rw [List.singleton_append, span _ _ next]
    rfl
  | reference target =>
    obtain @⟨_, inner, call, sign, _, _, _, _, path, isSign, qualified, calls⟩ := target
    cases path with
    | nil =>
      have afterSign : (c.past [sign]).rest = inner ++ (call ++ more) := by
        rw [← List.append_assoc]
        exact rest_past next
      rw [peek?_of_rest next, isSign]
      dsimp only
      rw [advance_eq_past next, ok_bind (parseReference_past qualified calls ends [] afterSign),
        past_past]
      dsimp only
      rw [List.nil_append, List.singleton_append, span _ _ next]
      rfl
    | @cons l slash name ls names named isSlash path =>
      have whole := parseScoped_past (.cons named isSlash path) (List.cons_ne_nil _ _) isSign
        qualified calls ends next
      rw [peek?_of_rest next]
      rw [Lexeme.Names] at named
      -- No name decides for another value, so what is left is the reader of references.
      cases token : l.token with
      | str text =>
        rw [token] at named
        cases named
      | int n =>
        rw [token] at named
        cases named
      | float x =>
        rw [token] at named
        cases named
      | ident name => exact whole
      | mark m =>
        rw [token] at named
        cases m with
        | kwImport | kwFrom | kwInclude | kwAs => exact whole
        | _ => cases named

theorem Complete.items_succ {fuel : Nat} (inner : Complete fuel) {ls : List Lexeme}
    {before behind : Bool} {items : List Expr} {l : Lexeme} {close : Mark}
    (derived : Items c.file before ls items behind) (closed : l.Is close)
    (closing : closes (.mark close) = true) (enough : 2 * ls.length + 1 ≤ fuel + 1)
    (next : c.rest = ls ++ l :: more) :
    parseItems close (fuel + 1) before c = .ok ((items, behind), c.past ls) := by
  unfold parseItems
  cases derived with
  | none =>
    rw [if_pos (sees_of_rest next closed)]
    rfl
  | last value =>
    have apart : close ≠ .comma := by
      rintro rfl
      cases closing
    rw [if_neg (not_sees_of_value value closing next),
      ok_bind (inner.value c value (by omega) next (begins_of_closes closing closed))]
    dsimp only
    rw [if_neg (not_sees_of_rest (rest_past next) (apart_of_is closed apart _))]
    rfl
  | @more _ _ comma ls rest value items derived isComma others =>
    have start : c.rest = ls ++ comma :: (rest ++ l :: more) := by
      rw [next, List.append_assoc]
      rfl
    have afterItem := rest_past start
    have sizes : 2 * ls.length ≤ fuel ∧ 2 * rest.length + 1 ≤ fuel := by
      rw [List.length_append, List.length_cons] at enough
      omega
    rw [if_neg (not_sees_of_value derived closing start),
      ok_bind (inner.value c derived sizes.1 start (begins_of_is isComma rfl _))]
    dsimp only
    rw [if_pos (sees_of_rest afterItem isComma), advance_eq_past afterItem,
      ok_bind (inner.items ((c.past ls).past [comma]) others closed closing sizes.2
        (rest_past_one afterItem)), past_past, past_past]
    rfl

theorem Complete.entries_succ {fuel : Nat} (inner : Complete fuel) {ls : List Lexeme}
    {entries : List (String × Expr)} {l : Lexeme} (derived : Entries c.file ls entries)
    (closed : l.Is .closeBrace) (enough : 2 * ls.length + 1 ≤ fuel + 1)
    (next : c.rest = ls ++ l :: more) :
    parseEntries (fuel + 1) c = .ok (entries, c.past ls) := by
  -- An entry up to its value; what follows it tells whether another one may come.
  have entry {key ls rest : List Lexeme} {colon : Lexeme} {text : String} {value : Expr}
      (strings : Strings key text) (isColon : colon.Is .colon) (derived : Value c.file ls value)
      (small : 2 * ls.length ≤ fuel) (start : c.rest = key ++ colon :: (ls ++ rest))
      (ends : Begins Token.endsValue (rest.map Lexeme.token)) :
      parseEntries (fuel + 1) c =
        (let c := c.past (key ++ colon :: ls)
          if c.sees .comma then
            parseEntries fuel c.advance >>= fun read => .ok ((text, value) :: read.1, read.2)
          else .ok ([(text, value)], c)) := by
    obtain ⟨first, others, content, same, isString⟩ := strings.exists_cons
    have opened : c.rest = first :: (others ++ colon :: (ls ++ rest)) := by
      rw [start, same]
      rfl
    have noClose : ¬ c.sees .closeBrace = true := by
      rw [Cursor.sees, peek?_of_rest opened, isString, beq_iff_eq]
      intro same
      cases same
    have all : key.length ≤ c.rest.length := by
      rw [start, List.length_append]
      exact Nat.le_add_right _ _
    have afterKey := rest_past start
    have afterColon := rest_past_one afterKey
    conv_lhs => unfold parseEntries
    rw [if_neg noClose, peek?_of_rest opened, isString]
    dsimp only
    rw [Cursor.strings_past strings (begins_of_is isColon rfl _) all start]
    dsimp only
    rw [ok_bind (expect_past afterKey isColon),
      ok_bind (inner.value ((c.past key).past [colon]) derived small afterColon ends), past_past,
      past_past]
    rfl
  cases derived with
  | none =>
    unfold parseEntries
    rw [if_pos (sees_of_rest next closed)]
    rfl
  | @last colon key ls text value strings isColon derived =>
    have start : c.rest = key ++ colon :: (ls ++ l :: more) := by
      rw [next, List.append_assoc]
      rfl
    have small : 2 * ls.length ≤ fuel := by
      rw [List.length_append, List.length_cons] at enough
      omega
    rw [entry strings isColon derived small start (begins_of_is closed rfl _)]
    dsimp only
    rw [if_neg (not_sees_of_rest (rest_past next) (apart_of_is closed (by decide) _))]
  | @more colon comma key ls rest text value entries strings isColon derived isComma others =>
    have start : c.rest = key ++ colon :: (ls ++ comma :: (rest ++ l :: more)) := by
      rw [next, List.append_assoc, List.cons_append, List.append_assoc]
      rfl
    have sizes : 2 * ls.length ≤ fuel ∧ 2 * rest.length + 1 ≤ fuel := by
      rw [List.length_append, List.length_cons, List.length_append, List.length_cons] at enough
      omega
    have afterValue : (c.past (key ++ colon :: ls)).rest = comma :: (rest ++ l :: more) := by
      refine rest_past ?_
      rw [start, List.append_assoc]
      rfl
    rw [entry strings isColon derived sizes.1 start (begins_of_is isComma rfl _)]
    dsimp only
    rw [if_pos (sees_of_rest afterValue isComma), advance_eq_past afterValue,
      ok_bind (inner.entries ((c.past (key ++ colon :: ls)).past [comma]) others closed sizes.2
        (rest_past_one afterValue)), past_past, past_past, List.append_assoc]
    rfl

theorem complete (fuel : Nat) : Complete fuel := by
  induction fuel with
  | zero =>
    refine ⟨fun _ _ _ _ value enough _ _ => ?_, fun _ _ _ _ _ _ _ _ _ _ _ enough => ?_,
      fun _ _ _ _ _ _ _ enough => ?_⟩
    · obtain ⟨l, rest, rfl, _⟩ := exists_cons_of_value value
      cases enough
    · cases enough
    · cases enough
  | succ fuel ih => exact ⟨fun _ _ _ _ => ih.value_succ, fun _ _ _ _ _ _ _ _ => ih.items_succ,
      fun _ _ _ _ _ => ih.entries_succ⟩

theorem parseAt_past {ls : List Lexeme} {e : Expr} (value : Value c.file ls e)
    (next : c.rest = ls ++ more) (ends : Begins Token.endsValue (more.map Lexeme.token)) :
    parseAt c = .ok (e, c.past ls) := by
  refine (complete (depthAt c)).value c value ?_ next ends
  rw [depthAt, next, List.length_append]
  omega

end Expr

end ConfigBinding
