import ConfigBinding.Attempt
import ConfigBinding.Proofs.Grammar
import ConfigBinding.Proofs.Reading.Parsing

/-!
# Names and strings by the grammar

The readers of names and strings against their grammar. What a reader takes says what it gives; and
where the lexemes that come next say something, and what follows cannot go on with it, the reader
takes these lexemes and gives it.

Results:
1. `Cursor.passes_of_scopedName`, `Cursor.scopedName_past`: names in a scope.
2. `Cursor.passes_of_strings`, `Cursor.strings_past`: strings behind each other.
-/

namespace ConfigBinding

open Grammar

namespace Cursor

/-! ## Behind lexemes -/

/-- The cursor behind the lexemes, which come next. -/
def past (c : Cursor) (ls : List Lexeme) : Cursor :=
  { c with
    reached := (ls.getLast?.map Lexeme.stop).getD c.reached
    rest := c.rest.drop ls.length }

section

variable {c d e : Cursor} {l : Lexeme} {ls ms more : List Lexeme}

theorem past_nil (c : Cursor) : c.past [] = c := rfl

theorem past_past (c : Cursor) (ls ms : List Lexeme) : (c.past ls).past ms = c.past (ls ++ ms) := by
  unfold past
  rw [List.drop_drop, List.length_append, List.getLast?_append]
  cases ms.getLast? <;> rfl

theorem rest_past (next : c.rest = ls ++ more) : (c.past ls).rest = more := by
  unfold past
  rw [next, List.drop_left]

theorem advance_eq_past (next : c.rest = l :: more) : c.advance = c.past [l] := by
  unfold advance past
  rw [next]
  rfl

theorem spanTo_past (next : c.rest = ls ++ more) (nonempty : ls ≠ []) :
    c.spanTo (c.past ls) = cover c.file ls := by
  have taken : (c.past ls).rest.length < c.rest.length := by
    have := List.length_pos_of_ne_nil nonempty
    rw [rest_past next, next, List.length_append]
    omega
  obtain ⟨first, others, rfl⟩ := List.exists_cons_of_ne_nil nonempty
  unfold spanTo cover offset
  rw [if_pos taken, next]
  simp [past, List.getLast?_cons]

theorem rest_past_one (next : c.rest = l :: more) : (c.past [l]).rest = more := rest_past next

/-- Between the cursor and the later one stand the lexemes. -/
structure Passes (c : Cursor) (ls : List Lexeme) (later : Cursor) : Prop where
  rest : c.rest = ls ++ later.rest
  later_eq : later = c.past ls

theorem Passes.refl (c : Cursor) : c.Passes [] c := ⟨rfl, (past_nil c).symm⟩

theorem Passes.trans (first : c.Passes ls d) (second : d.Passes ms e) :
    c.Passes (ls ++ ms) e where
  rest := by rw [first.rest, second.rest, List.append_assoc]
  later_eq := by rw [second.later_eq, first.later_eq, past_past]

theorem Passes.cons (first : c.Passes [l] d) (second : d.Passes ms e) : c.Passes (l :: ms) e :=
  first.trans second

theorem Passes.file (passes : c.Passes ls d) : d.file = c.file := by
  rw [passes.later_eq]
  rfl

theorem Passes.spanTo (passes : c.Passes ls d) (nonempty : ls ≠ []) :
    c.spanTo d = cover c.file ls := by
  have span := spanTo_past passes.rest nonempty
  rw [← passes.later_eq] at span
  exact span

/-- What comes next is passed over by one step. -/
theorem passes_of_peek? {token : Token} (next : c.peek? = some token) :
    ∃ l, c.Passes [l] c.advance ∧ l.token = token := by
  unfold peek? at next
  cases rest : c.rest with
  | nil =>
    rw [rest] at next
    cases next
  | cons l more =>
    rw [rest] at next
    refine ⟨l, ⟨?_, advance_eq_past rest⟩, Option.some.inj next⟩
    rw [rest_advance, rest]
    rfl

theorem passes_of_sees {m : Mark} (seen : c.sees m = true) :
    ∃ l, c.Passes [l] c.advance ∧ l.Is m :=
  passes_of_peek? (beq_iff_eq.mp seen)

theorem passes_of_expect {m : Mark} (read : c.expect m = .ok d) : ∃ l, c.Passes [l] d ∧ l.Is m := by
  unfold expect at read
  split at read
  · rename_i seen
    cases read
    exact passes_of_sees seen
  · cases read

end

/-! ## Names that are read -/

variable {place : SyntaxError.Place} {c after : Cursor}

theorem passes_of_expectName {name : String} (read : c.expectName place = .ok (name, after)) :
    ∃ l, c.Passes [l] after ∧ l.Names name := by
  unfold expectName at read
  cases next : c.peek? with
  | none =>
    rw [next] at read
    cases read
  | some token =>
    obtain ⟨l, passes, same⟩ := passes_of_peek? next
    rw [next, Option.bind_some] at read
    split at read
    · rename_i name named
      cases read
      exact ⟨l, passes, by rw [Lexeme.Names, same, named]⟩
    · cases read

theorem passes_of_segments {fuel : Nat} {names : List String}
    (read : segments place fuel c = .ok (names, after)) :
    ∃ ls, c.Passes ls after ∧ Segments ls names := by
  induction fuel generalizing c after names with
  | zero =>
    cases read
    exact ⟨[], .refl _, .nil⟩
  | succ fuel ih =>
    unfold segments at read
    split at read
    · rename_i seen
      obtain ⟨dot, dotPassed, isDot⟩ := passes_of_sees seen
      obtain ⟨⟨name, d⟩, readName, read⟩ := ok_of_bind read
      obtain ⟨l, namePassed, named⟩ := passes_of_expectName readName
      obtain ⟨⟨more, e⟩, readMore, read⟩ := ok_of_bind read
      obtain ⟨ls, passed, segments⟩ := ih readMore
      cases read
      exact ⟨dot :: l :: ls, dotPassed.cons (namePassed.cons passed), .cons isDot named segments⟩
    · cases read
      exact ⟨[], .refl _, .nil⟩

theorem passes_of_dotted {name : DottedName} (read : c.dotted place = .ok (name, after)) :
    ∃ ls, c.Passes ls after ∧ Dotted ls name := by
  unfold dotted at read
  obtain ⟨⟨first, d⟩, readFirst, read⟩ := ok_of_bind read
  obtain ⟨⟨more, e⟩, readMore, read⟩ := ok_of_bind read
  obtain ⟨l, firstPassed, named⟩ := passes_of_expectName readFirst
  obtain ⟨ls, passed, segments⟩ := passes_of_segments readMore
  cases read
  exact ⟨l :: ls, firstPassed.cons passed, .mk named segments⟩

/-- Behind the name that was read last: it stays the symbol, or was a segment of the scope. -/
theorem passes_of_scopedRest {blame : Cursor → Span} {fuel : Nat} {outer scope : List String}
    {name symbol : DottedName} {read : List Lexeme} (named : Dotted read name)
    (readRest : scopedRest place blame fuel outer name c = .ok ((scope, symbol), after)) :
    ∃ ls names, c.Passes ls after ∧ scope = outer ++ names ∧ Scoped (read ++ ls) names symbol := by
  induction fuel generalizing c outer name read with
  | zero =>
    cases readRest
    refine ⟨[], [], .refl _, (List.append_nil _).symm, ?_⟩
    rw [List.append_nil]
    exact .name named
  | succ fuel ih =>
    unfold scopedRest at readRest
    split at readRest
    · rename_i seen
      split at readRest
      · rename_i single
        obtain ⟨slash, slashPassed, isSlash⟩ := passes_of_sees seen
        obtain ⟨⟨next, d⟩, readNext, readRest⟩ := ok_of_bind readRest
        obtain ⟨ms, nextPassed, nextNamed⟩ := passes_of_dotted readNext
        obtain ⟨ls, names, passed, rfl, qualified⟩ := ih nextNamed readRest
        -- A name without dots is one lexeme.
        cases named with
        | @mk l first others names' isFirst segments =>
          cases segments with
          | nil =>
            refine ⟨slash :: (ms ++ ls), first :: names, slashPassed.cons (nextPassed.trans passed),
              ?_, .scope isFirst isSlash qualified⟩
            rw [List.append_assoc]
            rfl
          | cons => cases single
      · cases readRest
    · cases readRest
      refine ⟨[], [], .refl _, (List.append_nil _).symm, ?_⟩
      rw [List.append_nil]
      exact .name named

theorem passes_of_scopedName {blame : Cursor → Span} {outer : List String} {scope : Scope}
    {symbol : DottedName}
    (read : c.scopedName place blame outer = .ok ((scope, symbol), after)) :
    ∃ ls names, c.Passes ls after ∧ scope = ⟨outer ++ names⟩ ∧ Scoped ls names symbol := by
  unfold scopedName at read
  obtain ⟨⟨name, d⟩, readName, read⟩ := ok_of_bind read
  obtain ⟨⟨⟨segments, symbol⟩, e⟩, readRest, read⟩ := ok_of_bind read
  obtain ⟨ms, namePassed, named⟩ := passes_of_dotted readName
  obtain ⟨ls, names, passed, rfl, qualified⟩ := passes_of_scopedRest named readRest
  cases read
  exact ⟨ms ++ ls, names, namePassed.trans passed, rfl, qualified⟩

/-- A string is read with those behind it. -/
theorem passes_of_strings (fuel : Nat) {text : String} (next : c.peek? = some (.str text)) :
    ∃ ls, c.Passes ls (c.strings (fuel + 1)).2 ∧ Strings ls (c.strings (fuel + 1)).1 := by
  induction fuel generalizing c text with
  | zero =>
    obtain ⟨l, passes, same⟩ := passes_of_peek? next
    unfold strings
    rw [next]
    refine ⟨[l], passes, ?_⟩
    show Strings [l] (text ++ "")
    rw [String.append_empty]
    exact .last same
  | succ fuel ih =>
    obtain ⟨l, passes, same⟩ := passes_of_peek? next
    unfold strings
    rw [next]
    dsimp only
    by_cases goesOn : ∃ following, c.advance.peek? = some (.str following)
    · obtain ⟨following, nextString⟩ := goesOn
      obtain ⟨ls, passed, strings⟩ := ih nextString
      exact ⟨l :: ls, passes.cons passed, .more same strings⟩
    · have alone : strings (fuel + 1) c.advance = ("", c.advance) := by
        unfold strings
        split
        · rename_i following nextString
          exact absurd ⟨following, nextString⟩ goesOn
        · rfl
      rw [alone, String.append_empty]
      exact ⟨[l], passes, .last same⟩

/-! ## Next lexemes -/

section

variable {l : Lexeme} {ls more : List Lexeme}

theorem peek?_of_rest (next : c.rest = l :: more) : c.peek? = some l.token := by
  rw [peek?, next]
  rfl

theorem sees_of_rest {m : Mark} (next : c.rest = l :: more) (is : l.Is m) : c.sees m = true := by
  rw [sees, peek?_of_rest next, is, beq_self_eq_true]

theorem not_sees_of_rest {m : Mark} (next : c.rest = more)
    (apart : ∀ token ∈ (more.map Lexeme.token).head?, token ≠ .mark m) : ¬ c.sees m = true :=
  not_sees_of_tokens (congrArg (List.map Lexeme.token) next) apart

theorem apart_of_names {m : Mark} {name : String} (named : l.Names name) (noName : m.isName = false)
    (more : List Lexeme) :
    ∀ token ∈ ((l :: more).map Lexeme.token).head?, token ≠ .mark m := by
  rintro token member rfl
  have same : l.token = .mark m := Option.some.inj member
  rw [Lexeme.Names, same, Token.name?, noName] at named
  cases named

theorem apart_of_is {m n : Mark} (is : l.Is n) (different : n ≠ m) (more : List Lexeme) :
    ∀ token ∈ ((l :: more).map Lexeme.token).head?, token ≠ .mark m := by
  rintro token member rfl
  have same : l.token = .mark m := Option.some.inj member
  exact different (Token.mark.inj (is.symm.trans same))

theorem begins_of_is {p : Token → Bool} {m : Mark} (is : l.Is m) (inside : p (.mark m) = true)
    (more : List Lexeme) : Begins p ((l :: more).map Lexeme.token) :=
  begins_cons (is.symm ▸ inside) _

theorem begins_of_names {name : String} (named : l.Names name) (more : List Lexeme) :
    Begins Token.endsValue ((l :: more).map Lexeme.token) :=
  begins_cons (Token.endsValue_of_name? named) _

theorem expect_past {m : Mark} (next : c.rest = l :: more) (is : l.Is m) :
    c.expect m = .ok (c.past [l]) := by
  rw [expect, if_pos (sees_of_rest next is), advance_eq_past next]

theorem expectName_past {name : String} (next : c.rest = l :: more) (named : l.Names name) :
    c.expectName place = .ok (name, c.past [l]) := by
  unfold expectName
  rw [peek?_of_rest next, Option.bind_some, named, advance_eq_past next]

end

/-! ## Names that are there -/

variable {ls more : List Lexeme}

theorem segments_past {names : List String} (derived : Segments ls names)
    (ends : ∀ token ∈ (more.map Lexeme.token).head?, token ≠ .mark .dot) {fuel : Nat}
    (enough : names.length ≤ fuel) (next : c.rest = ls ++ more) :
    segments place fuel c = .ok (names, c.past ls) := by
  induction derived generalizing c fuel with
  | nil =>
    cases fuel with
    | zero => rfl
    | succ fuel =>
      unfold segments
      rw [if_neg (not_sees_of_rest next ends)]
      rfl
  | @cons dot l name ls names isDot named _ ih =>
    cases fuel with
    | zero => cases enough
    | succ fuel =>
      have afterDot : (c.past [dot]).rest = l :: (ls ++ more) := rest_past next
      unfold segments
      rw [if_pos (sees_of_rest next isDot), advance_eq_past next,
        ok_bind (expectName_past afterDot named)]
      dsimp only
      rw [ok_bind (ih (Nat.le_of_succ_le_succ enough) (rest_past afterDot)), past_past, past_past]
      rfl

theorem dotted_past {name : DottedName} (named : Dotted ls name)
    (ends : ∀ token ∈ (more.map Lexeme.token).head?, token ≠ .mark .dot)
    (next : c.rest = ls ++ more) : c.dotted place = .ok (name, c.past ls) := by
  cases named with
  | @mk l first ls names isFirst segments =>
    have afterFirst : (c.past [l]).rest = ls ++ more := rest_past next
    have enough : names.length ≤ (c.past [l]).rest.length := by
      rw [afterFirst, List.length_append]
      exact Nat.le_add_right_of_le segments.length_le
    unfold dotted
    rw [ok_bind (expectName_past next isFirst)]
    dsimp only
    rw [ok_bind (segments_past segments ends enough afterFirst), past_past]
    rfl

/-- Behind a name without dots, a slash makes it a segment of the scope. -/
theorem scopedRest_past {blame : Cursor → Span} {names : List String} {symbol : DottedName}
    (qualified : Scoped ls names symbol) (ends : Begins Token.endsName (more.map Lexeme.token))
    {slash : Lexeme} (isSlash : slash.Is .slash) (outer : List String) (first : String) {fuel : Nat}
    (enough : names.length < fuel) (next : c.rest = slash :: (ls ++ more)) :
    scopedRest place blame fuel outer ⟨[first]⟩ c =
      .ok ((outer ++ first :: names, symbol), c.past (slash :: ls)) := by
  have single (name : String) : (DottedName.mk [name]).size = 1 := rfl
  induction qualified generalizing c outer first fuel slash with
  | @name ls symbol named =>
    cases fuel with
    | zero => cases enough
    | succ fuel =>
      have afterSlash : (c.past [slash]).rest = ls ++ more := rest_past next
      unfold scopedRest
      rw [if_pos (sees_of_rest next isSlash), if_pos (single first), advance_eq_past next,
        ok_bind (dotted_past named (ends.ne rfl) afterSlash)]
      dsimp only
      rw [scopedRest_end (ends.ne rfl) (congrArg _ (rest_past afterSlash)), past_past]
      rfl
  | @scope l slash' name ls names symbol isName isSlash' _ ih =>
    cases fuel with
    | zero => cases enough
    | succ fuel =>
      have afterSlash : (c.past [slash]).rest = [l] ++ slash' :: (ls ++ more) := rest_past next
      have whole := ih isSlash' (outer ++ [first]) name (Nat.lt_of_succ_lt_succ enough)
        (rest_past afterSlash)
      rw [past_past _ [slash], past_past, List.append_assoc] at whole
      unfold scopedRest
      rw [if_pos (sees_of_rest next isSlash), if_pos (single first), advance_eq_past next,
        ok_bind (dotted_past (.mk isName .nil) (apart_of_is isSlash' (by decide) _) afterSlash)]
      dsimp only
      rw [past_past]
      exact whole

theorem scopedName_past {blame : Cursor → Span} {names : List String} {symbol : DottedName}
    (qualified : Scoped ls names symbol) (ends : Begins Token.endsName (more.map Lexeme.token))
    (outer : List String) (next : c.rest = ls ++ more) :
    c.scopedName place blame outer = .ok ((⟨outer ++ names⟩, symbol), c.past ls) := by
  unfold scopedName
  cases qualified with
  | name named =>
    rw [ok_bind (dotted_past named (ends.ne rfl) next)]
    dsimp only
    rw [scopedRest_end (ends.ne rfl) (congrArg _ (rest_past next)), List.append_nil]
    rfl
  | @scope l slash name ls names _ isName isSlash qualified =>
    have start : c.rest = [l] ++ slash :: (ls ++ more) := next
    have afterFirst := rest_past start
    have enough : names.length < (c.past [l]).rest.length := by
      rw [afterFirst, List.length_cons, List.length_append]
      have := qualified.length_lt
      omega
    rw [ok_bind (dotted_past (.mk isName .nil) (apart_of_is isSlash (by decide) _) start)]
    dsimp only
    rw [ok_bind (scopedRest_past qualified ends isSlash outer name enough afterFirst), past_past]
    rfl

/-- Strings are read up to what is none. -/
theorem strings_past {text : String} (derived : Strings ls text)
    (ends : Begins Token.endsValue (more.map Lexeme.token)) {fuel : Nat}
    (enough : ls.length ≤ fuel) (next : c.rest = ls ++ more) :
    strings fuel c = (text, c.past ls) := by
  -- What is no string adds nothing, however far the reader looks.
  have alone {c : Cursor} (next : c.rest = more) (fuel : Nat) : strings fuel c = ("", c) := by
    cases fuel with
    | zero => rfl
    | succ fuel =>
      unfold strings
      split
      · rename_i text isString
        rw [peek?_eq, tokens, next] at isString
        cases ends _ isString
      · rfl
  induction derived generalizing c fuel with
  | @last l text isString =>
    cases fuel with
    | zero => cases enough
    | succ fuel =>
      unfold strings
      rw [peek?_of_rest next, isString, advance_eq_past next]
      dsimp only
      rw [alone (rest_past next), String.append_empty]
  | @more l text rest ls isString _ ih =>
    cases fuel with
    | zero => cases enough
    | succ fuel =>
      unfold strings
      rw [peek?_of_rest next, isString, advance_eq_past next]
      dsimp only
      rw [ih (Nat.le_of_succ_le_succ enough) (rest_past_one next), past_past]
      rfl

end Cursor

end ConfigBinding
