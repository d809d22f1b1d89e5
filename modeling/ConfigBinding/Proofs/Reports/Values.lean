import ConfigBinding.Proofs.Grammar.Parts
import ConfigBinding.Proofs.Grammar.Values
import ConfigBinding.Proofs.SourceNumbers

/-!
# Reading with more behind

The same tokens are read twice, the second time with more tokens behind them, of which the first is
a name. A value that can be read is read the same way both times, as no value goes on with a name. A
report stays as it is, unless it says that the input ended too early: then there is more input now.

Both runs take the same steps; the bounds on their depths only have to be large enough for what is
read, so the second run is not bounded by the tokens that are added.

Results:
1. `Foretells.bind`: the rule for one reader behind another.
2. `Cursor.scopedName_extend`, `Expr.parseReference_extend`: names and references.
3. `Expr.foretellsValues`, `Expr.parseAt_extend`: values.
-/

namespace ConfigBinding

/-! ## Runs and their extensions -/

/-- Nothing, or tokens of which the first is a name. -/
def OpensWithName (more : List Lexeme) : Prop := ∀ l ∈ more.head?, ∃ name, l.Names name

/-- The report is that of an unknown switch, and it points at the end of the input. -/
def SyntaxError.blamesEnd (error : SyntaxError) : Bool :=
  match error.cause with
  | .unknownSwitch _ => error.span.isEmpty
  | _ => false

/-- The report when the lexemes come behind what was read. A report that points at the end of the
input points at the first of them. -/
def SyntaxError.extend (more : List Lexeme) (error : SyntaxError) : SyntaxError :=
  if error.blamesEnd then
    match more.head? with
    | some l => { error with span := ⟨error.span.file, l.start, l.stop⟩ }
    | none => error
  else error

/-- The same place, with more lexemes behind the last one. The last lexeme then ends at `finish`. -/
def Cursor.extend (more : List Lexeme) (finish : Nat) (c : Cursor) : Cursor :=
  { c with finish := finish, rest := c.rest ++ more }

/-- What was read up to a place, with more lexemes behind the last one. -/
abbrev Cursor.extendPair {α : Type} (more : List Lexeme) (finish : Nat) : α × Cursor → α × Cursor :=
  Prod.map id (extend more finish)

section

variable {α β γ δ : Type} {more : List Lexeme} {move : α → β} {moveNext : γ → δ}

/-- What a run tells of the run with more lexemes behind.
* A success is one there as well, changed by `move`.
* A report is the one there as well, unless the input ended too early. -/
def Foretells (more : List Lexeme) (move : α → β) :
    Except SyntaxError α → Except SyntaxError β → Prop
  | .ok a, extended => extended = .ok (move a)
  | .error error, extended => error.kind = .unexpectedEnd ∨ extended = .error (error.extend more)

theorem Foretells.ok (a : α) : Foretells more move (.ok a) (.ok (move a)) := rfl

/-- A report that does not point at the end of the input stays as it is. -/
theorem Foretells.error {error : SyntaxError} (stays : error.blamesEnd = false) :
    Foretells more move (.error error) (.error error) := by
  have same : error.extend more = error :=
    if_neg (by rw [stays]; exact Bool.false_ne_true)
  exact .inr (congrArg Except.error same.symm)

theorem Foretells.ofEnd {error : SyntaxError} {extended : Except SyntaxError β}
    (ended : error.kind = .unexpectedEnd) : Foretells more move (.error error) extended :=
  .inl ended

theorem Foretells.bind {read : Except SyntaxError α} {extended : Except SyntaxError β}
    {next : α → Except SyntaxError γ} {nextExtended : β → Except SyntaxError δ}
    (first : Foretells more move read extended)
    (second : ∀ a, read = .ok a → Foretells more moveNext (next a) (nextExtended (move a))) :
    Foretells more moveNext (read >>= next) (extended >>= nextExtended) := by
  cases read with
  | ok a =>
    cases first
    exact second a rfl
  | error error =>
    cases first with
    | inl ended => exact .inl ended
    | inr same =>
      rw [same]
      exact .inr rfl

theorem Foretells.ite {p : Prop} [Decidable p] {yes no : Except SyntaxError α}
    {yesExtended noExtended : Except SyntaxError β}
    (ifYes : p → Foretells more move yes yesExtended)
    (ifNo : ¬ p → Foretells more move no noExtended) :
    Foretells more move (if p then yes else no) (if p then yesExtended else noExtended) := by
  split
  · exact ifYes ‹_›
  · exact ifNo ‹_›

end

namespace Cursor

variable {more : List Lexeme} {finish : Nat} {c : Cursor} {place : SyntaxError.Place}

/-! ## Cursors -/

@[simp] theorem rest_extend : (c.extend more finish).rest = c.rest ++ more := rfl

theorem Passes.length_eq {ls : List Lexeme} {later : Cursor} (passes : c.Passes ls later) :
    c.rest.length = ls.length + later.rest.length := by
  rw [passes.rest, List.length_append]

theorem rest_ne_nil_of_sees {m : Mark} (seen : c.sees m = true) : c.rest ≠ [] := by
  obtain ⟨l, passed, _⟩ := passes_of_sees seen
  rw [passed.rest]
  exact List.cons_ne_nil _ _

theorem length_advance_of_sees {m : Mark} (seen : c.sees m = true) :
    c.rest.length = c.advance.rest.length + 1 := by
  obtain ⟨l, passed, _⟩ := passes_of_sees seen
  rw [passed.length_eq, List.length_singleton, Nat.add_comm]

theorem peek?_extend (some : c.rest ≠ []) : (c.extend more finish).peek? = c.peek? := by
  obtain ⟨l, rest, next⟩ := List.exists_cons_of_ne_nil some
  rw [peek?, peek?, rest_extend, next]
  rfl

theorem sees_extend_of_some (some : c.rest ≠ []) (m : Mark) :
    (c.extend more finish).sees m = c.sees m := by
  rw [sees, peek?_extend some]
  rfl

theorem here_extend (some : c.rest ≠ []) : (c.extend more finish).here = c.here := by
  obtain ⟨file, _, reached, rest⟩ := c
  obtain ⟨l, rest, rfl⟩ := List.exists_cons_of_ne_nil some
  rfl

theorem offset_extend (some : c.rest ≠ []) : (c.extend more finish).offset = c.offset := by
  obtain ⟨file, _, reached, rest⟩ := c
  obtain ⟨l, rest, rfl⟩ := List.exists_cons_of_ne_nil some
  rfl

theorem before_extend (some : c.rest ≠ []) : (c.extend more finish).before = c.before := by
  rw [before, offset_extend some]
  rfl

theorem advance_extend (some : c.rest ≠ []) :
    (c.extend more finish).advance = c.advance.extend more finish := by
  obtain ⟨file, _, reached, rest⟩ := c
  obtain ⟨l, rest, rfl⟩ := List.exists_cons_of_ne_nil some
  rfl

theorem spanTo_extend (some : c.rest ≠ []) (later : Cursor) :
    (c.extend more finish).spanTo (later.extend more finish) = c.spanTo later := by
  simp only [spanTo, offset_extend some, rest_extend, List.length_append, Nat.add_lt_add_iff_right]
  rfl

theorem unexpected_extend (some : c.rest ≠ []) (place : SyntaxError.Place) :
    (c.extend more finish).unexpected place = c.unexpected place := by
  rw [unexpected, peek?_extend some, here_extend some]
  rfl

theorem peek?_of_nil (none : c.rest = []) : c.peek? = .none := by
  rw [peek?, none]
  rfl

/-- Where the input ends, a report on the next token says so. -/
theorem kind_unexpected_of_nil (none : c.rest = []) (place : SyntaxError.Place) :
    (c.unexpected place).kind = .unexpectedEnd := by
  rw [unexpected, peek?_of_nil none]
  rfl

/-- A report on the next token foretells itself. -/
theorem foretells_unexpected {α β : Type} {move : α → β} (place : SyntaxError.Place) :
    Foretells more move (.error (c.unexpected place))
      (.error ((c.extend more finish).unexpected place)) := by
  by_cases none : c.rest = []
  · exact .ofEnd (kind_unexpected_of_nil none place)
  · rw [unexpected_extend none]
    exact .error rfl

theorem expect_extend (m : Mark) :
    Foretells more (extend more finish) (c.expect m) ((c.extend more finish).expect m) := by
  by_cases none : c.rest = []
  · have ended : c.expect m = .error ⟨.expected m .none, c.here⟩ := by
      rw [expect, sees, peek?_of_nil none]
      rfl
    rw [ended]
    exact .ofEnd rfl
  · unfold expect
    rw [sees_extend_of_some none, peek?_extend none, here_extend none, advance_extend none]
    refine Foretells.ite (fun _ => ?_) fun _ => ?_
    · exact .ok c.advance
    · exact .error rfl

theorem expectName_of_nil (none : c.rest = []) :
    c.expectName place = .error (c.unexpected place) := by
  rw [expectName, peek?_of_nil none]
  rfl

theorem expectName_extend :
    Foretells more (extendPair more finish) (c.expectName place)
      ((c.extend more finish).expectName place) := by
  by_cases none : c.rest = []
  · rw [expectName_of_nil none]
    exact .ofEnd (kind_unexpected_of_nil none place)
  · unfold expectName
    rw [peek?_extend none, advance_extend none, unexpected_extend none]
    cases c.peek?.bind Token.name? with
    | none =>
      dsimp only
      exact .error rfl
    | some name => exact .ok (name, c.advance)

section

variable (opens : OpensWithName more)

include opens

/-- A mark that is no name is next in both runs or in none. -/
theorem sees_extend {m : Mark} (noName : m.isName = false) :
    (c.extend more finish).sees m = c.sees m := by
  by_cases none : c.rest = []
  · have unseen : ¬ c.sees m = true := by
      rw [sees, peek?_of_nil none]
      exact Bool.false_ne_true
    have apart : ∀ token ∈ (more.map Lexeme.token).head?, token ≠ .mark m := by
      cases more with
      | nil =>
        intro token member
        cases member
      | cons l others =>
        obtain ⟨name, named⟩ := opens l rfl
        exact apart_of_names named noName others
    rw [Bool.eq_false_iff.mpr unseen, Bool.eq_false_iff]
    refine not_sees_of_rest ?_ apart
    rw [rest_extend, none, List.nil_append]
  · exact sees_extend_of_some none m

theorem skip_extend {m : Mark} (noName : m.isName = false) :
    (c.extend more finish).skip m = (c.skip m).extend more finish := by
  unfold skip
  rw [sees_extend opens noName]
  split
  · exact advance_extend (rest_ne_nil_of_sees ‹_›)
  · rfl

/-! ## Names -/

omit opens in
theorem segments_of_not_sees (unseen : ¬ c.sees .dot = true) (fuel : Nat) :
    segments place fuel c = .ok ([], c) := by
  cases fuel with
  | zero => rfl
  | succ fuel =>
    unfold segments
    rw [if_neg unseen]

theorem segments_extend {fuel enough : Nat} (bound : c.rest.length ≤ fuel)
    (boundExtended : c.rest.length ≤ enough) :
    Foretells more (extendPair more finish) (segments place fuel c)
      (segments place enough (c.extend more finish)) := by
  induction fuel generalizing c enough with
  | zero =>
    have unseen : ¬ (c.extend more finish).sees .dot = true := by
      rw [sees_extend opens rfl, sees,
        peek?_of_nil (List.eq_nil_of_length_eq_zero (Nat.le_zero.mp bound))]
      exact Bool.false_ne_true
    rw [segments_of_not_sees unseen]
    rfl
  | succ fuel ih =>
    by_cases seen : c.sees .dot = true
    · have shorter := length_advance_of_sees seen
      cases enough with
      | zero => omega
      | succ enough =>
        unfold segments
        rw [sees_extend opens rfl, if_pos seen, if_pos seen,
          advance_extend (rest_ne_nil_of_sees seen)]
        refine expectName_extend.bind ?_
        rintro ⟨segment, after⟩ read
        obtain ⟨l, passed, _⟩ := passes_of_expectName read
        have size := passed.length_eq
        rw [List.length_singleton] at size
        exact (ih (by omega) (by omega)).bind fun _ _ => rfl
    · have unseen : ¬ (c.extend more finish).sees .dot = true := by
        rw [sees_extend opens rfl]
        exact seen
      rw [segments_of_not_sees seen, segments_of_not_sees unseen]
      rfl

theorem dotted_extend :
    Foretells more (extendPair more finish) (c.dotted place)
      ((c.extend more finish).dotted place) := by
  unfold dotted
  refine expectName_extend.bind ?_
  rintro ⟨first, after⟩ _
  refine (segments_extend opens (Nat.le_refl _) ?_).bind fun _ _ => rfl
  simp

omit opens in
theorem length_lt_of_dotted {name : DottedName} {after : Cursor}
    (read : c.dotted place = .ok (name, after)) : after.rest.length < c.rest.length := by
  obtain ⟨ls, passed, named⟩ := passes_of_dotted read
  obtain ⟨l, rest, _, rfl, _⟩ := named.exists_cons
  rw [passed.length_eq, List.length_cons]
  omega

omit opens in
theorem scopedRest_of_not_sees (blame : Cursor → Span) (unseen : ¬ c.sees .slash = true)
    (fuel : Nat) (scope : List String) (name : DottedName) :
    scopedRest place blame fuel scope name c = .ok ((scope, name), c) := by
  cases fuel with
  | zero => rfl
  | succ fuel =>
    unfold scopedRest
    rw [if_neg unseen]

theorem scopedRest_extend {blame : Cursor → Span}
    (blamed : ∀ c : Cursor, c.rest ≠ [] → blame (c.extend more finish) = blame c)
    {fuel enough : Nat} (bound : c.rest.length ≤ fuel) (boundExtended : c.rest.length ≤ enough)
    (scope : List String) (name : DottedName) :
    Foretells more (extendPair more finish) (scopedRest place blame fuel scope name c)
      (scopedRest place blame enough scope name (c.extend more finish)) := by
  induction fuel generalizing c enough scope name with
  | zero =>
    have unseen : ¬ (c.extend more finish).sees .slash = true := by
      rw [sees_extend opens rfl, sees,
        peek?_of_nil (List.eq_nil_of_length_eq_zero (Nat.le_zero.mp bound))]
      exact Bool.false_ne_true
    rw [scopedRest_of_not_sees blame unseen]
    rfl
  | succ fuel ih =>
    by_cases seen : c.sees .slash = true
    · have shorter := length_advance_of_sees seen
      cases enough with
      | zero => omega
      | succ enough =>
        unfold scopedRest
        rw [sees_extend opens rfl, if_pos seen, if_pos seen,
          advance_extend (rest_ne_nil_of_sees seen), blamed c (rest_ne_nil_of_sees seen)]
        refine .ite (fun _ => ?_) fun _ => .error rfl
        refine (dotted_extend opens).bind ?_
        rintro ⟨next, after⟩ read
        have consumed := length_lt_of_dotted read
        exact ih (by omega) (by omega) _ next
    · have unseen : ¬ (c.extend more finish).sees .slash = true := by
        rw [sees_extend opens rfl]
        exact seen
      rw [scopedRest_of_not_sees blame seen, scopedRest_of_not_sees blame unseen]
      rfl

theorem scopedName_extend {blame : Cursor → Span}
    (blamed : ∀ c : Cursor, c.rest ≠ [] → blame (c.extend more finish) = blame c)
    (outer : List String) :
    Foretells more (extendPair more finish) (c.scopedName place blame outer)
      ((c.extend more finish).scopedName place blame outer) := by
  unfold scopedName
  refine (dotted_extend opens).bind ?_
  rintro ⟨name, after⟩ _
  refine (scopedRest_extend opens blamed (Nat.le_refl _) ?_ outer name).bind fun _ _ => rfl
  simp

omit opens in
theorem strings_of_no_string (noString : ∀ text, c.peek? ≠ some (.str text)) (fuel : Nat) :
    strings fuel c = ("", c) := by
  cases fuel with
  | zero => rfl
  | succ fuel =>
    unfold strings
    split
    · exact absurd ‹_› (noString _)
    · rfl

theorem no_string_extend (noString : ∀ text, c.peek? ≠ some (.str text)) (text : String) :
    (c.extend more finish).peek? ≠ some (.str text) := by
  by_cases none : c.rest = []
  · intro next
    obtain ⟨l, first, isString⟩ := Option.map_eq_some_iff.mp next
    rw [rest_extend, none, List.nil_append] at first
    obtain ⟨name, named⟩ := opens l first
    rw [Lexeme.Names, isString] at named
    cases named
  · rw [peek?_extend none]
    exact noString text

theorem strings_extend {fuel enough : Nat} (bound : c.rest.length ≤ fuel)
    (boundExtended : c.rest.length ≤ enough) :
    strings enough (c.extend more finish) = extendPair more finish (strings fuel c) := by
  induction fuel generalizing c enough with
  | zero =>
    have noString (text : String) : c.peek? ≠ some (.str text) := by
      rw [peek?_of_nil (List.eq_nil_of_length_eq_zero (Nat.le_zero.mp bound))]
      exact nofun
    rw [strings_of_no_string (no_string_extend opens noString)]
    rfl
  | succ fuel ih =>
    by_cases isString : ∃ text, c.peek? = some (.str text)
    · obtain ⟨text, next⟩ := isString
      obtain ⟨l, passed, _⟩ := passes_of_peek? next
      have size := passed.length_eq
      rw [List.length_singleton] at size
      have some : c.rest ≠ [] := by
        rw [passed.rest]
        exact List.cons_ne_nil _ _
      cases enough with
      | zero => omega
      | succ enough =>
        unfold strings
        rw [peek?_extend some, next, advance_extend some]
        dsimp only
        rw [ih (by omega) (by omega)]
        rfl
    · have noString (text : String) : c.peek? ≠ some (.str text) := not_exists.mp isString text
      rw [strings_of_no_string noString,
        strings_of_no_string (no_string_extend opens noString)]
      rfl

omit opens in
theorem length_strings_le (fuel : Nat) : (strings fuel c).2.rest.length ≤ c.rest.length := by
  induction fuel generalizing c with
  | zero => exact Nat.le_refl _
  | succ fuel ih =>
    unfold strings
    split
    · refine Nat.le_trans ih ?_
      rw [rest_advance, List.length_tail]
      exact Nat.sub_le _ 1
    · exact Nat.le_refl _

end

end Cursor

/-! ## Values -/

namespace Expr

open Cursor (extendPair rest_ne_nil_of_sees length_advance_of_sees)

variable {more : List Lexeme} {finish : Nat} {c : Cursor}

/-- A value takes a token at least. -/
theorem length_lt_of_parseFuel {fuel : Nat} {e : Expr} {after : Cursor}
    (read : parseFuel fuel c = .ok (e, after)) : after.rest.length < c.rest.length := by
  obtain ⟨ls, passed, value⟩ := (sound fuel).value read
  have some := List.length_pos_iff.mpr value.ne_nil
  rw [passed.length_eq]
  omega

section

variable (opens : OpensWithName more)

include opens

theorem parseOuterScope_extend {fuel enough : Nat} (bound : c.rest.length ≤ fuel)
    (boundExtended : c.rest.length ≤ enough) :
    Foretells more (extendPair more finish) (parseOuterScope fuel c)
      (parseOuterScope enough (c.extend more finish)) := by
  induction fuel generalizing c enough with
  | zero =>
    have none := List.eq_nil_of_length_eq_zero (Nat.le_zero.mp bound)
    exact .ofEnd (Cursor.kind_unexpected_of_nil none .referenceScope)
  | succ fuel ih =>
    cases enough with
    | zero =>
      have none := List.eq_nil_of_length_eq_zero (Nat.le_zero.mp boundExtended)
      unfold parseOuterScope
      rw [Cursor.expectName_of_nil none]
      exact .ofEnd (Cursor.kind_unexpected_of_nil none .referenceScope)
    | succ enough =>
      unfold parseOuterScope
      refine Cursor.expectName_extend.bind ?_
      rintro ⟨segment, afterName⟩ readName
      refine (Cursor.expect_extend .slash).bind fun after readSlash => ?_
      obtain ⟨_, namePassed, _⟩ := Cursor.passes_of_expectName readName
      obtain ⟨_, slashPassed, _⟩ := Cursor.passes_of_expect readSlash
      have size := namePassed.length_eq
      have sizeAfter := slashPassed.length_eq
      rw [List.length_singleton] at size sizeAfter
      rw [Cursor.sees_extend opens rfl]
      refine Foretells.ite (fun _ => .ok _) fun _ => ?_
      exact (ih (by omega) (by omega)).bind fun _ _ => rfl

theorem parseReference_extend (outer : List String) :
    Foretells more (extendPair more finish) (parseReference outer c)
      (parseReference outer (c.extend more finish)) := by
  unfold parseReference
  refine (Cursor.scopedName_extend opens (fun _ => Cursor.before_extend) outer).bind ?_
  rintro ⟨⟨scope, symbol⟩, after⟩ _
  simp only [Prod.map, id, Cursor.sees_extend (m := .openParen) opens rfl]
  refine Foretells.ite (fun seen => ?_) fun _ => rfl
  rw [Cursor.advance_extend (rest_ne_nil_of_sees seen)]
  exact (Cursor.expect_extend .closeParen).bind fun _ _ => rfl

theorem parseScoped_extend (some : c.rest ≠ []) :
    Foretells more (extendPair more finish) (parseScoped c)
      (parseScoped (c.extend more finish)) := by
  unfold parseScoped
  refine (parseOuterScope_extend opens (Nat.le_refl _) ?_).bind ?_
  · simp
  rintro ⟨outer, after⟩ _
  refine (Cursor.expect_extend .atSign).bind fun after _ => ?_
  refine (parseReference_extend opens outer).bind ?_
  rintro ⟨target, after⟩ _
  dsimp only [Prod.map]
  rw [Cursor.spanTo_extend some]
  rfl

/-- What the readers of values foretell with the given fuel, if it suffices for what is left. In the
other run it has to suffice for the same tokens, not for those that are added. -/
structure ForetellsValues (more : List Lexeme) (finish fuel : Nat) : Prop where
  value (c : Cursor) (enough : Nat) : 2 * c.rest.length ≤ fuel → 2 * c.rest.length ≤ enough →
    Foretells more (extendPair more finish) (parseFuel fuel c)
      (parseFuel enough (c.extend more finish))
  items (close : Mark) (comma : Bool) (c : Cursor) (enough : Nat) : close.isName = false →
    2 * c.rest.length < fuel → 2 * c.rest.length < enough →
    Foretells more (extendPair more finish) (parseItems close fuel comma c)
      (parseItems close enough comma (c.extend more finish))
  entries (c : Cursor) (enough : Nat) : 2 * c.rest.length < fuel → 2 * c.rest.length < enough →
    Foretells more (extendPair more finish) (parseEntries fuel c)
      (parseEntries enough (c.extend more finish))

-- The cases are those of the token, as where the number of a source changes: a split of the
-- reader's own match would try every integer.
theorem ForetellsValues.value_succ {fuel : Nat} (inner : ForetellsValues more finish fuel)
    {enough : Nat} (bound : 2 * c.rest.length ≤ fuel + 1)
    (boundExtended : 2 * c.rest.length ≤ enough) :
    Foretells more (extendPair more finish) (parseFuel (fuel + 1) c)
      (parseFuel enough (c.extend more finish)) := by
  by_cases none : c.rest = []
  · have ended : parseFuel (fuel + 1) c = .error (c.unexpected .value) := by
      dsimp only [parseFuel]
      rw [Cursor.peek?_of_nil none]
    rw [ended]
    exact .ofEnd (Cursor.kind_unexpected_of_nil none .value)
  have size : c.rest.length = c.advance.rest.length + 1 := by
    have some := List.length_pos_iff.mpr none
    rw [Cursor.rest_advance, List.length_tail]
    omega
  cases enough with
  | zero => omega
  | succ enough =>
    dsimp only [parseFuel]
    rw [Cursor.peek?_extend none, Cursor.advance_extend none]
    have unexpected : Foretells more (extendPair more finish)
        (.error (c.unexpected .value) : Except SyntaxError (Expr × Cursor))
        (.error ((c.extend more finish).unexpected .value)) := Cursor.foretells_unexpected .value
    cases c.peek? with
    | none => exact unexpected
    | some token =>
      cases token with
      | str text =>
        rw [Cursor.strings_extend opens (Nat.le_refl _) (by simp)]
        dsimp only [extendPair, Prod.map]
        rw [Cursor.spanTo_extend none]
        exact .ok _
      | int | float =>
        dsimp only
        rw [Cursor.spanTo_extend none]
        exact .ok _
      | ident name =>
        exact .ite (fun _ => parseScoped_extend opens none) fun _ => unexpected
      | mark m =>
        cases m with
        | constTrue | constFalse | constNone =>
          dsimp only
          rw [Cursor.spanTo_extend none]
          exact .ok _
        | openBracket =>
          dsimp only
          refine (inner.items .closeBracket false c.advance enough rfl
            (by omega) (by omega)).bind ?_
          rintro ⟨⟨items, comma⟩, after⟩ _
          refine (Cursor.expect_extend .closeBracket).bind fun after _ => ?_
          rw [Cursor.spanTo_extend none]
          rfl
        | openParen =>
          dsimp only
          refine (inner.items .closeParen false c.advance enough rfl (by omega) (by omega)).bind ?_
          rintro ⟨⟨items, comma⟩, after⟩ _
          refine (Cursor.expect_extend .closeParen).bind fun after _ => ?_
          rw [Cursor.spanTo_extend none]
          rfl
        | openBrace =>
          dsimp only
          refine (inner.entries c.advance enough (by omega) (by omega)).bind ?_
          rintro ⟨entries, after⟩ _
          refine (Cursor.expect_extend .closeBrace).bind fun after _ => ?_
          rw [Cursor.spanTo_extend none]
          rfl
        | percent =>
          dsimp only
          refine (Cursor.dotted_extend opens).bind ?_
          rintro ⟨name, after⟩ _
          dsimp only [extendPair, Prod.map]
          rw [Cursor.spanTo_extend none]
          rfl
        | atSign =>
          dsimp only
          refine (parseReference_extend opens []).bind ?_
          rintro ⟨target, after⟩ _
          dsimp only [extendPair, Prod.map]
          rw [Cursor.spanTo_extend none]
          rfl
        | _ => exact .ite (fun _ => parseScoped_extend opens none) fun _ => unexpected

theorem ForetellsValues.items_succ {fuel : Nat} (inner : ForetellsValues more finish fuel)
    {close : Mark} (noName : close.isName = false) (comma : Bool) {enough : Nat}
    (bound : 2 * c.rest.length < fuel + 1) (boundExtended : 2 * c.rest.length < enough) :
    Foretells more (extendPair more finish) (parseItems close (fuel + 1) comma c)
      (parseItems close enough comma (c.extend more finish)) := by
  cases enough with
  | zero => omega
  | succ enough =>
    unfold parseItems
    rw [Cursor.sees_extend opens noName]
    refine Foretells.ite (fun _ => .ok _) fun _ => ?_
    refine (inner.value c enough (by omega) (by omega)).bind ?_
    rintro ⟨item, after⟩ read
    have consumed := length_lt_of_parseFuel read
    simp only [Prod.map, id, Cursor.sees_extend (m := .comma) opens rfl]
    refine Foretells.ite (fun seen => ?_) fun _ => rfl
    have shorter := length_advance_of_sees seen
    rw [Cursor.advance_extend (rest_ne_nil_of_sees seen)]
    exact (inner.items close true after.advance enough noName (by omega) (by omega)).bind
      fun _ _ => rfl

theorem ForetellsValues.entries_succ {fuel : Nat} (inner : ForetellsValues more finish fuel)
    {enough : Nat} (bound : 2 * c.rest.length < fuel + 1)
    (boundExtended : 2 * c.rest.length < enough) :
    Foretells more (extendPair more finish) (parseEntries (fuel + 1) c)
      (parseEntries enough (c.extend more finish)) := by
  cases enough with
  | zero => omega
  | succ enough =>
    unfold parseEntries
    rw [Cursor.sees_extend opens rfl]
    refine Foretells.ite (fun _ => .ok _) fun _ => ?_
    by_cases none : c.rest = []
    · rw [Cursor.peek?_of_nil none]
      exact .ofEnd (Cursor.kind_unexpected_of_nil none .mapKey)
    rw [Cursor.peek?_extend none]
    split
    · rw [Cursor.strings_extend opens (Nat.le_refl _) (by simp)]
      have consumed := Cursor.length_strings_le (c := c) c.rest.length
      dsimp only [Prod.map]
      refine (Cursor.expect_extend .colon).bind fun after readColon => ?_
      obtain ⟨_, colonPassed, _⟩ := Cursor.passes_of_expect readColon
      have size := colonPassed.length_eq
      rw [List.length_singleton] at size
      refine (inner.value after enough (by omega) (by omega)).bind ?_
      rintro ⟨value, last⟩ read
      have consumedByValue := length_lt_of_parseFuel read
      simp only [Prod.map, id, Cursor.sees_extend (m := .comma) opens rfl]
      refine Foretells.ite (fun seen => ?_) fun _ => rfl
      have shorter := length_advance_of_sees seen
      rw [Cursor.advance_extend (rest_ne_nil_of_sees seen)]
      exact (inner.entries last.advance enough (by omega) (by omega)).bind fun _ _ => rfl
    · exact Cursor.foretells_unexpected .mapKey

theorem foretellsValues (finish fuel : Nat) : ForetellsValues more finish fuel := by
  induction fuel with
  | zero =>
    refine ⟨fun c enough bound _ => ?_, fun _ _ _ _ _ bound => ?_, fun _ _ bound => ?_⟩
    · have none : c.rest = [] := List.eq_nil_of_length_eq_zero (by omega)
      dsimp only [parseFuel]
      exact .ofEnd (Cursor.kind_unexpected_of_nil none .value)
    · omega
    · omega
  | succ fuel ih =>
    exact ⟨fun _ _ => ih.value_succ opens,
      fun _ comma _ _ noName => ih.items_succ opens noName comma,
      fun _ _ => ih.entries_succ opens⟩

theorem parseAt_extend :
    Foretells more (extendPair more finish) (parseAt c) (parseAt (c.extend more finish)) := by
  refine (foretellsValues opens finish _).value c _ ?_ ?_
  · exact Nat.le_add_right _ 2
  · rw [depthAt, Cursor.rest_extend, List.length_append]
    omega

end

end Expr

end ConfigBinding
