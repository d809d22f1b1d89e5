import ConfigBinding.Expr.Parser
import ConfigBinding.Proofs.Reading.Expressions

/-!
# Reading tokens back

The readers of names and expressions on the tokens of what they read. A reader stops before the
tokens that follow, if none of them goes on with what was read: a string goes on with a string, a
name with a dot, a scope with a slash, and a reference with brackets.

Results:
1. `Cursor.parses_scopedName`: names with a scope are read back.
2. `Expr.Writable.parses`: expressions are read back, up to spans.
-/

namespace ConfigBinding

open Lexer

/-! ## Tokens behind a cursor -/

namespace Cursor

/-- The tokens that follow. -/
def tokens (c : Cursor) : List Token := c.rest.map Lexeme.token

theorem peek?_eq (c : Cursor) : c.peek? = c.tokens.head? := by
  rw [peek?, tokens, List.head?_map]

theorem tokens_advance (c : Cursor) : c.advance.tokens = c.tokens.tail := by
  rw [tokens, tokens, rest_advance, List.map_tail]

theorem length_rest (c : Cursor) : c.rest.length = c.tokens.length :=
  (List.length_map Lexeme.token).symm

theorem atEnd_eq (c : Cursor) : c.atEnd = c.tokens.isEmpty := List.isEmpty_map.symm

section

variable {c : Cursor} {token : Token} {more : List Token}

theorem peek?_of_tokens (tokens : c.tokens = token :: more) : c.peek? = some token := by
  rw [peek?_eq, tokens, List.head?_cons]

theorem advance_of_tokens (tokens : c.tokens = token :: more) : c.advance.tokens = more := by
  rw [tokens_advance, tokens, List.tail_cons]

theorem sees_eq (c : Cursor) (m : Mark) : c.sees m = (c.tokens.head? == some (.mark m)) := by
  rw [sees, peek?_eq]

theorem sees_of_tokens {m : Mark} (tokens : c.tokens = .mark m :: more) : c.sees m = true := by
  rw [sees, peek?_of_tokens tokens, beq_self_eq_true]

theorem not_sees_of_tokens {m : Mark} (tokens : c.tokens = more)
    (apart : ∀ token ∈ more.head?, token ≠ .mark m) : ¬ c.sees m = true := by
  rw [sees_eq, tokens, beq_iff_eq]
  exact fun same => apart _ same rfl

theorem not_sees_of_cons {m : Mark} (tokens : c.tokens = token :: more)
    (apart : token ≠ .mark m) : ¬ c.sees m = true := by
  refine not_sees_of_tokens tokens fun other member => ?_
  cases member
  exact apart

theorem expect_of_tokens {m : Mark} (tokens : c.tokens = .mark m :: more) :
    c.expect m = .ok c.advance := by
  rw [expect, if_pos (sees_of_tokens tokens)]

end

end Cursor

/-- The reader gives something with the property and stops before the tokens. -/
def Parses {α : Type} (read : Except SyntaxError (α × Cursor)) (P : α → Prop)
    (more : List Token) : Prop :=
  ∃ a c, read = .ok (a, c) ∧ P a ∧ c.tokens = more

section

variable {α β : Type} {P : α → Prop} {Q : β → Prop} {more rest : List Token}

theorem Parses.ok {a : α} {c : Cursor} (holds : P a) (tokens : c.tokens = more) :
    Parses (.ok (a, c)) P more :=
  ⟨a, c, rfl, holds, tokens⟩

theorem Parses.mono {R : α → Prop} {read : Except SyntaxError (α × Cursor)}
    (parses : Parses read P more) (weaker : ∀ a, P a → R a) : Parses read R more := by
  obtain ⟨a, c, same, holds, tokens⟩ := parses
  exact ⟨a, c, same, weaker a holds, tokens⟩

theorem Parses.bind {read : Except SyntaxError (α × Cursor)}
    {next : α × Cursor → Except SyntaxError (β × Cursor)} (parses : Parses read P more)
    (goesOn : ∀ a c, P a → c.tokens = more → Parses (next (a, c)) Q rest) :
    Parses (read >>= next) Q rest := by
  obtain ⟨a, c, rfl, holds, tokens⟩ := parses
  exact goesOn a c holds tokens

theorem Parses.expect {c : Cursor} {m : Mark}
    {next : Cursor → Except SyntaxError (β × Cursor)} (tokens : c.tokens = .mark m :: more)
    (goesOn : ∀ c : Cursor, c.tokens = more → Parses (next c) Q rest) :
    Parses (c.expect m >>= next) Q rest := by
  rw [Cursor.expect_of_tokens tokens]
  exact goesOn _ (Cursor.advance_of_tokens tokens)

end

/-! ## Names -/

/-- What a name with a scope cannot go on with. -/
def Token.endsName : Token → Bool
  | .mark .dot | .mark .slash => false
  | _ => true

/-- What an expression cannot go on with. -/
def Token.endsValue : Token → Bool
  | .str _ | .mark .dot | .mark .slash | .mark .openParen => false
  | _ => true

theorem Token.endsValue_of_name? {token : Token} {name : String}
    (named : token.name? = some name) : token.endsValue = true := by
  cases token with
  | mark m => cases m <;> first | rfl | cases named
  | str text => cases named
  | _ => rfl

/-- The first of the tokens, if there is one, is of the class. -/
def Begins (p : Token → Bool) (tokens : List Token) : Prop := ∀ token ∈ tokens.head?, p token = true

theorem begins_nil (p : Token → Bool) : Begins p [] := fun _ member => nomatch member

theorem begins_cons {p : Token → Bool} {token : Token} (inside : p token = true)
    (tokens : List Token) : Begins p (token :: tokens) := by
  intro other member
  cases member
  exact inside

theorem Begins.ne {p : Token → Bool} {tokens : List Token} (begins : Begins p tokens)
    {m : Mark} (apart : p (.mark m) = false) : ∀ token ∈ tokens.head?, token ≠ .mark m := by
  rintro token member rfl
  exact absurd (begins _ member) (by rw [apart]; exact Bool.false_ne_true)

theorem Begins.endsName {tokens : List Token} (begins : Begins Token.endsValue tokens) :
    Begins Token.endsName tokens := by
  intro token member
  cases ended : token.endsName with
  | true => rfl
  | false =>
    unfold Token.endsName at ended
    split at ended
    · cases begins _ member
    · cases begins _ member
    · cases ended

namespace Cursor

variable {place : SyntaxError.Place} {more : List Token}

theorem parses_expectName {name : String} (named : isName name = true) {c : Cursor}
    (tokens : c.tokens = nameToken name :: more) :
    Parses (c.expectName place) (· = name) more := by
  unfold expectName
  rw [peek?_of_tokens tokens, Option.bind_some, name?_nameToken named]
  exact .ok rfl (advance_of_tokens tokens)

theorem parses_segments {names : List String} (named : ∀ name ∈ names, isName name = true)
    (ends : ∀ token ∈ more.head?, token ≠ .mark .dot) {fuel : Nat} (enough : names.length ≤ fuel)
    {c : Cursor}
    (tokens : c.tokens = behind [.mark .dot] (names.map fun name => [nameToken name]) ++ more) :
    Parses (segments place fuel c) (· = names) more := by
  induction names generalizing fuel c with
  | nil =>
    cases fuel with
    | zero => exact .ok rfl tokens
    | succ fuel =>
      unfold segments
      rw [if_neg (not_sees_of_tokens tokens ends)]
      exact .ok rfl tokens
  | cons name names ih =>
    obtain ⟨first, others⟩ := List.forall_mem_cons.mp named
    cases fuel with
    | zero => cases enough
    | succ fuel =>
      have split : c.tokens = .mark .dot :: nameToken name ::
          (behind [.mark .dot] (names.map fun name => [nameToken name]) ++ more) := tokens
      unfold segments
      rw [if_pos (sees_of_tokens split)]
      refine (parses_expectName first (advance_of_tokens split)).bind fun _ c same tokens => ?_
      refine (ih others (Nat.le_of_succ_le_succ enough) tokens).bind fun _ c others tokens => ?_
      rw [same, others]
      exact .ok rfl tokens

theorem parses_dotted {name : DottedName} (named : name.OfNames)
    (ends : ∀ token ∈ more.head?, token ≠ .mark .dot) {c : Cursor}
    (tokens : c.tokens = name.tokens ++ more) :
    Parses (c.dotted place) (· = name) more := by
  obtain ⟨names⟩ := name
  cases names with
  | nil => exact absurd rfl named.nonempty
  | cons first others =>
    obtain ⟨firstNamed, othersNamed⟩ := List.forall_mem_cons.mp named.segments
    have split : c.tokens = nameToken first ::
        (behind [.mark .dot] (others.map fun name => [nameToken name]) ++ more) := tokens
    unfold dotted
    refine (parses_expectName firstNamed split).bind fun _ c same tokens => ?_
    have enough : others.length ≤ c.rest.length := by
      rw [length_rest, tokens, List.length_append, behind, List.length_flatMap]
      simp [Function.comp_def]
      omega
    refine (parses_segments othersNamed ends enough tokens).bind fun _ c others tokens => ?_
    rw [same, others]
    exact .ok rfl tokens

theorem scopedRest_end {blame : Cursor → Span} {outer : List String} {name : DottedName}
    (ends : ∀ token ∈ more.head?, token ≠ .mark .slash) {c : Cursor} (tokens : c.tokens = more)
    (fuel : Nat) : scopedRest place blame fuel outer name c = .ok ((outer, name), c) := by
  cases fuel with
  | zero => rfl
  | succ fuel =>
    unfold scopedRest
    rw [if_neg (not_sees_of_tokens tokens ends)]

theorem parses_scopedRest {blame : Cursor → Span} {scope : List String}
    (inner : ∀ segment ∈ scope, isName segment = true) {symbol : DottedName}
    (named : symbol.OfNames) (ends : Begins Token.endsName more) (outer : List String)
    (first : String) {fuel : Nat} (enough : scope.length < fuel) {c : Cursor}
    (tokens : c.tokens = .mark .slash :: (Scope.tokens ⟨scope⟩ ++ (symbol.tokens ++ more))) :
    Parses (scopedRest place blame fuel outer ⟨[first]⟩ c)
      (· = (outer ++ first :: scope, symbol)) more := by
  -- What was read last turns out to be a segment of the scope when a slash follows.
  induction scope generalizing first outer fuel c with
  | nil =>
    cases fuel with
    | zero => cases enough
    | succ fuel =>
      unfold scopedRest
      rw [if_pos (sees_of_tokens tokens), if_pos (show (DottedName.mk [first]).size = 1 from rfl)]
      refine (parses_dotted named (ends.ne rfl) (advance_of_tokens tokens)).bind
        fun _ c same tokens => ?_
      dsimp only
      rw [scopedRest_end (ends.ne rfl) tokens, same]
      exact .ok rfl tokens
  | cons segment scope ih =>
    obtain ⟨segmentNamed, innerRest⟩ := List.forall_mem_cons.mp inner
    cases fuel with
    | zero => cases enough
    | succ fuel =>
      have one : (DottedName.mk [segment]).OfNames :=
        ⟨List.cons_ne_nil _ _, List.forall_mem_singleton.mpr segmentNamed⟩
      have split : c.advance.tokens = (DottedName.mk [segment]).tokens ++ (.mark .slash ::
          (Scope.tokens ⟨scope⟩ ++ (symbol.tokens ++ more))) := advance_of_tokens tokens
      unfold scopedRest
      rw [if_pos (sees_of_tokens tokens), if_pos (show (DottedName.mk [first]).size = 1 from rfl)]
      refine (parses_dotted one ?_ split).bind fun _ c same tokens => ?_
      · exact (begins_cons (p := fun token => decide (token ≠ .mark .dot)) rfl _).ne rfl
      · have rest := ih innerRest (outer ++ [first]) segment
          (Nat.lt_of_succ_lt_succ enough) tokens
        rw [List.append_assoc, List.singleton_append] at rest
        rw [same]
        exact rest

/-- A name in a scope is read back. -/
theorem parses_scopedName {blame : Cursor → Span} {scope : Scope} (inner : scope.OfNames)
    {symbol : DottedName} (named : symbol.OfNames) (ends : Begins Token.endsName more) {c : Cursor}
    (tokens : c.tokens = scope.tokens ++ (symbol.tokens ++ more)) :
    Parses (c.scopedName place blame []) (· = (scope, symbol)) more := by
  obtain ⟨segments⟩ := scope
  unfold scopedName
  cases segments with
  | nil =>
    refine (parses_dotted named (ends.ne rfl) tokens).bind fun _ c same tokens => ?_
    dsimp only
    rw [scopedRest_end (ends.ne rfl) tokens, same]
    exact .ok rfl tokens
  | cons segment segments =>
    obtain ⟨segmentNamed, innerRest⟩ := List.forall_mem_cons.mp inner
    have one : (DottedName.mk [segment]).OfNames :=
      ⟨List.cons_ne_nil _ _, List.forall_mem_singleton.mpr segmentNamed⟩
    have split : c.tokens = (DottedName.mk [segment]).tokens ++ (.mark .slash ::
        (Scope.tokens ⟨segments⟩ ++ (symbol.tokens ++ more))) := tokens
    refine (parses_dotted one ?_ split).bind fun _ c same tokens => ?_
    · exact (begins_cons (p := fun token => decide (token ≠ .mark .dot)) rfl _).ne rfl
    · have enough : segments.length < c.rest.length := by
        rw [length_rest, tokens, List.length_cons, List.length_append, Scope.tokens,
          List.length_flatMap]
        simp
        omega
      dsimp only
      rw [same]
      refine (parses_scopedRest innerRest named ends [] segment enough tokens).bind
        fun _ c same tokens => ?_
      rw [same]
      exact .ok rfl tokens

/-- A string is read as it is if no string follows. -/
theorem strings_of_tokens {text : String} (ends : Begins Token.endsValue more) {c : Cursor}
    (tokens : c.tokens = .str text :: more) :
    c.strings c.rest.length = (text, c.advance) := by
  -- No string follows, so however far the reader looks it adds nothing.
  have alone : ∀ fuel, strings fuel c.advance = ("", c.advance) := by
    intro fuel
    cases fuel with
    | zero => rfl
    | succ fuel =>
      unfold strings
      rw [peek?_eq, advance_of_tokens tokens]
      split
      · rename_i next
        cases ends _ next
      · rfl
  rw [length_rest, tokens, List.length_cons, strings, peek?_of_tokens tokens]
  simp only [alone, String.append_empty]

end Cursor

/-! ## Expressions -/

namespace Expr

variable {more : List Token}

theorem parses_parseReference {target : Reference} (inner : target.scope.OfNames)
    (named : target.symbol.OfNames) (ends : Begins Token.endsValue more) {c : Cursor}
    (tokens : .mark .atSign :: c.tokens = target.tokens ++ more) :
    Parses (parseReference [] c) (· = target) more := by
  obtain ⟨scope, symbol, call⟩ := target
  unfold parseReference
  cases call with
  | false =>
    have split : c.tokens = scope.tokens ++ (symbol.tokens ++ more) := by
      simpa [Reference.tokens] using tokens
    refine (Cursor.parses_scopedName inner named ends.endsName split).bind fun _ c same tokens => ?_
    dsimp only
    rw [if_neg (Cursor.not_sees_of_tokens tokens (ends.ne rfl)), same]
    exact .ok rfl tokens
  | true =>
    have split : c.tokens = scope.tokens ++ (symbol.tokens ++
        (.mark .openParen :: .mark .closeParen :: more)) := by
      simpa [Reference.tokens] using tokens
    refine (Cursor.parses_scopedName inner named (begins_cons rfl _) split).bind
      fun _ c same tokens => ?_
    dsimp only
    rw [if_pos (Cursor.sees_of_tokens tokens), same]
    exact .expect (Cursor.advance_of_tokens tokens) fun _ tokens => .ok rfl tokens

/-- Whether the mark ends a container. -/
def closes : Token → Bool
  | .mark .closeBracket | .mark .closeParen | .mark .closeBrace => true
  | _ => false

theorem exists_tokens_eq (e : Expr) : ∃ token more, e.tokens = token :: more ∧
    closes token = false := by
  cases e with
  | literal value span =>
    cases value with
    | bool value => cases value <;> exact ⟨_, _, rfl, rfl⟩
    | _ => exact ⟨_, _, rfl, rfl⟩
  | _ => exact ⟨_, _, rfl, rfl⟩

theorem length_tokens_pos (e : Expr) : 0 < e.tokens.length := by
  obtain ⟨_, _, same, _⟩ := e.exists_tokens_eq
  rw [same]
  exact Nat.succ_pos _

/-- The expression is read back with the fuel that its tokens need. -/
def ReadBack (e : Expr) : Prop :=
  ∀ (fuel : Nat) (c : Cursor) (more : List Token), 2 * e.tokens.length ≤ fuel →
    c.tokens = e.tokens ++ more → Begins Token.endsValue more →
    Parses (parseFuel fuel c) (fun read => read.withoutSpans = e.withoutSpans) more

theorem begins_behind {rest : List Token} (begins : Begins Token.endsValue rest)
    (pieces : List (List Token)) :
    Begins Token.endsValue (behind [.mark .comma] pieces ++ rest) := by
  cases pieces with
  | nil => exact begins
  | cons piece pieces => exact begins_cons rfl _

theorem begins_ending {close : Mark} (closing : closes (.mark close) = true) (comma : Bool)
    (more : List Token) : Begins Token.endsValue (ending close comma ++ more) := by
  cases comma with
  | true => exact begins_cons rfl _
  | false => exact begins_cons (by cases close <;> first | rfl | cases closing) _

/-! ### Items -/

/-- The items are read up to spans, with the word on whether a comma stands behind the last. -/
def ItemsRead (items : List Expr) (comma : Bool) (read : List Expr × Bool) : Prop :=
  read.1.map withoutSpans = items.map withoutSpans ∧ read.2 = comma

section

variable {close : Mark} {fuel : Nat} {comma last : Bool} {c : Cursor} {item : Expr}
  {items : List Expr} {rest : List Token}

theorem parses_noItem (closed : c.tokens = .mark close :: more) :
    Parses (parseItems close (fuel + 1) comma c) (ItemsRead [] comma) (.mark close :: more) := by
  unfold parseItems
  rw [if_pos (Cursor.sees_of_tokens closed)]
  exact .ok ⟨rfl, rfl⟩ closed

/-- An item without a comma behind it is the last. -/
theorem parses_lastItem (opened : ¬ c.sees close = true) (apart : Token.mark close ≠ .mark .comma)
    (first : Parses (parseFuel fuel c) (fun read => read.withoutSpans = item.withoutSpans)
      (.mark close :: more)) :
    Parses (parseItems close (fuel + 1) comma c) (ItemsRead [item] false)
      (.mark close :: more) := by
  unfold parseItems
  rw [if_neg opened]
  refine first.bind fun read c same closed => ?_
  dsimp only
  rw [if_neg (Cursor.not_sees_of_cons closed apart)]
  exact .ok ⟨by rw [List.map_singleton, List.map_singleton, same], rfl⟩ closed

/-- A comma leads on to the items behind it, if there are any. -/
theorem parses_item (opened : ¬ c.sees close = true)
    (first : Parses (parseFuel fuel c) (fun read => read.withoutSpans = item.withoutSpans)
      (.mark .comma :: rest))
    (others : ∀ c : Cursor, c.tokens = rest →
      Parses (parseItems close fuel true c) (ItemsRead items last) more) :
    Parses (parseItems close (fuel + 1) comma c) (ItemsRead (item :: items) last) more := by
  unfold parseItems
  rw [if_neg opened]
  refine first.bind fun read c same tokens => ?_
  dsimp only
  rw [if_pos (Cursor.sees_of_tokens tokens)]
  refine (others _ (Cursor.advance_of_tokens tokens)).bind fun readItems c sameItems tokens => ?_
  exact .ok ⟨by rw [List.map_cons, List.map_cons, same, sameItems.1], sameItems.2⟩ tokens

theorem not_sees_close (closing : closes (.mark close) = true)
    (tokens : c.tokens = item.tokens ++ rest) : ¬ c.sees close = true := by
  obtain ⟨token, others, start, opens⟩ := item.exists_tokens_eq
  rw [start] at tokens
  refine Cursor.not_sees_of_cons tokens fun same => ?_
  rw [same, closing] at opens
  cases opens

/-- Items are read back, with or without a comma behind the last one. The induction is on the items;
a comma behind the last leads on to none. -/
theorem parses_parseItems (closing : closes (.mark close) = true)
    (back : ∀ item ∈ items, item.ReadBack)
    (enough : 2 * (joined [.mark .comma] (tokensOfItems items)).length + 1 ≤ fuel)
    (nonempty : last = true → items ≠ [])
    (tokens : c.tokens =
      joined [.mark .comma] (tokensOfItems items) ++ (ending close last ++ more)) :
    Parses (parseItems close fuel comma c) (ItemsRead items (if items = [] then comma else last))
      (.mark close :: more) := by
  induction items generalizing fuel comma c with
  | nil =>
    cases fuel with
    | zero => cases enough
    | succ fuel =>
      have last_eq : last = false := Bool.eq_false_iff.mpr fun same => nonempty same rfl
      rw [last_eq] at tokens
      exact parses_noItem tokens
  | cons item items ih =>
    obtain ⟨first, others⟩ := List.forall_mem_cons.mp back
    cases fuel with
    | zero => cases enough
    | succ fuel =>
      have sizes : 2 * (item.tokens.length
          + (behind [.mark .comma] (tokensOfItems items)).length) ≤ fuel := by
        rw [tokensOfItems, joined, List.length_append] at enough
        omega
      have split : c.tokens = item.tokens ++
          (behind [.mark .comma] (tokensOfItems items) ++ (ending close last ++ more)) := by
        rw [tokens, tokensOfItems, joined, List.append_assoc]
      have opened := not_sees_close closing split
      have read := first fuel c _ (by omega) split
        (begins_behind (begins_ending closing last more) _)
      have pos := item.length_tokens_pos
      rw [if_neg (List.cons_ne_nil _ _)]
      -- A comma that another item follows separates; one behind the last item is that of `ending`.
      cases items with
      | cons next items =>
        rw [tokensOfItems, behind_cons, List.append_assoc] at read
        rw [tokensOfItems, behind_cons, List.length_append, List.length_singleton] at sizes
        refine parses_item opened read fun c tokens => ?_
        have shorter : 2 * (joined [.mark .comma] (tokensOfItems (next :: items))).length + 1 ≤
            fuel := by
          rw [tokensOfItems]
          omega
        have rest : Parses (parseItems close fuel true c) _ _ :=
          ih others shorter (fun _ => List.cons_ne_nil _ _) tokens
        rw [if_neg (List.cons_ne_nil _ _)] at rest
        exact rest
      | nil =>
        cases last with
        | false => exact parses_lastItem opened (by rintro ⟨⟩; cases closing) read
        | true =>
          obtain ⟨smaller, rfl⟩ := Nat.exists_eq_succ_of_ne_zero (n := fuel) (by omega)
          exact parses_item opened read fun c tokens => parses_noItem tokens

end

/-! ### Entries -/

/-- The entries are read up to spans. -/
def EntriesRead (entries read : List (String × Expr)) : Prop :=
  read.map (Prod.map id withoutSpans) = entries.map (Prod.map id withoutSpans)

theorem parses_parseEntries {entries : List (String × Expr)}
    (back : ∀ entry ∈ entries, entry.2.ReadBack) {fuel : Nat}
    (enough : 2 * (joined [.mark .comma] (tokensOfEntries entries)).length + 1 ≤ fuel) {c : Cursor}
    (tokens : c.tokens =
      joined [.mark .comma] (tokensOfEntries entries) ++ .mark .closeBrace :: more) :
    Parses (parseEntries fuel c) (EntriesRead entries) (.mark .closeBrace :: more) := by
  induction entries generalizing fuel c with
  | nil =>
    cases fuel with
    | zero => cases enough
    | succ fuel =>
      have closed : c.tokens = .mark .closeBrace :: more := tokens
      unfold parseEntries
      rw [if_pos (Cursor.sees_of_tokens closed)]
      exact .ok rfl closed
  | cons entry entries ih =>
    obtain ⟨first, others⟩ := List.forall_mem_cons.mp back
    cases fuel with
    | zero => cases enough
    | succ fuel =>
      have sizes : 2 * (entry.2.tokens.length + 2
          + (behind [.mark .comma] (tokensOfEntries entries)).length) ≤ fuel := by
        rw [tokensOfEntries, joined, List.length_append, entryTokens, List.length_cons,
          List.length_cons] at enough
        omega
      have split : c.tokens = .str entry.1 :: .mark .colon :: (entry.2.tokens ++
          (behind [.mark .comma] (tokensOfEntries entries) ++ .mark .closeBrace :: more)) := by
        rw [tokens, tokensOfEntries, joined, List.append_assoc]
        rfl
      unfold parseEntries
      rw [if_neg (Cursor.not_sees_of_cons split Token.noConfusion), Cursor.peek?_of_tokens split]
      dsimp only
      rw [Cursor.strings_of_tokens (begins_cons rfl _) split]
      refine .expect (Cursor.advance_of_tokens split) fun c tokens => ?_
      refine (first fuel c _ (by omega) tokens (begins_behind (begins_cons rfl _) _)).bind
        fun read c same tokens => ?_
      dsimp only
      cases entries with
      | cons next entries =>
        rw [tokensOfEntries, behind_cons, List.append_assoc] at tokens
        rw [tokensOfEntries, behind_cons, List.length_append, List.length_singleton] at sizes
        have shorter : 2 * (joined [.mark .comma] (tokensOfEntries (next :: entries))).length + 1 ≤
            fuel := by
          rw [tokensOfEntries]
          omega
        rw [if_pos (Cursor.sees_of_tokens tokens)]
        refine (ih others shorter (Cursor.advance_of_tokens tokens)).bind
          fun readEntries c sameEntries tokens => .ok ?_ tokens
        rw [EntriesRead, List.map_cons, List.map_cons, sameEntries, Prod.map, Prod.map, same]
      | nil =>
        have closed : c.tokens = .mark .closeBrace :: more := tokens
        rw [if_neg (Cursor.not_sees_of_cons (m := .comma) closed (by decide))]
        refine .ok ?_ closed
        rw [EntriesRead, List.map_singleton, List.map_singleton, Prod.map, Prod.map, same]

/-! ### Containers -/

theorem parses_enclosed {opening closing : Mark} (closes : closes (.mark closing) = true)
    {items : List Expr} (back : ∀ item ∈ items, item.ReadBack) {onlyNeedsComma : Bool} {fuel : Nat}
    (enough : 2 * (enclosed opening closing onlyNeedsComma (tokensOfItems items)).length
      ≤ fuel + 1) {c : Cursor}
    (tokens : c.tokens = enclosed opening closing onlyNeedsComma (tokensOfItems items) ++ more) :
    c.tokens = .mark opening :: c.advance.tokens ∧
      Parses (parseItems closing fuel false c.advance)
        (ItemsRead items (onlyNeedsComma && items.length == 1)) (.mark closing :: more) := by
  have opened : c.tokens = .mark opening :: (joined [.mark .comma] (tokensOfItems items)
      ++ (ending closing (onlyNeedsComma && items.length == 1) ++ more)) := by
    rw [tokens, enclosed, List.cons_append, List.append_assoc, tokensOfItems_eq, List.length_map]
  have shorter : 2 * (joined [.mark .comma] (tokensOfItems items)).length + 1 ≤ fuel := by
    rw [enclosed, List.length_cons, List.length_append] at enough
    omega
  refine ⟨by rw [Cursor.advance_of_tokens opened, opened], ?_⟩
  refine (parses_parseItems closes back shorter ?_ (Cursor.advance_of_tokens opened)).mono
    fun read same => ⟨same.1, same.2.trans ?_⟩
  · rintro one rfl
    simp at one
  · cases items <;> simp

theorem ofParentheses_of_comma (items : List Expr) (span : Span) :
    ofParentheses items (items.length == 1) span = .tuple items span := by
  match items with
  | [] | [_] | _ :: _ :: _ => rfl

-- The reader is opened by `dsimp`. Its equation is of no use: to prove it, each other token is told
-- from integers by trying them all.
/-- What is written for an expression is read back, up to spans. -/
theorem Writable.parses {e : Expr} (writable : e.Writable) : e.ReadBack := by
  induction writable with
  | @literal value span _ =>
    intro fuel c more enough tokens ends
    cases fuel with
    | zero => cases enough
    | succ fuel =>
      dsimp only [parseFuel]
      rw [Cursor.peek?_of_tokens tokens]
      have next := Cursor.advance_of_tokens tokens
      cases value with
      | str text =>
        dsimp only [Literal.token]
        rw [Cursor.strings_of_tokens ends tokens]
        exact .ok rfl next
      | bool value => cases value <;> exact .ok rfl next
      | _ => exact .ok rfl next
  | @list items span _ ih =>
    intro fuel c more enough tokens ends
    cases fuel with
    | zero => cases enough
    | succ fuel =>
      obtain ⟨opened, items⟩ := parses_enclosed rfl ih enough tokens
      dsimp only [parseFuel]
      rw [Cursor.peek?_of_tokens opened]
      refine items.bind fun read c same tokens => .expect tokens fun c tokens => .ok ?_ tokens
      rw [withoutSpans_list, withoutSpans_list, same.1]
  | @tuple items span _ ih =>
    intro fuel c more enough tokens ends
    cases fuel with
    | zero => cases enough
    | succ fuel =>
      obtain ⟨opened, items⟩ := parses_enclosed rfl ih enough tokens
      dsimp only [parseFuel]
      rw [Cursor.peek?_of_tokens opened]
      refine items.bind fun read c same tokens => .expect tokens fun c tokens => .ok ?_ tokens
      have sameLength := congrArg List.length same.1
      rw [List.length_map, List.length_map] at sameLength
      rw [same.2, Bool.true_and, ← sameLength, ofParentheses_of_comma, withoutSpans_tuple,
        withoutSpans_tuple, same.1]
  | @map entries span _ ih =>
    intro fuel c more enough tokens ends
    cases fuel with
    | zero => cases enough
    | succ fuel =>
      have opened : c.tokens = .mark .openBrace ::
          (joined [.mark .comma] (tokensOfEntries entries) ++ .mark .closeBrace :: more) := by
        rw [tokens, Expr.tokens, enclosed, List.cons_append, List.append_assoc]
        rfl
      have shorter : 2 * (joined [.mark .comma] (tokensOfEntries entries)).length + 1 ≤ fuel := by
        rw [Expr.tokens, enclosed, List.length_cons, List.length_append] at enough
        omega
      dsimp only [parseFuel]
      rw [Cursor.peek?_of_tokens opened]
      refine (parses_parseEntries ih shorter (Cursor.advance_of_tokens opened)).bind
        fun read c same tokens => .expect tokens fun c tokens => .ok ?_ tokens
      rw [withoutSpans_map, withoutSpans_map, same]
  | @macroRef name span named =>
    intro fuel c more enough tokens ends
    cases fuel with
    | zero => cases enough
    | succ fuel =>
      dsimp only [parseFuel]
      rw [Cursor.peek?_of_tokens tokens]
      refine (Cursor.parses_dotted named (ends.ne rfl) (Cursor.advance_of_tokens tokens)).bind
        fun _ c same tokens => ?_
      rw [same]
      exact .ok rfl tokens
  | @reference target span inner named =>
    intro fuel c more enough tokens ends
    cases fuel with
    | zero => cases enough
    | succ fuel =>
      have start : c.tokens = .mark .atSign :: c.advance.tokens := by
        rw [Cursor.advance_of_tokens tokens]
        exact tokens
      dsimp only [parseFuel]
      rw [Cursor.peek?_of_tokens start]
      refine (parses_parseReference inner named ends (start.symm.trans tokens)).bind
        fun _ c same tokens => ?_
      rw [same]
      exact .ok rfl tokens

theorem Writable.parses_parseAt {e : Expr} (writable : e.Writable) {c : Cursor}
    (tokens : c.tokens = e.tokens ++ more) (ends : Begins Token.endsValue more) :
    Parses (parseAt c) (fun read => read.withoutSpans = e.withoutSpans) more := by
  refine writable.parses _ c more ?_ tokens ends
  rw [depthAt, Cursor.length_rest, tokens, List.length_append]
  omega

end Expr

end ConfigBinding
