import ConfigBinding.Log
import ConfigBinding.Proofs.Reading.Parsing
import ConfigBinding.Statement.Parser

/-!
# Reading bindings back

A sequence of bindings of one parameter each, as it is written, is read as these bindings, up to
spans. A binding needs names of the language for its scope, symbol and parameter, and must not begin
with a word that begins another statement.

Results:
1. `Statement.parses_binding`: one binding is read back from its tokens.
2. `Statement.parseSource_bindings`: a text with the tokens of bindings is read as these bindings.
3. `Statement.parseSource_error_of_opening`: a text with the tokens of bindings is not read if one
   of them begins with a word that begins another statement.
-/

namespace ConfigBinding

open Lexer

theorem Lexer.lexes_equals : Lexes nothing " = ".toList [.mark .equals] :=
  (lexes_blank (c := ' ') rfl).append ((lexes_mark (c := '=') rfl).append
    (lexes_blank (c := ' ') rfl) fun _ _ => stops_nothing _) fun _ _ => stops_nothing _

/-! ## Names of parameters -/

/-- The key is made of names of the language. -/
structure BindingKey.OfNames (key : BindingKey) : Prop where
  inner : key.scope.OfNames
  named : key.symbol.OfNames
  param : isName key.param = true

/-- The first segment of a name in a scope. -/
def firstSegment? (scope : Scope) (symbol : DottedName) : Option String :=
  (scope.segments ++ symbol.segments).head?

theorem firstSegment?_append (scope : Scope) {symbol : DottedName} (nonempty : symbol.segments ≠ [])
    (param : String) : firstSegment? scope (symbol.append param) = firstSegment? scope symbol := by
  have some : scope.segments ++ symbol.segments ≠ [] :=
    List.append_ne_nil_of_right_ne_nil _ nonempty
  rw [firstSegment?, firstSegment?, DottedName.append, ← List.append_assoc,
    List.head?_append_of_ne_nil _ some]

/-- A name in a scope starts with the token of its first segment. -/
theorem exists_targetTokens_eq {scope : Scope} {symbol : DottedName} (inner : scope.OfNames)
    (named : symbol.OfNames) : ∃ first more, firstSegment? scope symbol = some first ∧
      isName first = true ∧ scope.tokens ++ symbol.tokens = nameToken first :: more := by
  obtain ⟨segments⟩ := scope
  obtain ⟨names⟩ := symbol
  cases segments with
  | cons segment segments => exact ⟨segment, _, rfl, inner segment List.mem_cons_self, rfl⟩
  | nil =>
    cases names with
    | nil => exact absurd rfl named.nonempty
    | cons name names =>
      exact ⟨name, _, rfl, named.segments name List.mem_cons_self, rfl⟩

/-- The words that begin statements other than assignments. -/
def Statement.openingWords : List String :=
  [Mark.kwImport, Mark.kwFrom, Mark.kwInclude].map Mark.spelling

namespace BindingKey

def tokens (key : BindingKey) : List Token :=
  key.scope.tokens ++ (key.symbol.append key.param).tokens

namespace OfNames

variable {key : BindingKey}

theorem path (named : key.OfNames) : (key.symbol.append key.param).OfNames where
  nonempty := List.append_ne_nil_of_left_ne_nil named.named.nonempty _
  segments := List.forall_mem_append.mpr
    ⟨named.named.segments, List.forall_mem_singleton.mpr named.param⟩

theorem lexes (named : key.OfNames) : Lexes isNameChar key.toText.toList key.tokens := by
  rw [toText, ← DottedName.toText_append named.named.nonempty]
  exact named.inner.lexes named.path.lexes

/-- A binding starts with the token of its first segment. -/
theorem exists_tokens_eq (named : key.OfNames) : ∃ first more,
    firstSegment? key.scope key.symbol = some first ∧ isName first = true ∧
      key.tokens = nameToken first :: more := by
  obtain ⟨first, more, segment, isFirst, start⟩ := exists_targetTokens_eq named.inner named.path
  rw [firstSegment?_append _ named.named.nonempty] at segment
  exact ⟨first, more, segment, isFirst, start⟩

end OfNames

end BindingKey

namespace Statement

/-! ## One binding -/

/-- The statement binds the parameter to the expression, up to spans. -/
def Gives (statement : Statement) (binding : BindingKey × Expr) : Prop :=
  ∃ value, statement.body =
      .binding ⟨binding.1.scope, binding.1.symbol, .single binding.1.param value⟩ ∧
    value.withoutSpans = binding.2.withoutSpans

/-- The tokens of a binding. -/
def bindingTokens (binding : BindingKey × Expr) : List Token :=
  binding.1.tokens ++ .mark .equals :: binding.2.tokens

/-- The binding is made of names of the language and of a value that can be read back. -/
structure Legible (binding : BindingKey × Expr) : Prop where
  named : binding.1.OfNames
  writable : binding.2.Writable

/-- The binding can be read as it is written. -/
structure Readable (binding : BindingKey × Expr) : Prop where
  named : binding.1.OfNames
  plain : ∀ first ∈ firstSegment? binding.1.scope binding.1.symbol, first ∉ openingWords
  writable : binding.2.Writable

theorem Readable.legible {binding : BindingKey × Expr} (readable : Readable binding) :
    Legible binding :=
  ⟨readable.named, readable.writable⟩

/-- What is written for a binding reads as its tokens. -/
theorem lexes_binding {binding : BindingKey × Expr} (legible : Legible binding) :
    Lexes inNumber (binding.1.toText ++ " = " ++ binding.2.toText).toList
      (bindingTokens binding) := by
  rw [String.toList_append, String.toList_append, List.append_assoc]
  exact legible.named.lexes.append
    (lexes_equals.append legible.writable.lexes fun _ _ => stops_nothing _)
    fun _ _ => stops_cons (c := ' ') rfl _

theorem assign_append (scope : Scope) {symbol : DottedName} (nonempty : symbol.segments ≠ [])
    (param : String) (target : Span) (value : Expr) :
    assign scope (symbol.append param) target value =
      .ok (.binding ⟨scope, symbol, .single param value⟩) := by
  unfold assign
  rw [DottedName.parent?_append nonempty, DottedName.last?_append]
  rfl

variable {more : List Token}

theorem parses_assignment {binding : BindingKey × Expr} (readable : Readable binding)
    (ends : Begins Token.endsValue more) {c : Cursor}
    (tokens : c.tokens = bindingTokens binding ++ more) :
    Parses (parseAssignment c) (fun body => ∀ span, Gives ⟨body, span⟩ binding) more := by
  obtain ⟨key, e⟩ := binding
  have named := readable.named
  have split : c.tokens = key.scope.tokens ++ ((key.symbol.append key.param).tokens ++
      (.mark .equals :: (e.tokens ++ more))) := by
    rw [tokens, bindingTokens, BindingKey.tokens, List.append_assoc, List.append_assoc]
    rfl
  unfold parseAssignment
  refine (Cursor.parses_scopedName named.inner named.path (begins_cons rfl _) split).bind
    fun _ c same tokens => ?_
  dsimp only
  rw [if_neg (Cursor.not_sees_of_cons (m := .colon) tokens nofun)]
  refine .expect tokens fun c tokens => ?_
  refine (readable.writable.parses_parseAt tokens ends).bind fun value c means tokens => ?_
  rw [same, assign_append _ named.named.nonempty]
  exact .ok (fun span => ⟨value, rfl, means⟩) tokens

/-- A statement that begins with a name is an assignment unless the name begins another one. -/
theorem parseBody_of_name {c : Cursor} {token : Token} {name : String}
    (next : c.peek? = some token) (named : token.name? = some name)
    (plain : name ∉ openingWords) : parseBody c = parseAssignment c := by
  have apart : ∀ m ∈ [Mark.kwImport, Mark.kwFrom, Mark.kwInclude], token ≠ .mark m := by
    rintro m member rfl
    exact plain (List.mem_map.mpr ⟨m, member, Token.spelling_of_name? named⟩)
  unfold parseBody
  rw [next]
  -- The other statements begin with a mark, and each of these marks is among the opening words.
  split <;> rename_i same <;> cases same
  · exact absurd rfl (apart _ (by decide))
  · exact absurd rfl (apart _ (by decide))
  · exact absurd rfl (apart _ (by decide))
  · rw [if_pos (by rw [named]; rfl)]

/-- A binding of one parameter is read back. -/
theorem parses_binding {binding : BindingKey × Expr} (readable : Readable binding)
    (ends : Begins Token.endsValue more) {c : Cursor}
    (tokens : c.tokens = bindingTokens binding ++ more) :
    Parses (parseAt c) (Gives · binding) more := by
  obtain ⟨first, others, segment, named, start⟩ := readable.named.exists_tokens_eq
  have next : c.peek? = some (nameToken first) := by
    rw [bindingTokens, start] at tokens
    exact Cursor.peek?_of_tokens tokens
  unfold parseAt
  rw [parseBody_of_name next (name?_nameToken named) (readable.plain first segment)]
  exact (parses_assignment readable ends tokens).bind fun _ c gives tokens =>
    .ok (gives _) tokens

/-! ## Sequences of bindings -/

theorem begins_bindings {bindings : List (BindingKey × Expr)}
    (legible : ∀ binding ∈ bindings, Legible binding) :
    Begins Token.endsValue (bindings.flatMap bindingTokens) := by
  cases bindings with
  | nil => exact begins_nil _
  | cons binding bindings =>
    obtain ⟨first, others, _, named, start⟩ :=
      (legible binding List.mem_cons_self).named.exists_tokens_eq
    rw [List.flatMap_cons, bindingTokens, start]
    exact begins_cons (Token.endsValue_of_name? (name?_nameToken named)) _

theorem length_le_bindingTokens (bindings : List (BindingKey × Expr)) :
    bindings.length ≤ (bindings.flatMap bindingTokens).length := by
  induction bindings with
  | nil => exact Nat.le_refl 0
  | cons binding bindings ih =>
    rw [List.flatMap_cons, List.length_append, bindingTokens, List.length_append,
      List.length_cons, List.length_cons]
    omega

/-- Behind a binding that is read back the others are read. -/
theorem parseAll_cons {binding : BindingKey × Expr} (readable : Readable binding)
    (ends : Begins Token.endsValue more) {c : Cursor}
    (tokens : c.tokens = bindingTokens binding ++ more) (fuel : Nat) :
    ∃ statement after, Gives statement binding ∧ after.tokens = more ∧
      parseAll (fuel + 1) c = (parseAll fuel after).map (statement :: ·) := by
  obtain ⟨statement, after, parsed, gives, tokens'⟩ := parses_binding readable ends tokens
  refine ⟨statement, after, gives, tokens', ?_⟩
  have unfinished : ¬ c.atEnd = true := by
    obtain ⟨_, _, _, _, start⟩ := readable.named.exists_tokens_eq
    rw [Cursor.atEnd_eq, tokens, bindingTokens, start]
    exact Bool.false_ne_true
  rw [parseAll, if_neg unfinished, parsed]
  show (parseAll fuel after >>= _) = _
  cases parseAll fuel after <;> rfl

theorem parseAll_bindings {bindings : List (BindingKey × Expr)}
    (readable : ∀ binding ∈ bindings, Readable binding) {fuel : Nat}
    (enough : bindings.length ≤ fuel) {c : Cursor}
    (tokens : c.tokens = bindings.flatMap bindingTokens) :
    ∃ statements, parseAll fuel c = .ok statements ∧ List.Forall₂ Gives statements bindings := by
  induction bindings generalizing fuel c with
  | nil =>
    refine ⟨[], ?_, .nil⟩
    cases fuel with
    | zero => rfl
    | succ fuel =>
      unfold parseAll
      rw [if_pos (by rw [Cursor.atEnd_eq, tokens]; rfl)]
  | cons binding bindings ih =>
    obtain ⟨first, others⟩ := List.forall_mem_cons.mp readable
    cases fuel with
    | zero => cases enough
    | succ fuel =>
      have ends := begins_bindings fun binding member => (others binding member).legible
      obtain ⟨statement, after, gives, tokens', run⟩ := parseAll_cons first ends tokens fuel
      obtain ⟨statements, rest, each⟩ := ih others (Nat.le_of_succ_le_succ enough) tokens'
      refine ⟨statement :: statements, ?_, .cons gives each⟩
      rw [run, rest]
      rfl

/-- A text that reads as the tokens of bindings is read as these bindings. -/
theorem parseSource_bindings {text : String} {bindings : List (BindingKey × Expr)}
    (readable : ∀ binding ∈ bindings, Readable binding)
    (reads : Lexer.Reads text.toList (bindings.flatMap bindingTokens)) (file : Nat) :
    ∃ statements, parseSource file text = .ok statements ∧
      List.Forall₂ Gives statements bindings := by
  obtain ⟨lexemes, read, same⟩ := tokenize_of_reads reads
  unfold parseSource
  rw [read]
  refine parseAll_bindings readable ?_ same
  have short := length_le_bindingTokens bindings
  rw [← same, List.length_map] at short
  exact short

/-! ## Bindings that begin like another statement -/

/-- Behind the first segment of a key stands a slash or a dot. -/
theorem exists_second {key : BindingKey} (named : key.OfNames) : ∃ first m more,
    firstSegment? key.scope key.symbol = some first ∧ (m = Mark.slash ∨ m = Mark.dot) ∧
      key.tokens = nameToken first :: .mark m :: more := by
  obtain ⟨⟨segments⟩, ⟨names⟩, param⟩ := key
  cases segments with
  | cons segment segments => exact ⟨segment, .slash, _, rfl, .inl rfl, rfl⟩
  | nil =>
    cases names with
    | nil => exact absurd rfl named.named.nonempty
    | cons name names =>
      cases names with
      | nil => exact ⟨name, .dot, _, rfl, .inr rfl, rfl⟩
      | cons next names => exact ⟨name, .dot, _, rfl, .inr rfl, rfl⟩

/-- No statement begins with an opening word and a slash or a dot. -/
theorem parseBody_of_opening {c : Cursor} {first : String} {m : Mark} (opens : first ∈ openingWords)
    (separates : m = .slash ∨ m = .dot) (tokens : c.tokens = nameToken first :: .mark m :: more) :
    ∃ error, parseBody c = .error error := by
  have behind := Cursor.peek?_of_tokens (Cursor.advance_of_tokens tokens)
  have noPath : ∃ error, c.advance.dotted .importPath = .error error := by
    unfold Cursor.dotted Cursor.expectName
    rw [behind]
    rcases separates with rfl | rfl <;> exact ⟨_, rfl⟩
  have noFile : ∃ error, parseInclude c.advance = .error error := by
    unfold parseInclude
    rw [behind]
    exact ⟨_, rfl⟩
  obtain ⟨keyword, inside, rfl⟩ := List.mem_map.mp opens
  simp only [List.mem_cons, List.not_mem_nil, or_false] at inside
  unfold parseBody
  rw [Cursor.peek?_of_tokens tokens]
  rcases inside with rfl | rfl | rfl
  · obtain ⟨error, failed⟩ := noPath
    refine ⟨error, ?_⟩
    show parseImport c.advance = _
    rw [parseImport, failed]
    rfl
  · obtain ⟨error, failed⟩ := noPath
    refine ⟨error, ?_⟩
    show parseFromImport c.advance = _
    rw [parseFromImport, failed]
    rfl
  · exact noFile

/-- A binding whose first segment is an opening word is not read. -/
theorem parseAll_of_opening {binding : BindingKey × Expr} (legible : Legible binding)
    {first : String} (segment : firstSegment? binding.1.scope binding.1.symbol = some first)
    (opens : first ∈ openingWords) {c : Cursor} (tokens : c.tokens = bindingTokens binding ++ more)
    (fuel : Nat) : ∃ error, parseAll (fuel + 1) c = .error error := by
  obtain ⟨other, m, others, same, separates, start⟩ := exists_second legible.named
  obtain rfl : first = other := Option.some.inj (segment.symm.trans same)
  rw [bindingTokens, start] at tokens
  obtain ⟨error, failed⟩ := parseBody_of_opening opens separates tokens
  have unfinished : ¬ c.atEnd = true := by
    rw [Cursor.atEnd_eq, tokens]
    exact Bool.false_ne_true
  refine ⟨error, ?_⟩
  rw [parseAll, if_neg unfinished, parseAt, failed]
  rfl

/-- Some of the bindings begins with a word that begins another statement. -/
def SomeOpens (bindings : List (BindingKey × Expr)) : Prop :=
  ∃ binding ∈ bindings,
    ∃ first ∈ firstSegment? binding.1.scope binding.1.symbol, first ∈ openingWords

theorem parseAll_of_someOpens {bindings : List (BindingKey × Expr)}
    (legible : ∀ binding ∈ bindings, Legible binding) (opens : SomeOpens bindings) {fuel : Nat}
    (enough : bindings.length ≤ fuel) {c : Cursor}
    (tokens : c.tokens = bindings.flatMap bindingTokens) :
    ∃ error, parseAll fuel c = .error error := by
  induction bindings generalizing fuel c with
  | nil =>
    obtain ⟨_, member, _⟩ := opens
    cases member
  | cons binding bindings ih =>
    obtain ⟨top, others⟩ := List.forall_mem_cons.mp legible
    cases fuel with
    | zero => cases enough
    | succ fuel =>
      by_cases plain : ∀ first ∈ firstSegment? binding.1.scope binding.1.symbol,
          first ∉ openingWords
      · -- This binding is read, so one below it begins with an opening word.
        have below : SomeOpens bindings := by
          obtain ⟨other, member, first, segment, word⟩ := opens
          rcases List.mem_cons.mp member with rfl | member
          · exact absurd word (plain first segment)
          · exact ⟨other, member, first, segment, word⟩
        obtain ⟨_, after, _, tokens', run⟩ :=
          parseAll_cons ⟨top.named, plain, top.writable⟩ (begins_bindings others) tokens fuel
        obtain ⟨error, failed⟩ := ih others below (Nat.le_of_succ_le_succ enough) tokens'
        refine ⟨error, ?_⟩
        rw [run, failed]
        rfl
      · simp only [not_forall, not_not] at plain
        obtain ⟨first, segment, word⟩ := plain
        exact parseAll_of_opening top segment word tokens fuel

/-- A text that reads as the tokens of bindings is not read if one of them begins with an opening
word. -/
theorem parseSource_error_of_opening {text : String} {bindings : List (BindingKey × Expr)}
    (legible : ∀ binding ∈ bindings, Legible binding) (opens : SomeOpens bindings)
    (reads : Lexer.Reads text.toList (bindings.flatMap bindingTokens)) (file : Nat) :
    ∃ error, parseSource file text = .error error := by
  obtain ⟨lexemes, read, same⟩ := tokenize_of_reads reads
  unfold parseSource
  rw [read]
  refine parseAll_of_someOpens legible opens ?_ same
  have short := length_le_bindingTokens bindings
  rw [← same, List.length_map] at short
  exact short

end Statement

end ConfigBinding
