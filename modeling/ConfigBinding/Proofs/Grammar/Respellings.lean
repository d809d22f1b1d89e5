import ConfigBinding.Proofs.FaithfulSpans
import ConfigBinding.Proofs.Reading.Statements

/-!
# The same tokens elsewhere

The grammar asks for the tokens of lexemes, and for their places and the number of their source only
to tell the spans. So lexemes with the same tokens say the same up to spans, wherever they stand.

Results:
1. `Grammar.Value.respelled`: what lexemes say as a value, others with the same tokens say as well.
2. `Grammar.Statements.respelled`: so it is for the statements of a whole file.
-/

namespace ConfigBinding

/-- The lexemes have the same tokens. -/
def Respells (ms ls : List Lexeme) : Prop := ms.map Lexeme.token = ls.map Lexeme.token

namespace Respells

variable {ls ms : List Lexeme} {l : Lexeme}

theorem eq_nil (same : Respells ms []) : ms = [] := List.map_eq_nil_iff.mp same

theorem exists_cons (same : Respells ms (l :: ls)) :
    ∃ m others, ms = m :: others ∧ m.token = l.token ∧ Respells others ls :=
  List.map_eq_cons_iff.mp same

theorem exists_one (same : Respells ms [l]) : ∃ m, ms = [m] ∧ m.token = l.token := by
  obtain ⟨m, others, rfl, token, rest⟩ := same.exists_cons
  obtain rfl := rest.eq_nil
  exact ⟨m, rfl, token⟩

theorem exists_append {others : List Lexeme} (same : Respells ms (ls ++ others)) :
    ∃ first second, ms = first ++ second ∧ Respells first ls ∧ Respells second others :=
  List.map_eq_append_iff.mp (same.trans List.map_append)

theorem exists_enclosed {opening closing : Lexeme}
    (same : Respells ms (opening :: (ls ++ [closing]))) :
    ∃ start inner last, ms = start :: (inner ++ [last]) ∧ start.token = opening.token ∧
      Respells inner ls ∧ last.token = closing.token := by
  obtain ⟨first, others, rfl, opens, others'⟩ := same.exists_cons
  obtain ⟨inner, ending, rfl, inside, ends⟩ := others'.exists_append
  obtain ⟨last, rfl, closes⟩ := ends.exists_one
  exact ⟨first, inner, last, rfl, opens, inside, closes⟩

end Respells

/-- Lexemes that are moved are spelled as before. -/
theorem respells_map (move : Lexeme → Lexeme) (keeps : ∀ l, (move l).token = l.token)
    (ls : List Lexeme) : Respells (ls.map move) ls := by
  unfold Respells
  rw [List.map_map]
  exact List.map_congr_left fun l _ => keeps l

theorem Expr.withoutSpans_withSpan (e : Expr) (span : Span) :
    (e.withSpan span).withoutSpans = e.withoutSpans := by
  cases e <;> rfl

namespace Grammar

variable {file : Nat} {ls ms : List Lexeme}

/-! ## Names and strings -/

theorem Segments.respelled {names : List String} (segments : Segments ls names)
    (same : Respells ms ls) : Segments ms names := by
  induction segments generalizing ms with
  | nil =>
    obtain rfl := same.eq_nil
    exact .nil
  | cons isDot named _ ih =>
    obtain ⟨dot, behind, rfl, dotToken, same⟩ := same.exists_cons
    obtain ⟨l, others, rfl, token, same⟩ := same.exists_cons
    exact .cons (dotToken.trans isDot) ((congrArg Token.name? token).trans named) (ih same)

theorem Dotted.respelled {name : DottedName} (named : Dotted ls name) (same : Respells ms ls) :
    Dotted ms name := by
  cases named with
  | mk first segments =>
    obtain ⟨l, others, rfl, token, same⟩ := same.exists_cons
    exact .mk ((congrArg Token.name? token).trans first) (segments.respelled same)

theorem Path.respelled {names : List String} (path : Path ls names) (same : Respells ms ls) :
    Path ms names := by
  induction path generalizing ms with
  | nil =>
    obtain rfl := same.eq_nil
    exact .nil
  | cons named isSlash _ ih =>
    obtain ⟨l, behind, rfl, token, same⟩ := same.exists_cons
    obtain ⟨slash, others, rfl, slashToken, same⟩ := same.exists_cons
    exact .cons ((congrArg Token.name? token).trans named) (slashToken.trans isSlash) (ih same)

theorem Scoped.respelled {names : List String} {symbol : DottedName}
    (qualified : Scoped ls names symbol) (same : Respells ms ls) : Scoped ms names symbol := by
  induction qualified generalizing ms with
  | name named => exact .name (named.respelled same)
  | scope named isSlash _ ih =>
    obtain ⟨l, behind, rfl, token, same⟩ := same.exists_cons
    obtain ⟨slash, others, rfl, slashToken, same⟩ := same.exists_cons
    exact .scope ((congrArg Token.name? token).trans named) (slashToken.trans isSlash) (ih same)

theorem Strings.respelled {text : String} (strings : Strings ls text) (same : Respells ms ls) :
    Strings ms text := by
  induction strings generalizing ms with
  | last isText =>
    obtain ⟨l, rfl, token⟩ := same.exists_one
    exact .last (token.trans isText)
  | more isText _ ih =>
    obtain ⟨l, others, rfl, token, same⟩ := same.exists_cons
    exact .more (token.trans isText) (ih same)

theorem Call.respelled {called : Bool} (call : Call ls called) (same : Respells ms ls) :
    Call ms called := by
  cases call with
  | no =>
    obtain rfl := same.eq_nil
    exact .no
  | yes opens closes =>
    obtain ⟨opening, others, rfl, opensToo, same⟩ := same.exists_cons
    obtain ⟨closing, rfl, closesToo⟩ := same.exists_one
    exact .yes (opensToo.trans opens) (closesToo.trans closes)

theorem ReferenceTo.respelled {target : Reference} (refers : ReferenceTo ls target)
    (same : Respells ms ls) : ReferenceTo ms target := by
  cases refers with
  | mk path isSign qualified call =>
    obtain ⟨outer, behind, rfl, outerSame, same⟩ := same.exists_append
    obtain ⟨sign, others, rfl, signToken, same⟩ := same.exists_cons
    obtain ⟨inner, ending, rfl, innerSame, callSame⟩ := same.exists_append
    exact .mk (path.respelled outerSame) (signToken.trans isSign) (qualified.respelled innerSame)
      (call.respelled callSame)

theorem Alias.respelled {asName : Option String} (aliased : Alias ls asName)
    (same : Respells ms ls) : Alias ms asName := by
  cases aliased with
  | none =>
    obtain rfl := same.eq_nil
    exact .none
  | some isWord named =>
    obtain ⟨word, others, rfl, wordToken, same⟩ := same.exists_cons
    obtain ⟨l, rfl, token⟩ := same.exists_one
    exact .some (wordToken.trans isWord) ((congrArg Token.name? token).trans named)

theorem Optional.respelled {m : Mark} (optional : Optional m ls) (same : Respells ms ls) :
    Optional m ms := by
  cases optional with
  | no =>
    obtain rfl := same.eq_nil
    exact .no
  | yes is =>
    obtain ⟨l, rfl, token⟩ := same.exists_one
    exact .yes (token.trans is)

theorem Target.respelled {scope : Scope} {name : DottedName} (target : Target ls scope name)
    (same : Respells ms ls) : Target ms scope name where
  path := target.path.respelled same
  plain := by
    obtain ⟨first, others, _, rfl, _⟩ := target.path.exists_cons
    obtain ⟨l, behind, rfl, token, _⟩ := same.exists_cons
    intro other member
    cases member
    rw [token]
    exact target.plain first rfl

/-! ## Values -/

mutual

theorem Value.respelled {e : Expr} (other : Nat) : ∀ {ls ms : List Lexeme}, Value file ls e →
    Respells ms ls → ∃ same, Value other ms same ∧ same.withoutSpans = e.withoutSpans
  | _, _, .constant isValue notText, same => by
    obtain ⟨l, rfl, token⟩ := same.exists_one
    exact ⟨_, .constant (token.trans isValue) notText, rfl⟩
  | _, _, .text strings, same => ⟨_, .text (strings.respelled same), rfl⟩
  | _, _, .list opens items closes, same => by
    obtain ⟨first, inner, last, rfl, opensToo, inside, closesToo⟩ := same.exists_enclosed
    obtain ⟨others, said, alike⟩ := items.respelled other inside
    refine ⟨_, .list (opensToo.trans opens) said (closesToo.trans closes), ?_⟩
    rw [Expr.withoutSpans_list, Expr.withoutSpans_list, alike]
  | _, _, .tuple opens items closes single, same => by
    obtain ⟨first, inner, last, rfl, opensToo, inside, closesToo⟩ := same.exists_enclosed
    obtain ⟨others, said, alike⟩ := items.respelled other inside
    refine ⟨_, .tuple (opensToo.trans opens) said (closesToo.trans closes) fun one => ?_, ?_⟩
    · have lengths := congrArg List.length alike
      rw [List.length_map, List.length_map] at lengths
      exact single (lengths.symm.trans one)
    · rw [Expr.withoutSpans_tuple, Expr.withoutSpans_tuple, alike]
  | _, _, .parentheses opens value closes, same => by
    obtain ⟨first, inner, last, rfl, opensToo, inside, closesToo⟩ := same.exists_enclosed
    obtain ⟨inside, said, alike⟩ := value.respelled other inside
    refine ⟨_, .parentheses (opensToo.trans opens) said (closesToo.trans closes), ?_⟩
    rw [Expr.withoutSpans_withSpan, Expr.withoutSpans_withSpan, alike]
  | _, _, .map opens entries closes, same => by
    obtain ⟨first, inner, last, rfl, opensToo, inside, closesToo⟩ := same.exists_enclosed
    obtain ⟨others, said, alike⟩ := entries.respelled other inside
    refine ⟨_, .map (opensToo.trans opens) said (closesToo.trans closes), ?_⟩
    rw [Expr.withoutSpans_map, Expr.withoutSpans_map, alike]
  | _, _, .macroRef isPercent named, same => by
    obtain ⟨percent, others, rfl, token, same⟩ := same.exists_cons
    exact ⟨_, .macroRef (token.trans isPercent) (named.respelled same), rfl⟩
  | _, _, .reference refers, same => ⟨_, .reference (refers.respelled same), rfl⟩

theorem Items.respelled {before behind : Bool} {items : List Expr} (other : Nat) :
    ∀ {ls ms : List Lexeme}, Items file before ls items behind → Respells ms ls →
      ∃ others, Items other before ms others behind ∧
        others.map Expr.withoutSpans = items.map Expr.withoutSpans
  | _, _, .none, same => by
    obtain rfl := same.eq_nil
    exact ⟨[], .none, rfl⟩
  | _, _, .last value, same => by
    obtain ⟨item, said, alike⟩ := value.respelled other same
    exact ⟨[item], .last said, congrArg ([·]) alike⟩
  | _, _, .more value isComma items, same => by
    obtain ⟨here, following, rfl, hereSame, same⟩ := same.exists_append
    obtain ⟨comma, rest, rfl, token, same⟩ := same.exists_cons
    obtain ⟨item, said, alike⟩ := value.respelled other hereSame
    obtain ⟨others, saidOthers, alikeOthers⟩ := items.respelled other same
    refine ⟨item :: others, .more said (token.trans isComma) saidOthers, ?_⟩
    rw [List.map_cons, List.map_cons, alike, alikeOthers]

theorem Entries.respelled {entries : List (String × Expr)} (other : Nat) :
    ∀ {ls ms : List Lexeme}, Entries file ls entries → Respells ms ls →
      ∃ others, Entries other ms others ∧
        others.map (Prod.map id Expr.withoutSpans) = entries.map (Prod.map id Expr.withoutSpans)
  | _, _, .none, same => by
    obtain rfl := same.eq_nil
    exact ⟨[], .none, rfl⟩
  | _, _, .last strings isColon value, same => by
    obtain ⟨key, following, rfl, keySame, same⟩ := same.exists_append
    obtain ⟨colon, here, rfl, token, same⟩ := same.exists_cons
    obtain ⟨item, said, alike⟩ := value.respelled other same
    refine ⟨[(_, item)], .last (strings.respelled keySame) (token.trans isColon) said, ?_⟩
    exact congrArg (fun e => [(_, e)]) alike
  | _, _, .more strings isColon value isComma entries, same => by
    obtain ⟨key, following, rfl, keySame, same⟩ := same.exists_append
    obtain ⟨colon, behind, rfl, token, same⟩ := same.exists_cons
    obtain ⟨here, ending, rfl, hereSame, same⟩ := same.exists_append
    obtain ⟨comma, rest, rfl, commaToken, same⟩ := same.exists_cons
    obtain ⟨item, said, alike⟩ := value.respelled other hereSame
    obtain ⟨others, saidOthers, alikeOthers⟩ := entries.respelled other same
    refine ⟨(_, item) :: others, .more (strings.respelled keySame) (token.trans isColon) said
      (commaToken.trans isComma) saidOthers, ?_⟩
    rw [List.map_cons, List.map_cons, alikeOthers]
    exact congrArg (fun e => (_, e) :: _) alike

end

/-! ## Statements -/

theorem Parameters.respelled {entries : List (String × Expr)} (other : Nat)
    (parameters : Parameters file ls entries) (same : Respells ms ls) :
    ∃ others, Parameters other ms others ∧
      others.map (Prod.map id Expr.withoutSpans) = entries.map (Prod.map id Expr.withoutSpans) := by
  induction parameters generalizing ms with
  | nil =>
    obtain rfl := same.eq_nil
    exact ⟨[], .nil, rfl⟩
  | cons named isEquals value optional _ ih =>
    obtain ⟨l, behind, rfl, token, same⟩ := same.exists_cons
    obtain ⟨equals, following, rfl, equalsToken, same⟩ := same.exists_cons
    obtain ⟨here, ending, rfl, hereSame, same⟩ := same.exists_append
    obtain ⟨comma, rest, rfl, commaSame, same⟩ := same.exists_append
    obtain ⟨item, said, alike⟩ := value.respelled other hereSame
    obtain ⟨others, saidOthers, alikeOthers⟩ := ih same
    refine ⟨(_, item) :: others, .cons ((congrArg Token.name? token).trans named)
      (equalsToken.trans isEquals) said (optional.respelled commaSame) saidOthers, ?_⟩
    rw [List.map_cons, List.map_cons, alikeOthers]
    exact congrArg (fun e => (_, e) :: _) alike

theorem Body.respelled {body : StatementBody} (other : Nat) (said : Body file ls body)
    (same : Respells ms ls) :
    ∃ mirror, Body other ms mirror ∧ mirror.withoutSpans = body.withoutSpans := by
  cases said with
  | importPath isWord named aliased =>
    obtain ⟨word, behind, rfl, token, same⟩ := same.exists_cons
    obtain ⟨path, as, rfl, pathSame, asSame⟩ := same.exists_append
    exact ⟨_, .importPath (token.trans isWord) (named.respelled pathSame)
      (aliased.respelled asSame), rfl⟩
  | importFrom isWord named apart isMiddle isName aliased =>
    obtain ⟨word, behind, rfl, token, same⟩ := same.exists_cons
    obtain ⟨parent, following, rfl, parentSame, same⟩ := same.exists_append
    obtain ⟨middle, rest, rfl, middleToken, same⟩ := same.exists_cons
    obtain ⟨l, as, rfl, nameToken, asSame⟩ := same.exists_cons
    exact ⟨_, .importFrom (token.trans isWord) (named.respelled parentSame) apart
      (middleToken.trans isMiddle) ((congrArg Token.name? nameToken).trans isName)
      (aliased.respelled asSame), rfl⟩
  | dynamicRegistration isWord named isMiddle isName =>
    obtain ⟨word, behind, rfl, token, same⟩ := same.exists_cons
    obtain ⟨module, following, rfl, moduleSame, same⟩ := same.exists_append
    obtain ⟨middle, rest, rfl, middleToken, same⟩ := same.exists_cons
    obtain ⟨l, rfl, nameToken⟩ := same.exists_one
    exact ⟨_, .dynamicRegistration (token.trans isWord) (named.respelled moduleSame)
      (middleToken.trans isMiddle) ((congrArg Token.name? nameToken).trans isName), rfl⟩
  | includeFile isWord isPath =>
    obtain ⟨word, behind, rfl, token, same⟩ := same.exists_cons
    obtain ⟨l, rfl, pathToken⟩ := same.exists_one
    exact ⟨_, .includeFile (token.trans isWord) (pathToken.trans isPath), rfl⟩
  | macroDef target isEquals value =>
    obtain ⟨name, behind, rfl, nameSame, same⟩ := same.exists_append
    obtain ⟨equals, values, rfl, token, same⟩ := same.exists_cons
    obtain ⟨item, said, alike⟩ := value.respelled other same
    exact ⟨_, .macroDef (target.respelled nameSame) (token.trans isEquals) said,
      congrArg (StatementBody.macroDef _) alike⟩
  | single target nonempty isEquals value =>
    obtain ⟨name, behind, rfl, nameSame, same⟩ := same.exists_append
    obtain ⟨equals, values, rfl, token, same⟩ := same.exists_cons
    obtain ⟨item, said, alike⟩ := value.respelled other same
    exact ⟨_, .single (target.respelled nameSame) nonempty (token.trans isEquals) said,
      congrArg (fun e => StatementBody.binding ⟨_, _, .single _ e⟩) alike⟩
  | @block _ _ _ _ _ _ _ entries target isColon opens parameters once closes =>
    obtain ⟨name, behind, rfl, nameSame, same⟩ := same.exists_append
    obtain ⟨colon, braces, rfl, token, same⟩ := same.exists_cons
    obtain ⟨opening, inner, closing, rfl, opensToo, inside, closesToo⟩ := same.exists_enclosed
    obtain ⟨others, said, alike⟩ := parameters.respelled other inside
    have names : others.map Prod.fst = entries.map Prod.fst := by
      have firsts := congrArg (List.map Prod.fst) alike
      rw [List.map_map, List.map_map] at firsts
      exact firsts
    exact ⟨_, .block (target.respelled nameSame) (token.trans isColon) (opensToo.trans opens) said
      (names.symm ▸ once) (closesToo.trans closes),
      congrArg (fun es => StatementBody.binding ⟨_, _, .block es _⟩) alike⟩

theorem Spells.respelled {statement : Statement} (other : Nat) (spells : Spells file ls statement)
    (same : Respells ms ls) :
    ∃ mirror, Spells other ms mirror ∧ mirror.withoutSpans = statement.withoutSpans := by
  obtain ⟨body, said, alike⟩ := spells.body.respelled other same
  exact ⟨⟨body, cover other ms⟩, ⟨said, rfl⟩, congrArg (Statement.mk · (Span.zero 0)) alike⟩

theorem takesAlias_withoutSpans (body : StatementBody) :
    takesAlias body.withoutSpans = takesAlias body := by
  cases body <;> rfl

theorem Statements.respelled {statements : List Statement} (other : Nat)
    (derived : Statements file ls statements) (same : Respells ms ls) :
    ∃ others, Statements other ms others ∧
      others.map Statement.withoutSpans = statements.map Statement.withoutSpans := by
  induction derived generalizing ms with
  | nil =>
    obtain rfl := same.eq_nil
    exact ⟨[], .nil, rfl⟩
  | @cons _ rest statement _ spells _ noAlias ih =>
    obtain ⟨here, following, rfl, hereSame, same⟩ := same.exists_append
    obtain ⟨mirror, spellsToo, alike⟩ := spells.respelled other hereSame
    obtain ⟨others, derivedToo, alikeOthers⟩ := ih same
    refine ⟨mirror :: others, .cons spellsToo derivedToo fun takes l member isAs => ?_, ?_⟩
    · have bodies : mirror.body.withoutSpans = statement.body.withoutSpans :=
        congrArg Statement.body alike
      have takesToo : takesAlias statement.body = true := by
        rw [← takesAlias_withoutSpans, ← bodies, takesAlias_withoutSpans, takes]
      cases rest with
      | nil =>
        obtain rfl := same.eq_nil
        cases member
      | cons first rest =>
        obtain ⟨m, behind, rfl, token, _⟩ := same.exists_cons
        cases member
        exact noAlias takesToo first rfl (token.symm.trans isAs)
    · rw [List.map_cons, List.map_cons, alike, alikeOthers]

end Grammar

end ConfigBinding
