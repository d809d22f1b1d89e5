import ConfigBinding.Proofs.Grammar.Values
import ConfigBinding.Proofs.Reading.Bindings

/-!
# Statements by the grammar

The readers of statements take exactly what the grammar derives, up to the end of the tokens.

Results:
1. `Statement.ofLexemes_eq_ok_iff`: tokens are read as statements just if these are derived from
   them.
2. `Grammar.Statements.unique`: tokens say at most one sequence of statements.
-/

namespace ConfigBinding

open Grammar

namespace Statement

open Cursor (passes_of_sees passes_of_expect passes_of_expectName passes_of_dotted)

variable {c after : Cursor}

/-- An alias is read if one is there. -/
theorem passes_of_parseAsName {asName : Option String}
    (read : parseAsName c = .ok (asName, after)) :
    ∃ ls, c.Passes ls after ∧ Alias ls asName ∧
      (asName.isNone = true → ¬ after.sees .kwAs = true) := by
  unfold parseAsName at read
  split at read
  · rename_i seen
    obtain ⟨word, wordPassed, isWord⟩ := passes_of_sees seen
    obtain ⟨⟨name, d⟩, readName, read⟩ := ok_of_bind read
    obtain ⟨l, namePassed, named⟩ := passes_of_expectName readName
    cases read
    exact ⟨[word, l], wordPassed.cons namePassed, .some isWord named, nofun⟩
  · rename_i unseen
    cases read
    exact ⟨[], .refl _, .none, fun _ => unseen⟩

/-- The lexemes between the cursors say it, and no alias is left over. -/
def Takes (c : Cursor) (body : StatementBody) (after : Cursor) : Prop :=
  ∃ ls, c.Passes ls after ∧ Body c.file ls body ∧
    (takesAlias body = true → ¬ after.sees .kwAs = true)

theorem takes_of_no_alias {ls : List Lexeme} {body : StatementBody} (passed : c.Passes ls after)
    (spelled : Body c.file ls body) (noAlias : takesAlias body = false) : Takes c body after :=
  ⟨ls, passed, spelled, fun alias? => absurd (noAlias.symm.trans alias?) Bool.false_ne_true⟩

section

variable {start : Cursor} {word : Lexeme}

theorem takes_of_parseImport (wordPassed : start.Passes [word] c) (isWord : word.Is .kwImport)
    {body : StatementBody} (read : parseImport c = .ok (body, after)) : Takes start body after := by
  unfold parseImport at read
  obtain ⟨⟨path, d⟩, readPath, read⟩ := ok_of_bind read
  obtain ⟨⟨asName, e⟩, readAlias, read⟩ := ok_of_bind read
  obtain ⟨ls, pathPassed, named⟩ := passes_of_dotted readPath
  obtain ⟨as, aliasPassed, asNamed, ends⟩ := passes_of_parseAsName readAlias
  cases read
  exact ⟨_, wordPassed.cons (pathPassed.trans aliasPassed), .importPath isWord named asNamed, ends⟩

theorem takes_of_parseFromImport (wordPassed : start.Passes [word] c) (isWord : word.Is .kwFrom)
    {body : StatementBody} (read : parseFromImport c = .ok (body, after)) :
    Takes start body after := by
  unfold parseFromImport at read
  obtain ⟨⟨parent, d⟩, readParent, read⟩ := ok_of_bind read
  obtain ⟨e, readMiddle, read⟩ := ok_of_bind read
  obtain ⟨⟨name, f⟩, readName, read⟩ := ok_of_bind read
  obtain ⟨ls, parentPassed, parentNamed⟩ := passes_of_dotted readParent
  obtain ⟨middle, middlePassed, isMiddle⟩ := passes_of_expect readMiddle
  obtain ⟨l, namePassed, named⟩ := passes_of_expectName readName
  have passed := wordPassed.cons (parentPassed.trans (middlePassed.cons namePassed))
  have switch : parent.toText = switchModule ↔ parent = ⟨[switchModule]⟩ :=
    parent.toText_eq_iff parentNamed.segments_ne_nil (by decide)
  dsimp only at read
  split at read
  · rename_i isSwitch
    split at read
    · rename_i isName
      rw [switch.mp isSwitch] at parentNamed
      rw [isName] at named
      cases read
      exact takes_of_no_alias passed (.dynamicRegistration isWord parentNamed isMiddle named) rfl
    · cases read
  · rename_i noSwitch
    obtain ⟨⟨asName, g⟩, readAlias, read⟩ := ok_of_bind read
    obtain ⟨as, aliasPassed, asNamed, ends⟩ := passes_of_parseAsName readAlias
    have whole := passed.trans aliasPassed
    rw [List.cons_append, List.append_assoc] at whole
    cases read
    exact ⟨_, whole,
      .importFrom isWord parentNamed (mt switch.mpr noSwitch) isMiddle named asNamed, ends⟩

theorem takes_of_parseInclude (wordPassed : start.Passes [word] c) (isWord : word.Is .kwInclude)
    {body : StatementBody} (read : parseInclude c = .ok (body, after)) :
    Takes start body after := by
  unfold parseInclude at read
  split at read
  · rename_i path next
    obtain ⟨l, passes, isPath⟩ := Cursor.passes_of_peek? next
    cases read
    exact takes_of_no_alias (wordPassed.cons passes) (.includeFile isWord isPath) rfl
  · cases read

end

theorem passes_of_skip (m : Mark) (c : Cursor) :
    ∃ ls, c.Passes ls (c.skip m) ∧ Optional m ls := by
  unfold Cursor.skip
  split
  · rename_i seen
    obtain ⟨l, passes, isMark⟩ := passes_of_sees seen
    exact ⟨[l], passes, .yes isMark⟩
  · exact ⟨[], .refl _, .no⟩

/-- The parameters are none of those seen before and come once. -/
theorem passes_of_parseBlockEntries {fuel : Nat} {seen : List String}
    {entries : List (String × Expr)}
    (read : parseBlockEntries fuel seen c = .ok (entries, after)) :
    ∃ ls, c.Passes ls after ∧ Parameters c.file ls entries ∧
      (entries.map Prod.fst).Nodup ∧ ∀ name ∈ entries.map Prod.fst, name ∉ seen := by
  induction fuel generalizing c after seen entries with
  | zero => cases read
  | succ fuel ih =>
    unfold parseBlockEntries at read
    split at read
    · cases read
      exact ⟨[], .refl _, .nil, List.nodup_nil, List.forall_mem_nil _⟩
    · obtain ⟨⟨param, d⟩, readName, read⟩ := ok_of_bind read
      obtain ⟨l, namePassed, named⟩ := passes_of_expectName readName
      dsimp only at read
      split at read
      · cases read
      · rename_i fresh
        obtain ⟨e, readEquals, read⟩ := ok_of_bind read
        obtain ⟨⟨value, f⟩, readValue, read⟩ := ok_of_bind read
        obtain ⟨⟨others, g⟩, readOthers, read⟩ := ok_of_bind read
        obtain ⟨equals, equalsPassed, isEquals⟩ := passes_of_expect readEquals
        obtain ⟨ls, valuePassed, isValue⟩ := Expr.passes_of_parseAt readValue
        obtain ⟨comma, commaPassed, isComma⟩ := passes_of_skip .comma f
        obtain ⟨rest, othersPassed, parameters, once, unseen⟩ := ih readOthers
        have passed := namePassed.cons (equalsPassed.cons
          (valuePassed.trans (commaPassed.trans othersPassed)))
        rw [equalsPassed.file, namePassed.file] at isValue
        rw [commaPassed.file, valuePassed.file, equalsPassed.file, namePassed.file] at parameters
        cases read
        refine ⟨_, passed, .cons named isEquals isValue isComma parameters, ?_, ?_⟩
        · exact List.nodup_cons.mpr ⟨fun again => unseen _ again List.mem_cons_self, once⟩
        · exact List.forall_mem_cons.mpr
            ⟨fresh, fun name member again =>
              unseen name member (List.mem_cons_of_mem _ again)⟩

theorem passes_of_parseBlock {body : BindingBody} (read : parseBlock c = .ok (body, after)) :
    ∃ opening inner closing entries, c.Passes (opening :: (inner ++ [closing])) after ∧
      opening.Is .openBrace ∧ Parameters c.file inner entries ∧ (entries.map Prod.fst).Nodup ∧
      closing.Is .closeBrace ∧
      body = .block entries (cover c.file (opening :: (inner ++ [closing]))) := by
  unfold parseBlock at read
  obtain ⟨d, readOpening, read⟩ := ok_of_bind read
  obtain ⟨⟨entries, e⟩, readEntries, read⟩ := ok_of_bind read
  obtain ⟨f, readClosing, read⟩ := ok_of_bind read
  obtain ⟨opening, openingPassed, opens⟩ := passes_of_expect readOpening
  obtain ⟨inner, innerPassed, parameters, once, _⟩ := passes_of_parseBlockEntries readEntries
  obtain ⟨closing, closingPassed, closes⟩ := passes_of_expect readClosing
  have passed := openingPassed.cons (innerPassed.trans closingPassed)
  rw [openingPassed.file] at parameters
  cases read
  rw [passed.spanTo (List.cons_ne_nil _ _)]
  exact ⟨opening, inner, closing, entries, passed, opens, parameters, once, closes, rfl⟩

/-- What an assignment is depends on the segments of its target. -/
theorem eq_of_assign {scope : Scope} {path : DottedName} (nonempty : path.segments ≠ [])
    {target : Span} {value : Expr} {body : StatementBody}
    (assigned : assign scope path target value = .ok body) :
    (∃ name, scope = .root ∧ path = ⟨[name]⟩ ∧ body = .macroDef name value) ∨
      ∃ symbol param, symbol.segments ≠ [] ∧ path = symbol.append param ∧
        body = .binding ⟨scope, symbol, .single param value⟩ := by
  obtain ⟨segments⟩ := path
  obtain ⟨above, last, rfl⟩ := (List.eq_nil_or_concat segments).resolve_left nonempty
  cases above with
  | nil =>
    obtain ⟨_ | _⟩ := scope
    · cases assigned
      exact .inl ⟨last, rfl, rfl, rfl⟩
    · cases assigned
  | cons first above =>
    have nonempty : (DottedName.mk (first :: above)).segments ≠ [] := List.cons_ne_nil _ _
    have same := assign_append scope nonempty last target value
    rw [List.concat_eq_append] at assigned ⊢
    exact .inr ⟨_, last, nonempty, rfl, (Except.ok.inj (same.symm.trans assigned)).symm⟩

theorem takes_of_parseAssignment {body : StatementBody}
    (plain : ∀ token ∈ c.peek?, opensOther token = false)
    (read : parseAssignment c = .ok (body, after)) : Takes c body after := by
  unfold parseAssignment at read
  obtain ⟨⟨⟨scope, path⟩, d⟩, readTarget, read⟩ := ok_of_bind read
  obtain ⟨ls, names, targetPassed, rfl, qualified⟩ := Cursor.passes_of_scopedName readTarget
  have target : Target ls ⟨[] ++ names⟩ path := by
    refine ⟨qualified, fun l member => plain l.token ?_⟩
    obtain ⟨first, rest, _, rfl, _⟩ := qualified.exists_cons
    cases member
    rw [Cursor.peek?, targetPassed.rest]
    rfl
  dsimp only at read
  split at read
  · rename_i seen
    obtain ⟨colon, colonPassed, isColon⟩ := passes_of_sees seen
    obtain ⟨⟨block, e⟩, readBlock, read⟩ := ok_of_bind read
    obtain ⟨opening, inner, closing, entries, blockPassed, opens, parameters, once, closes, rfl⟩ :=
      passes_of_parseBlock readBlock
    have file : d.advance.file = c.file := colonPassed.file.trans targetPassed.file
    rw [file] at parameters
    cases read
    rw [file]
    exact takes_of_no_alias (targetPassed.trans (colonPassed.cons blockPassed))
      (.block target isColon opens parameters once closes) rfl
  · obtain ⟨e, readEquals, read⟩ := ok_of_bind read
    obtain ⟨⟨value, f⟩, readValue, read⟩ := ok_of_bind read
    obtain ⟨body, assigned, read⟩ := ok_of_bind read
    obtain ⟨equals, equalsPassed, isEquals⟩ := passes_of_expect readEquals
    obtain ⟨values, valuePassed, isValue⟩ := Expr.passes_of_parseAt readValue
    rw [equalsPassed.file, targetPassed.file] at isValue
    have passed := targetPassed.trans (equalsPassed.cons valuePassed)
    cases read
    rcases eq_of_assign qualified.segments_ne_nil assigned with
      ⟨name, rootScope, rfl, rfl⟩ | ⟨symbol, param, nonempty, rfl, rfl⟩
    · rw [rootScope] at target
      exact takes_of_no_alias passed (.macroDef target isEquals isValue) rfl
    · exact takes_of_no_alias passed (.single target nonempty isEquals isValue) rfl

theorem takes_of_parseBody {body : StatementBody} (read : parseBody c = .ok (body, after)) :
    Takes c body after := by
  unfold parseBody at read
  split at read
  · rename_i next
    obtain ⟨word, passes, isWord⟩ := Cursor.passes_of_peek? next
    exact takes_of_parseImport passes isWord read
  · rename_i next
    obtain ⟨word, passes, isWord⟩ := Cursor.passes_of_peek? next
    exact takes_of_parseFromImport passes isWord read
  · rename_i next
    obtain ⟨word, passes, isWord⟩ := Cursor.passes_of_peek? next
    exact takes_of_parseInclude passes isWord read
  · rename_i token noImport noFrom noInclude next
    split at read
    · refine takes_of_parseAssignment (fun other member => ?_) read
      rw [next] at member
      cases member
      unfold opensOther
      split
      · exact absurd rfl noImport
      · exact absurd rfl noFrom
      · exact absurd rfl noInclude
      · rfl
    · cases read
  · cases read

theorem takes_of_parseAt {statement : Statement} (read : parseAt c = .ok (statement, after)) :
    ∃ ls, c.Passes ls after ∧ Spells c.file ls statement ∧
      (takesAlias statement.body = true → ¬ after.sees .kwAs = true) := by
  unfold parseAt at read
  obtain ⟨⟨body, d⟩, readBody, read⟩ := ok_of_bind read
  obtain ⟨ls, passed, said, ends⟩ := takes_of_parseBody readBody
  have nonempty : ls ≠ [] := by
    obtain ⟨l, rest, _, rfl, _⟩ := said.exists_cons
    exact List.cons_ne_nil _ _
  cases read
  exact ⟨ls, passed, ⟨said, passed.spanTo nonempty⟩, ends⟩

/-- Statements are read to the end; each takes a lexeme. -/
theorem statements_of_parseAll {fuel : Nat} (enough : c.rest.length ≤ fuel)
    {statements : List Statement} (read : parseAll fuel c = .ok statements) :
    Statements c.file c.rest statements := by
  induction fuel generalizing c statements with
  | zero =>
    rw [List.eq_nil_of_length_eq_zero (Nat.le_zero.mp enough)]
    cases read
    exact .nil
  | succ fuel ih =>
    unfold parseAll at read
    split at read
    · rename_i ended
      rw [List.isEmpty_iff.mp ended]
      cases read
      exact .nil
    · obtain ⟨⟨statement, d⟩, readFirst, read⟩ := ok_of_bind read
      obtain ⟨others, readOthers, read⟩ := ok_of_bind read
      obtain ⟨ls, passed, spells, ends⟩ := takes_of_parseAt readFirst
      have shorter : d.rest.length ≤ fuel := by
        obtain ⟨l, rest, _, rfl, _⟩ := spells.body.exists_cons
        rw [passed.rest, List.length_append, List.length_cons] at enough
        omega
      have following := ih shorter readOthers
      rw [passed.file] at following
      cases read
      rw [passed.rest]
      refine .cons spells following fun takes l next isAs => ends takes ?_
      rw [Cursor.sees, Cursor.peek?, next, Option.map_some, isAs, beq_self_eq_true]

/-- What is read as statements is derived from the tokens. -/
theorem statements_of_ofLexemes {file : Nat} {lexemes : List Lexeme} {statements : List Statement}
    (read : ofLexemes file lexemes = .ok statements) : Statements file lexemes statements :=
  statements_of_parseAll (c := Cursor.start file lexemes) (Nat.le_refl _) read

/-! ## Statements that are there -/

open Cursor (past_past rest_past rest_past_one spanTo_past advance_eq_past peek?_of_rest
  sees_of_rest not_sees_of_rest apart_of_is apart_of_names begins_of_is begins_of_names expect_past
  expectName_past dotted_past)

variable {ls more : List Lexeme}

theorem parseAsName_past {asName : Option String} (named : Alias ls asName)
    (ends : asName.isNone = true →
      ∀ token ∈ (more.map Lexeme.token).head?, token ≠ .mark .kwAs)
    (next : c.rest = ls ++ more) : parseAsName c = .ok (asName, c.past ls) := by
  unfold parseAsName
  cases named with
  | none =>
    rw [if_neg (not_sees_of_rest next (ends rfl))]
    rfl
  | @some word l name isWord named =>
    rw [if_pos (sees_of_rest next isWord), advance_eq_past next,
      ok_bind (expectName_past (rest_past_one next) named), past_past]
    rfl

/-- An alias begins with its keyword, which goes on with no name. -/
theorem begins_alias {asName : Option String} (named : Alias ls asName)
    (ends : Begins Token.endsValue (more.map Lexeme.token)) :
    Begins Token.endsValue ((ls ++ more).map Lexeme.token) := by
  cases named with
  | none => exact ends
  | some isWord => exact begins_of_is isWord rfl _

theorem skip_past {m : Mark} (optional : Optional m ls)
    (apart : ∀ token ∈ (more.map Lexeme.token).head?, token ≠ .mark m)
    (next : c.rest = ls ++ more) : c.skip m = c.past ls := by
  unfold Cursor.skip
  cases optional with
  | no =>
    rw [if_neg (not_sees_of_rest next apart)]
    rfl
  | yes is => rw [if_pos (sees_of_rest next is), advance_eq_past next]

theorem parseBlockEntries_past {file : Nat} {entries : List (String × Expr)}
    (parameters : Parameters file ls entries) (once : (entries.map Prod.fst).Nodup)
    {seen : List String} (unseen : ∀ name ∈ entries.map Prod.fst, name ∉ seen)
    {closing : Lexeme} (closes : closing.Is .closeBrace) {fuel : Nat}
    (enough : entries.length < fuel) (sameFile : c.file = file)
    (next : c.rest = ls ++ closing :: more) :
    parseBlockEntries fuel seen c = .ok (entries, c.past ls) := by
  induction parameters generalizing c seen fuel with
  | nil =>
    cases fuel with
    | zero => cases enough
    | succ fuel =>
      unfold parseBlockEntries
      rw [if_pos (sees_of_rest next closes)]
      rfl
  | @cons l equals name value ls comma rest entries named isEquals derived optional parameters ih =>
    cases fuel with
    | zero => cases enough
    | succ fuel =>
      obtain ⟨fresh, onceMore⟩ := List.nodup_cons.mp once
      obtain ⟨firstUnseen, othersUnseen⟩ := List.forall_mem_cons.mp unseen
      have start : c.rest = l :: equals :: (ls ++ (comma ++ (rest ++ closing :: more))) := by
        rw [next]
        simp
      have afterName := rest_past_one start
      have afterEquals := rest_past_one afterName
      have afterValue := rest_past afterEquals
      have afterComma := rest_past afterValue
      -- What follows the comma is another parameter or the closing brace.
      have following : Begins Token.endsValue ((rest ++ closing :: more).map Lexeme.token) ∧
          ∀ token ∈ ((rest ++ closing :: more).map Lexeme.token).head?, token ≠ .mark .comma := by
        cases parameters with
        | nil => exact ⟨begins_of_is closes rfl _, apart_of_is closes (by decide) _⟩
        | cons named => exact ⟨begins_of_names named _, apart_of_names named rfl _⟩
      have ends : Begins Token.endsValue
          ((comma ++ (rest ++ closing :: more)).map Lexeme.token) := by
        cases optional with
        | no => exact following.1
        | yes isComma => exact begins_of_is isComma rfl _
      have unseenMore : ∀ other ∈ entries.map Prod.fst, other ∉ name :: seen := by
        intro other member again
        rcases List.mem_cons.mp again with rfl | before
        · exact fresh member
        · exact othersUnseen other member before
      subst sameFile
      unfold parseBlockEntries
      rw [if_neg (not_sees_of_rest start (apart_of_names named rfl _)),
        ok_bind (expectName_past start named)]
      dsimp only
      rw [if_neg firstUnseen, ok_bind (expect_past afterName isEquals),
        ok_bind (Expr.parseAt_past (c := (c.past [l]).past [equals]) derived afterEquals ends)]
      dsimp only
      rw [skip_past optional following.2 afterValue,
        ok_bind (ih (c := (((c.past [l]).past [equals]).past ls).past comma) onceMore unseenMore
          (Nat.lt_of_succ_lt_succ enough) rfl afterComma)]
      simp only [past_past, List.append_assoc]
      rfl

theorem parseBlock_past {opening closing : Lexeme} {inner : List Lexeme}
    {entries : List (String × Expr)} (opens : opening.Is .openBrace)
    (parameters : Parameters c.file inner entries) (once : (entries.map Prod.fst).Nodup)
    (closes : closing.Is .closeBrace) (next : c.rest = opening :: (inner ++ [closing]) ++ more) :
    parseBlock c = .ok (.block entries (cover c.file (opening :: (inner ++ [closing]))),
      c.past (opening :: (inner ++ [closing]))) := by
  obtain ⟨inside, behind, whole⟩ := Expr.rest_enclosed next
  have enough : entries.length < (c.past [opening]).rest.length + 1 := by
    rw [inside, List.length_append]
    have := parameters.length_le
    omega
  unfold parseBlock
  rw [ok_bind (expect_past next opens),
    ok_bind (parseBlockEntries_past (c := c.past [opening]) parameters once
      (fun _ _ => List.not_mem_nil) closes enough rfl inside)]
  dsimp only
  rw [ok_bind (expect_past behind closes), whole, spanTo_past next (List.cons_ne_nil _ _)]
  rfl

/-- An assignment is read as what its target makes of it. -/
theorem parseAssignment_past {values : List Lexeme} {equals : Lexeme} {scope : Scope}
    {path : DottedName} {value : Expr} {body : StatementBody} (target : Target ls scope path)
    (isEquals : equals.Is .equals) (derived : Value c.file values value)
    (assigned : ∀ span, assign scope path span value = .ok body)
    (next : c.rest = ls ++ equals :: values ++ more)
    (ends : Begins Token.endsValue (more.map Lexeme.token)) :
    parseAssignment c = .ok (body, c.past (ls ++ equals :: values)) := by
  have start : c.rest = ls ++ equals :: (values ++ more) := by
    rw [next, List.append_assoc]
    rfl
  have afterTarget := rest_past start
  have afterEquals := rest_past_one afterTarget
  have named : c.scopedName .bindingTarget Cursor.here [] = _ :=
    Cursor.scopedName_past target.path (begins_of_is isEquals rfl _) [] start
  unfold parseAssignment
  rw [ok_bind named]
  dsimp only
  rw [if_neg (not_sees_of_rest afterTarget (apart_of_is isEquals (by decide) _)),
    ok_bind (expect_past afterTarget isEquals),
    ok_bind (Expr.parseAt_past (c := (c.past ls).past [equals]) derived afterEquals ends)]
  dsimp only
  rw [List.nil_append, ok_bind (assigned _), past_past, past_past]
  rfl

/-- A target begins a statement that is an assignment. -/
theorem parseBody_of_target {scope : Scope} {path : DottedName} (target : Target ls scope path)
    (next : c.rest = ls ++ more) : parseBody c = parseAssignment c := by
  obtain ⟨l, rest, name, rfl, named⟩ := target.path.exists_cons
  have isName : l.token.name?.isSome = true := by
    rw [named]
    rfl
  have plain : opensOther l.token = false := target.plain l rfl
  unfold parseBody
  rw [peek?_of_rest next]
  split
  · rename_i isImport
    rw [Option.some.inj isImport] at plain
    cases plain
  · rename_i isFrom
    rw [Option.some.inj isFrom] at plain
    cases plain
  · rename_i isInclude
    rw [Option.some.inj isInclude] at plain
    cases plain
  · rename_i token _ _ _ same
    rw [← Option.some.inj same, if_pos isName]
  · cases ‹some _ = none›

theorem parseBody_past {body : StatementBody} (derived : Body c.file ls body)
    (next : c.rest = ls ++ more) (ends : Begins Token.endsValue (more.map Lexeme.token))
    (noAlias : takesAlias body = true →
      ∀ token ∈ (more.map Lexeme.token).head?, token ≠ .mark .kwAs) :
    parseBody c = .ok (body, c.past ls) := by
  cases derived with
  | @importPath word ls as path asName isWord named aliased =>
    have start : c.rest = word :: (ls ++ (as ++ more)) := by
      rw [next, List.cons_append, List.append_assoc]
    have afterWord := rest_past_one start
    have afterPath := rest_past afterWord
    unfold parseBody
    rw [peek?_of_rest start, isWord]
    dsimp only
    unfold parseImport
    rw [advance_eq_past start,
      ok_bind (dotted_past named ((begins_alias aliased ends).ne rfl) afterWord)]
    dsimp only
    rw [ok_bind (parseAsName_past aliased noAlias afterPath), past_past, past_past]
    rfl
  | @importFrom word middle l ls as parent name asName isWord named apart isMiddle isName aliased =>
    have start : c.rest = word :: (ls ++ middle :: l :: (as ++ more)) := by
      rw [next]
      simp
    have afterWord := rest_past_one start
    have afterParent := rest_past afterWord
    have afterMiddle := rest_past_one afterParent
    have afterName := rest_past_one afterMiddle
    have noSwitch : parent.toText ≠ switchModule :=
      mt (parent.toText_eq_iff named.segments_ne_nil (by decide)).mp apart
    unfold parseBody
    rw [peek?_of_rest start, isWord]
    dsimp only
    unfold parseFromImport
    rw [advance_eq_past start,
      ok_bind (dotted_past named (apart_of_is isMiddle (by decide) _) afterWord)]
    dsimp only
    rw [ok_bind (expect_past afterParent isMiddle), ok_bind (expectName_past afterMiddle isName)]
    dsimp only
    rw [if_neg noSwitch, ok_bind (parseAsName_past aliased noAlias afterName)]
    simp only [past_past, List.append_assoc]
    rfl
  | @dynamicRegistration word middle l ls isWord named isMiddle isName =>
    have start : c.rest = word :: (ls ++ middle :: l :: more) := by
      rw [next]
      simp
    have afterWord := rest_past_one start
    have afterParent := rest_past afterWord
    have afterMiddle := rest_past_one afterParent
    unfold parseBody
    rw [peek?_of_rest start, isWord]
    dsimp only
    unfold parseFromImport
    rw [advance_eq_past start,
      ok_bind (dotted_past named (apart_of_is isMiddle (by decide) _) afterWord)]
    dsimp only
    rw [ok_bind (expect_past afterParent isMiddle), ok_bind (expectName_past afterMiddle isName)]
    dsimp only
    have isSwitch : (DottedName.mk [switchModule]).toText = switchModule := rfl
    rw [if_pos isSwitch, if_pos rfl]
    simp only [past_past, List.append_assoc]
    rfl
  | @includeFile word l path isWord isPath =>
    have afterWord : (c.past [word]).rest = l :: more := rest_past next
    unfold parseBody
    rw [peek?_of_rest next, isWord]
    dsimp only
    unfold parseInclude
    rw [advance_eq_past next, peek?_of_rest afterWord, isPath, advance_eq_past afterWord, past_past]
    rfl
  | @macroDef equals ls values name value target isEquals derived =>
    have start : c.rest = ls ++ (equals :: values ++ more) := by
      rw [next, List.append_assoc]
    rw [parseBody_of_target target start]
    exact parseAssignment_past target isEquals derived (fun _ => rfl) next ends
  | @single equals ls values scope symbol param value target nonempty isEquals derived =>
    have start : c.rest = ls ++ (equals :: values ++ more) := by
      rw [next, List.append_assoc]
    rw [parseBody_of_target target start]
    exact parseAssignment_past target isEquals derived
      (fun span => assign_append scope nonempty param span value) next ends
  | @block colon opening closing ls inner scope symbol entries target isColon opens parameters once
      closes =>
    have start : c.rest = ls ++ colon :: (opening :: (inner ++ [closing]) ++ more) := by
      rw [next, List.append_assoc]
      rfl
    have afterTarget := rest_past start
    have afterColon := rest_past_one afterTarget
    have named : c.scopedName .bindingTarget Cursor.here [] = _ :=
      Cursor.scopedName_past target.path (begins_of_is isColon rfl _) [] start
    rw [parseBody_of_target target start]
    unfold parseAssignment
    rw [ok_bind named]
    dsimp only
    rw [if_pos (sees_of_rest afterTarget isColon), advance_eq_past afterTarget,
      ok_bind (parseBlock_past (c := (c.past ls).past [colon]) opens parameters once closes
        afterColon), past_past, past_past, List.append_assoc]
    rfl

theorem parseAt_past {statement : Statement} (spells : Spells c.file ls statement)
    (next : c.rest = ls ++ more) (ends : Begins Token.endsValue (more.map Lexeme.token))
    (noAlias : takesAlias statement.body = true →
      ∀ token ∈ (more.map Lexeme.token).head?, token ≠ .mark .kwAs) :
    parseAt c = .ok (statement, c.past ls) := by
  have nonempty : ls ≠ [] := by
    obtain ⟨l, rest, _, rfl, _⟩ := spells.body.exists_cons
    exact List.cons_ne_nil _ _
  unfold parseAt
  rw [ok_bind (parseBody_past spells.body next ends noAlias)]
  dsimp only
  rw [spanTo_past next nonempty, ← spells.span]
  rfl

/-- Behind a statement comes another one or nothing. -/
theorem begins_statements {file : Nat} {statements : List Statement}
    (derived : Statements file ls statements) :
    Begins Token.endsValue (ls.map Lexeme.token) := by
  cases derived with
  | nil => exact begins_nil _
  | cons spells =>
    obtain ⟨l, rest, _, rfl, named⟩ := spells.body.exists_cons
    exact begins_of_names named _

theorem parseAll_past {file : Nat} {statements : List Statement}
    (derived : Statements file ls statements) {fuel : Nat} (enough : ls.length ≤ fuel)
    (sameFile : c.file = file) (next : c.rest = ls) : parseAll fuel c = .ok statements := by
  induction derived generalizing c fuel with
  | nil =>
    cases fuel with
    | zero => rfl
    | succ fuel =>
      unfold parseAll
      have ended : c.atEnd = true := List.isEmpty_iff.mpr next
      rw [if_pos ended]
  | @cons ls rest statement statements spells others noAlias ih =>
    obtain ⟨l, following, _, same, _⟩ := spells.body.exists_cons
    cases fuel with
    | zero =>
      rw [same] at enough
      cases enough
    | succ fuel =>
      have noEnd : ¬ c.atEnd = true := by
        rw [Cursor.atEnd, next, same]
        exact Bool.false_ne_true
      have smaller : rest.length ≤ fuel := by
        rw [same, List.length_append, List.length_cons] at enough
        omega
      have apart : takesAlias statement.body = true →
          ∀ token ∈ (rest.map Lexeme.token).head?, token ≠ .mark .kwAs := by
        intro takes token member isAs
        rw [List.head?_map] at member
        obtain ⟨l, first, rfl⟩ := Option.map_eq_some_iff.mp member
        exact noAlias takes l first isAs
      subst sameFile
      unfold parseAll
      rw [if_neg noEnd, ok_bind (parseAt_past spells next (begins_statements others) apart)]
      dsimp only
      rw [ok_bind (ih (c := c.past ls) smaller rfl (rest_past next))]
      rfl

theorem ofLexemes_of_statements {file : Nat} {lexemes : List Lexeme} {statements : List Statement}
    (derived : Statements file lexemes statements) : ofLexemes file lexemes = .ok statements :=
  parseAll_past (c := Cursor.start file lexemes) derived (Nat.le_refl _) rfl rfl

/-- The reader accepts exactly what the grammar derives: tokens are read as a sequence of statements
just if they are these statements one after the other. -/
theorem ofLexemes_eq_ok_iff (file : Nat) (lexemes : List Lexeme) (statements : List Statement) :
    ofLexemes file lexemes = .ok statements ↔ Statements file lexemes statements :=
  ⟨statements_of_ofLexemes, ofLexemes_of_statements⟩

theorem tokenize_of_parseSource {file : Nat} {text : String} {statements : List Statement}
    (read : parseSource file text = .ok statements) :
    ∃ lexemes, tokenize text = .ok lexemes ∧ ofLexemes file lexemes = .ok statements := by
  unfold parseSource at read
  split at read
  · cases read
  · exact ⟨_, ‹_›, read⟩

/-- A text of a single assignment reads as a source with this statement alone. -/
theorem parseSource_of_parseAssignmentText {file : Nat} {text : String} {statement : Statement}
    (read : parseAssignmentText file text = .ok statement) :
    parseSource file text = .ok [statement] := by
  unfold parseAssignmentText at read
  unfold parseSource
  split at read
  · cases read
  · rename_i lexemes tokens
    unfold assignmentOfLexemes at read
    obtain ⟨⟨first, c⟩, readFirst, read⟩ := ok_of_bind read
    dsimp only at read
    split at read
    · rename_i ended
      split at read
      · cases read
        obtain ⟨ls, passed, spells, _⟩ := takes_of_parseAt readFirst
        have nothing : c.rest = [] := List.isEmpty_iff.mp ended
        have all : lexemes = ls := by
          have rest := passed.rest
          rw [nothing, List.append_nil] at rest
          exact rest
        subst all
        have alone := Statements.cons spells .nil fun _ _ member => nomatch member
        rw [List.append_nil] at alone
        exact ofLexemes_of_statements alone
      · cases read
    · cases read

end Statement

/-- Tokens say at most one sequence of statements. -/
theorem Grammar.Statements.unique {file : Nat} {lexemes : List Lexeme}
    {first second : List Statement} (derived : Statements file lexemes first)
    (other : Statements file lexemes second) : first = second := by
  have read := Statement.ofLexemes_of_statements derived
  rw [Statement.ofLexemes_of_statements other] at read
  exact (Except.ok.inj read).symm

/-- Each statement is said by some of the tokens that stand behind each other. -/
theorem Grammar.Statements.of_mem {file : Nat} {ls : List Lexeme} {statements : List Statement}
    (derived : Statements file ls statements) {statement : Statement}
    (member : statement ∈ statements) :
    ∃ before piece after, ls = before ++ (piece ++ after) ∧ Spells file piece statement := by
  induction derived with
  | nil => cases member
  | @cons first rest _ _ spells _ _ ih =>
    rcases List.mem_cons.mp member with rfl | later
    · exact ⟨[], first, rest, rfl, spells⟩
    · obtain ⟨before, piece, after, rfl, spellsLater⟩ := ih later
      exact ⟨first ++ before, piece, after, (List.append_assoc ..).symm, spellsLater⟩

end ConfigBinding
