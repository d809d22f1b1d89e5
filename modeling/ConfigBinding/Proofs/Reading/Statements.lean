import ConfigBinding.Proofs.Reading.Bindings

/-!
# Reading statements back

Every kind of statement, as it is written, is read as itself, up to spans. What this takes of a
statement is that its names are names of the language, that its expressions can be read back, that
no keyword of another statement begins it, and that no parameter comes twice in a block.

Results:
1. `StatementBody.Writable.reads`: what is written for a statement reads as its tokens.
2. `Statement.Writable.parseSource_toText`: it is read as this one statement, up to spans.
-/

namespace ConfigBinding

open Lexer

/-! ## Statements without spans -/

def BindingBody.withoutSpans : BindingBody → BindingBody
  | .single param value => .single param value.withoutSpans
  | .block entries _ => .block (entries.map (Prod.map id Expr.withoutSpans)) (Span.zero 0)

/-- What a statement says, wherever its parts stand. -/
def StatementBody.withoutSpans : StatementBody → StatementBody
  | .macroDef name value => .macroDef name value.withoutSpans
  | .binding bound => .binding { bound with body := bound.body.withoutSpans }
  | body => body

/-- The statement, wherever it stands. -/
def Statement.withoutSpans (statement : Statement) : Statement :=
  ⟨statement.body.withoutSpans, Span.zero 0⟩

/-! ## Tokens of statements -/

namespace StatementBody

/-- The statement can be read as it is written. -/
inductive Writable : StatementBody → Prop
  | importPath {path : DottedName} {asName : Option String} :
      path.OfNames → (∀ name ∈ asName, isName name = true) →
        Writable (.importPath ⟨path, asName, false⟩)
  | importFrom {parent : DottedName} {name : String} {asName : Option String} :
      parent.OfNames → parent.toText ≠ Statement.switchModule → isName name = true →
        (∀ name ∈ asName, isName name = true) →
        Writable (.importPath ⟨parent.append name, asName, true⟩)
  | dynamicRegistration : Writable .dynamicRegistration
  | includeFile (path : String) : Writable (.includeFile path)
  | macroDef {name : String} {value : Expr} :
      isName name = true → name ∉ Statement.openingWords → value.Writable →
        Writable (.macroDef name value)
  | single {key : BindingKey} {value : Expr} :
      Statement.Readable (key, value) →
        Writable (.binding ⟨key.scope, key.symbol, .single key.param value⟩)
  | block {scope : Scope} {symbol : DottedName} {entries : List (String × Expr)} (span : Span) :
      scope.OfNames → symbol.OfNames →
        (∀ first ∈ firstSegment? scope symbol, first ∉ Statement.openingWords) →
        (∀ entry ∈ entries, isName entry.1 = true ∧ entry.2.Writable) →
        (entries.map Prod.fst).Nodup →
        Writable (.binding ⟨scope, symbol, .block entries span⟩)

/-- The tokens of `as name`. -/
def aliasTokens : Option String → List Token
  | none => []
  | some name => [.mark .kwAs, nameToken name]

/-- The tokens of a line of a block. -/
def lineTokens (entry : String × Expr) : List Token :=
  nameToken entry.1 :: .mark .equals :: (entry.2.tokens ++ [.mark .comma])

def importTokens (imported : Import) : List Token :=
  (if imported.fromForm then
    .mark .kwFrom :: ((imported.path.parent?.map DottedName.tokens).getD []
      ++ [.mark .kwImport, nameToken (imported.path.last?.getD "")])
  else .mark .kwImport :: imported.path.tokens) ++ aliasTokens imported.asName

def tokens : StatementBody → List Token
  | .importPath imported => importTokens imported
  | .dynamicRegistration =>
    [.mark .kwFrom, .ident Statement.switchModule, .mark .kwImport, .ident Statement.switchName]
  | .includeFile path => [.mark .kwInclude, .str path]
  | .macroDef name value => nameToken name :: .mark .equals :: value.tokens
  | .binding ⟨scope, symbol, .single param value⟩ =>
    Statement.bindingTokens (⟨scope, symbol, param⟩, value)
  | .binding ⟨scope, symbol, .block entries _⟩ =>
    scope.tokens ++ (symbol.tokens ++ .mark .colon :: .mark .openBrace ::
      (entries.flatMap lineTokens ++ [.mark .closeBrace]))

end StatementBody

/-! ## What is written reads as these tokens -/

namespace Lexer

theorem lexes_blanks {cs : List Char} (blank : ∀ c ∈ cs, isBlank c = true) :
    Lexes nothing cs [] := by
  induction cs with
  | nil => exact lexes_nil _
  | cons c cs ih =>
    obtain ⟨first, others⟩ := List.forall_mem_cons.mp blank
    exact (lexes_blank first).append (ih others) fun _ _ => stops_nothing _

/-- A keyword with blanks around it. -/
theorem lexes_keyword {m : Mark} (word : nameToken m.spelling = .mark m)
    (named : isName m.spelling = true) (before : List Char)
    (blank : ∀ c ∈ before, isBlank c = true) :
    Lexes nothing (before ++ (m.spelling.toList ++ [' '])) [.mark m] := by
  have keyword := lexes_name named
  rw [word] at keyword
  exact (lexes_blanks blank).append (keyword.append (lexes_blank (c := ' ') rfl)
    fun _ _ => stops_cons (c := ' ') rfl _) fun _ _ => stops_nothing _

end Lexer

namespace StatementBody

/-- A name may go on with an alias. -/
theorem lexes_alias {piece : List Char} {tokens : List Token}
    (lexes : Lexes isNameChar piece tokens) {asName : Option String}
    (named : ∀ name ∈ asName, isName name = true) :
    Lexes isNameChar (piece ++ (match asName with
      | some name => " as " ++ name
      | none => "").toList) (tokens ++ aliasTokens asName) := by
  cases asName with
  | none =>
    rw [aliasTokens, List.append_nil]
    exact (List.append_nil piece).symm ▸ lexes
  | some name =>
    have keyword : Lexes nothing " as ".toList [.mark .kwAs] :=
      lexes_keyword (m := .kwAs) rfl rfl [' '] (List.forall_mem_singleton.mpr rfl)
    rw [String.toList_append]
    exact lexes.append (keyword.append (lexes_name (named name rfl)) fun _ _ => stops_nothing _)
      fun _ _ => stops_cons (c := ' ') rfl _

theorem lexes_import {imported : Import} (writable : Writable (.importPath imported)) :
    Lexes isNameChar imported.toText.toList (importTokens imported) := by
  cases writable with
  | importPath named asNamed =>
    have keyword : Lexes nothing "import ".toList [.mark .kwImport] :=
      lexes_keyword (m := .kwImport) rfl rfl [] nofun
    unfold Import.toText importTokens
    rw [if_neg Bool.false_ne_true, if_neg Bool.false_ne_true, String.toList_append,
      String.toList_append]
    exact lexes_alias (keyword.append named.lexes fun _ _ => stops_nothing _) asNamed
  | @importFrom parent name asName named _ isName asNamed =>
    have keyword : Lexes nothing "from ".toList [.mark .kwFrom] :=
      lexes_keyword (m := .kwFrom) rfl rfl [] nofun
    have middle : Lexes nothing " import ".toList [.mark .kwImport] :=
      lexes_keyword (m := .kwImport) rfl rfl [' '] (List.forall_mem_singleton.mpr rfl)
    have path := named.lexes.append (middle.append (lexes_name isName) fun _ _ => stops_nothing _)
      fun _ _ => stops_cons (c := ' ') rfl _
    unfold Import.toText importTokens
    dsimp only
    rw [if_pos rfl, if_pos rfl, DottedName.parent?_append named.nonempty, DottedName.last?_append,
      String.toList_append, String.toList_append, String.toList_append, String.toList_append,
      List.append_assoc "from ".toList, List.append_assoc "from ".toList,
      List.append_assoc parent.toText.toList]
    exact lexes_alias (keyword.append path fun _ _ => stops_nothing _) asNamed

end StatementBody

namespace Statement

theorem lexes_line {entry : String × Expr} (named : isName entry.1 = true)
    (writable : entry.2.Writable) :
    Lexes nothing ("    " ++ entry.1 ++ " = " ++ entry.2.toText ++ ",\n").toList
      (StatementBody.lineTokens entry) := by
  have blanks : ∀ c ∈ "    ".toList, isBlank c = true := fun c member =>
    List.eq_of_mem_replicate (n := 4) (a := ' ') member ▸ rfl
  have indent : Lexes nothing "    ".toList [] := lexes_blanks blanks
  have comma : Lexes nothing ",\n".toList [.mark .comma] :=
    (lexes_mark (c := ',') rfl).append (lexes_blank (c := '\n') rfl) fun _ _ => stops_nothing _
  have value := writable.lexes.append comma fun _ _ => stops_cons (c := ',') rfl _
  have line := (lexes_name named).append (lexes_equals.append value fun _ _ => stops_nothing _)
    fun _ _ => stops_cons (c := ' ') rfl _
  simp only [String.toList_append, List.append_assoc]
  exact indent.append line fun _ _ => stops_nothing _

/-- What is written for a statement reads as its tokens. -/
theorem reads_toText {statement : Statement} (writable : statement.body.Writable) :
    Reads statement.toText.toList statement.body.tokens := by
  obtain ⟨body, span⟩ := statement
  unfold toText
  cases body with
  | importPath imported => exact (StatementBody.lexes_import writable).reads
  | dynamicRegistration =>
    have keyword : Lexes nothing "from ".toList [.mark .kwFrom] :=
      lexes_keyword (m := .kwFrom) rfl rfl [] nofun
    have middle : Lexes nothing " import ".toList [.mark .kwImport] :=
      lexes_keyword (m := .kwImport) rfl rfl [' '] (List.forall_mem_singleton.mpr rfl)
    have module : Lexes isNameChar switchModule.toList [.ident switchModule] := lexes_name rfl
    have name : Lexes isNameChar switchName.toList [.ident switchName] := lexes_name rfl
    have imported := module.append (middle.append name fun _ _ => stops_nothing _)
      fun _ _ => stops_cons (c := ' ') rfl _
    have text : "from __gin__ import dynamic_registration".toList = "from ".toList ++
        (switchModule.toList ++ (" import ".toList ++ switchName.toList)) := rfl
    dsimp only
    rw [text]
    exact (keyword.append imported fun _ _ => stops_nothing _).reads
  | includeFile path => 
    have keyword : Lexes nothing "include ".toList [.mark .kwInclude] :=
      lexes_keyword (m := .kwInclude) rfl rfl [] nofun
    dsimp only
    rw [String.toList_append]
    exact (keyword.append (lexes_quote path) fun _ _ => stops_nothing _).reads
  | macroDef name value => 
    cases writable with
    | macroDef named _ value =>
      dsimp only
      rw [String.toList_append, String.toList_append, List.append_assoc]
      exact ((lexes_name named).append (lexes_equals.append value.lexes fun _ _ => stops_nothing _)
        fun _ _ => stops_cons (c := ' ') rfl _).reads
  | binding bound =>
    cases writable with
    | @single key value readable =>
      dsimp only [Binding.toText, Binding.targetText]
      rw [Scope.qualify_append, ← String.append_assoc]
      exact (lexes_binding readable.legible).reads
    | @block scope symbol entries _ inner named plain lines once =>
      have opening : Lexes nothing ": \x7b\n".toList [.mark .colon, .mark .openBrace] :=
        (lexes_mark (c := ':') rfl).append ((lexes_blank (c := ' ') rfl).append
          ((lexes_mark (c := '\x7b') rfl).append (lexes_blank (c := '\n') rfl)
            fun _ _ => stops_nothing _) fun _ _ => stops_nothing _) fun _ _ => stops_nothing _
      have closing : Lexes nothing "\x7d".toList [.mark .closeBrace] :=
        lexes_mark (c := '\x7d') rfl
      have parameters := lexes_flatMap fun entry member =>
        lexes_line (lines entry member).1 (lines entry member).2
      have target := inner.lexes named.lexes
      have whole := target.append (opening.append (parameters.append closing
        fun _ _ => stops_nothing _) fun _ _ => stops_nothing _)
        fun _ _ => stops_cons (c := ':') rfl _
      dsimp only [Binding.toText, Binding.targetText]
      rw [String.append_empty, String.toList_append, String.toList_append, String.toList_append,
        String.toList_join, List.flatMap_map, List.append_assoc, List.append_assoc]
      rw [List.append_assoc] at whole
      exact whole.reads

/-! ## Statements that are read -/

section

variable {more : List Token} {c : Cursor}

theorem parses_parseAsName {asName : Option String} (named : ∀ name ∈ asName, isName name = true)
    (tokens : c.tokens = StatementBody.aliasTokens asName) :
    Parses (parseAsName c) (· = asName) [] := by
  unfold parseAsName
  cases asName with
  | none =>
    rw [if_neg (Cursor.not_sees_of_tokens tokens nofun)]
    exact .ok rfl tokens
  | some name =>
    rw [if_pos (Cursor.sees_of_tokens tokens)]
    refine (Cursor.parses_expectName (named name rfl) (Cursor.advance_of_tokens tokens)).bind
      fun _ c same tokens => ?_
    rw [same]
    exact .ok rfl tokens

theorem begins_aliasTokens (asName : Option String) :
    Begins Token.endsValue (StatementBody.aliasTokens asName) := by
  cases asName with
  | none => exact begins_nil _
  | some name => exact begins_cons rfl _

/-- The parameters of a block are read back line by line. -/
theorem parses_parseBlockEntries {entries : List (String × Expr)}
    (readable : ∀ entry ∈ entries, isName entry.1 = true ∧ entry.2.Writable)
    (once : (entries.map Prod.fst).Nodup) {seen : List String}
    (unseen : ∀ name ∈ entries.map Prod.fst, name ∉ seen) {fuel : Nat}
    (enough : entries.length < fuel)
    (tokens : c.tokens = entries.flatMap StatementBody.lineTokens ++ .mark .closeBrace :: more) :
    Parses (parseBlockEntries fuel seen c) (Expr.EntriesRead entries)
      (.mark .closeBrace :: more) := by
  induction entries generalizing c seen fuel with
  | nil =>
    cases fuel with
    | zero => cases enough
    | succ fuel =>
      have closed : c.tokens = .mark .closeBrace :: more := tokens
      unfold parseBlockEntries
      rw [if_pos (Cursor.sees_of_tokens closed)]
      exact .ok rfl closed
  | cons entry entries ih =>
    cases fuel with
    | zero => cases enough
    | succ fuel =>
      obtain ⟨⟨named, writable⟩, others⟩ := List.forall_mem_cons.mp readable
      obtain ⟨fresh, onceMore⟩ := List.nodup_cons.mp once
      obtain ⟨firstUnseen, othersUnseen⟩ := List.forall_mem_cons.mp unseen
      have split : c.tokens = nameToken entry.1 :: .mark .equals :: (entry.2.tokens ++
          .mark .comma ::
            (entries.flatMap StatementBody.lineTokens ++ .mark .closeBrace :: more)) := by
        rw [tokens, List.flatMap_cons, StatementBody.lineTokens]
        simp
      have noClose : nameToken entry.1 ≠ .mark .closeBrace := by
        intro same
        have name := name?_nameToken named
        rw [same] at name
        cases name
      have unseenMore : ∀ name ∈ entries.map Prod.fst, name ∉ entry.1 :: seen := by
        intro name member again
        rcases List.mem_cons.mp again with rfl | before
        · exact fresh member
        · exact othersUnseen name member before
      unfold parseBlockEntries
      rw [if_neg (Cursor.not_sees_of_cons split noClose)]
      refine (Cursor.parses_expectName named split).bind fun name c sameName tokens => ?_
      dsimp only
      rw [sameName, if_neg firstUnseen]
      refine .expect tokens fun c tokens => ?_
      refine (writable.parses_parseAt tokens (begins_cons rfl _)).bind
        fun value c sameValue tokens => ?_
      have skipped : c.skip .comma = c.advance := by
        rw [Cursor.skip, if_pos (Cursor.sees_of_tokens tokens)]
      dsimp only
      rw [skipped]
      refine (ih others onceMore unseenMore (Nat.lt_of_succ_lt_succ enough)
        (Cursor.advance_of_tokens tokens)).bind fun readEntries c sameEntries tokens =>
          .ok ?_ tokens
      rw [Expr.EntriesRead, List.map_cons, List.map_cons, sameEntries, Prod.map, Prod.map,
        sameValue]

theorem length_le_lineTokens (entries : List (String × Expr)) :
    entries.length ≤ (entries.flatMap StatementBody.lineTokens).length := by
  induction entries with
  | nil => exact Nat.le_refl 0
  | cons entry entries ih =>
    rw [List.flatMap_cons, List.length_append, StatementBody.lineTokens, List.length_cons,
      List.length_cons]
    omega

theorem parses_parseBlock {entries : List (String × Expr)}
    (readable : ∀ entry ∈ entries, isName entry.1 = true ∧ entry.2.Writable)
    (once : (entries.map Prod.fst).Nodup)
    (tokens : c.tokens = .mark .openBrace ::
      (entries.flatMap StatementBody.lineTokens ++ [.mark .closeBrace])) :
    Parses (parseBlock c) (fun body => ∃ read span, body = .block read span ∧
      Expr.EntriesRead entries read) [] := by
  unfold parseBlock
  refine .expect tokens fun inner tokens => ?_
  have enough : entries.length < inner.rest.length + 1 := by
    rw [Cursor.length_rest, tokens, List.length_append]
    have := length_le_lineTokens entries
    omega
  refine (parses_parseBlockEntries readable once (fun _ _ => List.not_mem_nil) enough tokens).bind
    fun read c same tokens => .expect tokens fun c tokens => .ok ⟨read, _, rfl, same⟩ tokens

/-- A statement is read back from its tokens. -/
theorem parses_parseBody {body : StatementBody} (writable : body.Writable)
    (tokens : c.tokens = body.tokens) :
    Parses (parseBody c) (fun read => read.withoutSpans = body.withoutSpans) [] := by
  cases writable with
  | @importPath path asName named asNamed =>
    have split : c.tokens = .mark .kwImport :: (path.tokens ++ StatementBody.aliasTokens asName) :=
      tokens
    unfold parseBody
    rw [Cursor.peek?_of_tokens split]
    dsimp only
    unfold parseImport
    refine (Cursor.parses_dotted named ((begins_aliasTokens asName).ne rfl)
      (Cursor.advance_of_tokens split)).bind fun _ c samePath tokens => ?_
    refine (parses_parseAsName asNamed tokens).bind fun _ c sameName tokens => ?_
    rw [samePath, sameName]
    exact .ok rfl tokens
  | @importFrom parent name asName named apart isName asNamed =>
    have split : c.tokens = .mark .kwFrom :: (parent.tokens ++ .mark .kwImport ::
        nameToken name :: StatementBody.aliasTokens asName) := by
      rw [tokens, StatementBody.tokens, StatementBody.importTokens, if_pos rfl,
        DottedName.parent?_append named.nonempty, DottedName.last?_append]
      simp
    have ends : Begins Token.endsValue
        (.mark .kwImport :: nameToken name :: StatementBody.aliasTokens asName) :=
      begins_cons rfl _
    unfold parseBody
    rw [Cursor.peek?_of_tokens split]
    dsimp only
    unfold parseFromImport
    refine (Cursor.parses_dotted named (ends.ne rfl) (Cursor.advance_of_tokens split)).bind
      fun _ c samePath tokens => ?_
    refine .expect tokens fun c tokens => ?_
    refine (Cursor.parses_expectName isName tokens).bind fun _ c sameName tokens => ?_
    dsimp only
    rw [samePath, if_neg apart]
    refine (parses_parseAsName asNamed tokens).bind fun _ c sameAlias tokens => ?_
    rw [sameName, sameAlias]
    exact .ok rfl tokens
  | dynamicRegistration =>
    have split : c.tokens = .mark .kwFrom :: ((DottedName.mk [switchModule]).tokens ++
        [.mark .kwImport, nameToken switchName]) := tokens
    have named : (DottedName.mk [switchModule]).OfNames := by decide
    have isName : isName switchName = true := rfl
    have ends : Begins Token.endsValue [.mark .kwImport, nameToken switchName] := begins_cons rfl _
    unfold parseBody
    rw [Cursor.peek?_of_tokens split]
    dsimp only
    unfold parseFromImport
    refine (Cursor.parses_dotted named (ends.ne rfl) (Cursor.advance_of_tokens split)).bind
      fun _ c samePath tokens => ?_
    refine .expect tokens fun c tokens => ?_
    refine (Cursor.parses_expectName isName tokens).bind fun _ c sameName tokens => ?_
    dsimp only
    rw [samePath, sameName]
    exact .ok rfl tokens
  | includeFile path =>
    have split : c.tokens = [.mark .kwInclude, .str path] := tokens
    unfold parseBody
    rw [Cursor.peek?_of_tokens split]
    dsimp only
    unfold parseInclude
    rw [Cursor.peek?_of_tokens (Cursor.advance_of_tokens split)]
    exact .ok rfl (Cursor.advance_of_tokens (Cursor.advance_of_tokens split))
  | @macroDef name value named plain readable =>
    have one : (DottedName.mk [name]).OfNames :=
      ⟨List.cons_ne_nil _ _, List.forall_mem_singleton.mpr named⟩
    have split : c.tokens = (Scope.root).tokens ++ ((DottedName.mk [name]).tokens ++
        .mark .equals :: (value.tokens ++ [])) := by
      rw [tokens, List.append_nil]
      rfl
    rw [parseBody_of_name (Cursor.peek?_of_tokens split) (name?_nameToken named) plain]
    unfold parseAssignment
    refine (Cursor.parses_scopedName (List.forall_mem_nil _) one (begins_cons rfl _)
      split).bind fun _ c same tokens => ?_
    dsimp only
    rw [if_neg (Cursor.not_sees_of_cons (m := .colon) tokens nofun)]
    refine .expect tokens fun c tokens => ?_
    refine (readable.parses_parseAt tokens (begins_nil _)).bind fun value c sameValue tokens => ?_
    rw [same]
    exact .ok (by rw [StatementBody.withoutSpans, sameValue]; rfl) tokens
  | @single key value readable =>
    have split : c.tokens = bindingTokens (key, value) ++ [] := by
      rw [tokens, List.append_nil]
      rfl
    obtain ⟨first, others, segment, named, start⟩ := readable.named.exists_tokens_eq
    have next : c.peek? = some (nameToken first) := by
      rw [bindingTokens, start] at split
      exact Cursor.peek?_of_tokens split
    rw [parseBody_of_name next (name?_nameToken named) (readable.plain first segment)]
    refine (parses_assignment readable (begins_nil _) split).mono fun body gives => ?_
    obtain ⟨read, rfl, same⟩ := gives (Span.zero 0)
    rw [StatementBody.withoutSpans, BindingBody.withoutSpans, same]
    rfl
  | @block scope symbol entries span inner named plain readable once =>
    have split : c.tokens = scope.tokens ++ (symbol.tokens ++ .mark .colon :: .mark .openBrace ::
        (entries.flatMap StatementBody.lineTokens ++ [.mark .closeBrace])) := tokens
    obtain ⟨first, others, segment, isName, start⟩ := exists_targetTokens_eq inner named
    have next : c.peek? = some (nameToken first) := by
      rw [← List.append_assoc, start] at split
      exact Cursor.peek?_of_tokens split
    rw [parseBody_of_name next (name?_nameToken isName) (plain first segment)]
    unfold parseAssignment
    refine (Cursor.parses_scopedName inner named (begins_cons rfl _) split).bind
      fun _ c same tokens => ?_
    dsimp only
    rw [same, if_pos (Cursor.sees_of_tokens tokens)]
    refine (parses_parseBlock readable once (Cursor.advance_of_tokens tokens)).bind
      fun read c gives tokens => .ok ?_ tokens
    obtain ⟨read, span, rfl, sameEntries⟩ := gives
    rw [StatementBody.withoutSpans, BindingBody.withoutSpans, sameEntries]
    rfl

end

/-- A statement as it is written is read as this one statement, up to spans. -/
theorem parseSource_toText {statement : Statement} (writable : statement.body.Writable)
    (file : Nat) : ∃ again, parseSource file statement.toText = .ok [again] ∧
      again.withoutSpans = statement.withoutSpans := by
  obtain ⟨lexemes, read, same⟩ := tokenize_of_reads (reads_toText writable)
  obtain ⟨body, after, parsed, sameBody, ended⟩ :=
    parses_parseBody (c := Cursor.start file lexemes) writable same
  have atEnd : after.atEnd = true := by
    rw [Cursor.atEnd_eq, ended]
    rfl
  have ends (fuel : Nat) : parseAll fuel after = .ok [] := by
    cases fuel with
    | zero => rfl
    | succ fuel => rw [parseAll, if_pos atEnd]
  unfold parseSource
  rw [read]
  dsimp only
  cases lexemes with
  | nil => cases parsed
  | cons l ls =>
    have start : ¬ (Cursor.start file (l :: ls)).atEnd = true := Bool.false_ne_true
    refine ⟨⟨body, (Cursor.start file (l :: ls)).spanTo after⟩, ?_, ?_⟩
    · rw [ofLexemes, List.length_cons, parseAll, if_neg start, parseAt, parsed]
      show (parseAll ls.length after >>= _) = _
      rw [ends]
      rfl
    · rw [withoutSpans, withoutSpans, sameBody]

end Statement

end ConfigBinding
