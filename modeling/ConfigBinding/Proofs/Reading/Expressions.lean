import ConfigBinding.Expr.Printer
import ConfigBinding.Proofs.Reading.Numbers

/-!
# Written expressions as tokens

The tokens of an expression follow its shape. What is written for an expression reads as these
tokens if its names are names of the language and its floating point numbers read back, and if no
character of a number comes next.

Results:
1. `DottedName.OfNames.lexes`, `Scope.OfNames.lexes`: so do names, with and without a scope.
2. `Expr.Writable.lexes`: what is written for an expression reads as the tokens of its shape.
-/

namespace ConfigBinding

open Lexer

/-! ## Names -/

/-- The name is made of names of the language. -/
structure DottedName.OfNames (name : DottedName) : Prop where
  nonempty : name.segments ≠ []
  segments : ∀ segment ∈ name.segments, isName segment = true

/-- The scope is made of names of the language. -/
def Scope.OfNames (scope : Scope) : Prop := ∀ segment ∈ scope.segments, isName segment = true

instance (name : DottedName) : Decidable name.OfNames :=
  decidable_of_iff
    (name.segments ≠ [] ∧ ∀ segment ∈ name.segments, isName segment = true)
    ⟨fun ⟨nonempty, segments⟩ => ⟨nonempty, segments⟩, fun named => ⟨named.1, named.2⟩⟩

instance (scope : Scope) : Decidable scope.OfNames := by
  unfold Scope.OfNames
  infer_instance

theorem DottedName.OfNames.parse_toText {name : DottedName} (named : name.OfNames) :
    DottedName.parse name.toText = name := by
  refine DottedName.parse_toText named.nonempty fun segment member inside => ?_
  cases isNameChar_of_mem (named.segments segment member) inside

theorem Scope.OfNames.parse_toText {scope : Scope} (inner : scope.OfNames) :
    Scope.parse scope.toText = scope := by
  refine Scope.parse_toText (fun segment member empty => ?_) fun segment member inside => ?_
  · have named := inner segment member
    rw [empty] at named
    cases named
  · cases isNameChar_of_mem (inner segment member) inside

def DottedName.tokens (name : DottedName) : List Token :=
  joined [.mark .dot] (name.segments.map fun segment => [nameToken segment])

/-- The tokens of a scope in front of a name. -/
def Scope.tokens (scope : Scope) : List Token :=
  scope.segments.flatMap fun segment => [nameToken segment, .mark .slash]

theorem DottedName.OfNames.lexes {name : DottedName} (named : name.OfNames) :
    Lexes isNameChar name.toText.toList name.tokens := by
  have dot : Lexes nothing ".".toList [.mark .dot] := lexes_mark (c := '.') rfl
  refine lexes_join dot (fun _ => stops_cons (c := '.') rfl _) ?_
  rw [List.forall₂_map_right_iff]
  exact List.forall₂_same.mpr fun segment member => lexes_name (named.segments segment member)

/-- A name in a scope is the first segment of the scope before the name in the rest of it. -/
theorem Scope.qualify_cons (segment : String) (segments : List String) (name : String) :
    Scope.qualify ⟨segment :: segments⟩ name = segment ++ "/" ++ Scope.qualify ⟨segments⟩ name := by
  cases segments with
  | nil => rfl
  | cons next segments =>
    simp only [qualify, isRoot, toText, Text.join, List.isEmpty_cons, Bool.false_eq_true, if_false,
      String.append_assoc]

theorem Scope.OfNames.lexes {scope : Scope} (inner : scope.OfNames) {name : String}
    {tokens : List Token} (named : Lexes isNameChar name.toList tokens) :
    Lexes isNameChar (scope.qualify name).toList (scope.tokens ++ tokens) := by
  obtain ⟨segments⟩ := scope
  unfold Scope.tokens
  induction segments with
  | nil => exact named
  | cons segment segments ih =>
    obtain ⟨first, rest⟩ := List.forall_mem_cons.mp inner
    rw [Scope.qualify_cons, String.toList_append, String.toList_append, List.flatMap_cons,
      List.append_assoc, List.append_assoc]
    have slash : Lexes nothing "/".toList [.mark .slash] := lexes_mark (c := '/') rfl
    exact (lexes_name first).append (slash.append (ih rest) fun _ _ => stops_nothing _)
      fun _ _ => stops_cons (c := '/') rfl _

/-! ## Tokens of expressions -/

def Literal.token : Literal → Token
  | .none => .mark .constNone
  | .bool true => .mark .constTrue
  | .bool false => .mark .constFalse
  | .int n => .int n
  | .float x => .float x
  | .str text => .str text

def Reference.tokens (target : Reference) : List Token :=
  .mark .atSign :: (target.scope.tokens ++ target.symbol.tokens
    ++ if target.call then [.mark .openParen, .mark .closeParen] else [])

namespace Expr

/-- What stands behind the last item of a container. -/
def ending (closing : Mark) (comma : Bool) : List Token :=
  (if comma then [.mark .comma] else []) ++ [.mark closing]

/-- The tokens of a container with the given items. A tuple of one item ends in a comma. -/
def enclosed (opening closing : Mark) (onlyNeedsComma : Bool) (items : List (List Token)) :
    List Token :=
  .mark opening ::
    (joined [.mark .comma] items ++ ending closing (onlyNeedsComma && items.length == 1))

/-- The tokens of an entry of a mapping whose value has the given tokens. -/
def entryTokens (key : String) (value : List Token) : List Token :=
  .str key :: .mark .colon :: value

mutual

def tokens : Expr → List Token
  | .literal value _ => [value.token]
  | .list items _ => enclosed .openBracket .closeBracket false (tokensOfItems items)
  | .tuple items _ => enclosed .openParen .closeParen true (tokensOfItems items)
  | .map entries _ => enclosed .openBrace .closeBrace false (tokensOfEntries entries)
  | .macroRef name _ => .mark .percent :: name.tokens
  | .reference target _ => target.tokens

def tokensOfItems : List Expr → List (List Token)
  | [] => []
  | item :: items => item.tokens :: tokensOfItems items

def tokensOfEntries : List (String × Expr) → List (List Token)
  | [] => []
  | (key, value) :: entries =>
    entryTokens key value.tokens :: tokensOfEntries entries

end

theorem tokensOfItems_eq (items : List Expr) : tokensOfItems items = items.map tokens := by
  induction items with
  | nil => rfl
  | cons item items ih => rw [tokensOfItems, ih, List.map_cons]

theorem tokensOfEntries_eq (entries : List (String × Expr)) :
    tokensOfEntries entries = entries.map fun entry => entryTokens entry.1 entry.2.tokens := by
  induction entries with
  | nil => rfl
  | cons entry entries ih => rw [tokensOfEntries, ih, List.map_cons]

/-! ## Reading what is written -/

/-- The expression can be read as it is written. -/
inductive Writable : Expr → Prop
  | literal {value : Literal} (span : Span) :
      (∀ x, value = .float x → x.ReadsBack) → Writable (.literal value span)
  | list {items : List Expr} (span : Span) :
      (∀ item ∈ items, Writable item) → Writable (.list items span)
  | tuple {items : List Expr} (span : Span) :
      (∀ item ∈ items, Writable item) → Writable (.tuple items span)
  | map {entries : List (String × Expr)} (span : Span) :
      (∀ entry ∈ entries, Writable entry.2) → Writable (.map entries span)
  | macroRef {name : DottedName} (span : Span) :
      name.OfNames → Writable (.macroRef name span)
  | reference {target : Reference} (span : Span) :
      target.scope.OfNames → target.symbol.OfNames → Writable (.reference target span)

end Expr

/-- A word of the language as it is spelled. -/
theorem Lexer.lexes_spelling {m : Mark} (word : Mark.ofWord? m.spelling = some m)
    (letters : ∃ c cs, m.spelling.toList = c :: cs ∧ isNameStart c = true ∧
      ∀ d ∈ cs, isNameChar d = true) :
    Lexes isNameChar m.spelling.toList [.mark m] := by
  obtain ⟨c, cs, written, start, inside⟩ := letters
  have token : wordToken (c :: cs) = .mark m := by
    unfold wordToken
    rw [← written, String.ofList_toList, word]
  rw [written, ← token]
  exact lexes_word start inside

theorem inNumber_of_isNameChar (c : Char) (inside : isNameChar c = true) : inNumber c = true := by
  simp [inNumber, inside]

theorem Literal.lexes {value : Literal} (back : ∀ x, value = .float x → x.ReadsBack) :
    Lexes inNumber value.toText.toList [value.token] := by
  have constant (m : Mark) (word : Mark.ofWord? m.spelling = some m)
      (letters : ∃ c cs, m.spelling.toList = c :: cs ∧ isNameStart c = true ∧
        ∀ d ∈ cs, isNameChar d = true) : Lexes inNumber m.spelling.toList [.mark m] :=
    (lexes_spelling word letters).mono inNumber_of_isNameChar
  cases value with
  | none => exact constant .constNone rfl ⟨'N', _, rfl, rfl, List.all_eq_true.mp rfl⟩
  | bool value =>
    cases value with
    | true => exact constant .constTrue rfl ⟨'T', _, rfl, rfl, List.all_eq_true.mp rfl⟩
    | false => exact constant .constFalse rfl ⟨'F', _, rfl, rfl, List.all_eq_true.mp rfl⟩
  | int n => exact lexes_int n
  | float x => exact lexes_toText (back x rfl)
  | str text => exact (lexes_quote text).anywhere

theorem Reference.lexes {target : Reference} (inner : target.scope.OfNames)
    (named : target.symbol.OfNames) :
    Lexes inNumber target.toText.toList target.tokens := by
  have sign : Lexes nothing "@".toList [.mark .atSign] := lexes_mark (c := '@') rfl
  have name := inner.lexes named.lexes
  unfold Reference.toText Reference.tokens
  rw [String.toList_append, String.toList_append, List.append_assoc]
  refine sign.append ?_ fun _ _ => stops_nothing _
  by_cases called : target.call = true
  · have brackets : Lexes nothing "()".toList [.mark .openParen, .mark .closeParen] :=
      (lexes_mark (c := '(') rfl).append (lexes_mark (c := ')') rfl) fun _ _ => stops_nothing _
    rw [if_pos called, if_pos called]
    exact (name.append brackets fun _ _ => stops_cons (c := '(') rfl _).anywhere
  · rw [if_neg called, if_neg called]
    have alone := name.mono inNumber_of_isNameChar
    simpa using alone

namespace Expr

theorem lexes_enclose {opening closing : String} {openMark closeMark : Mark}
    (opens : Lexes nothing opening.toList [.mark openMark])
    (closes : Lexes nothing closing.toList [.mark closeMark])
    (stops : ∀ rest, Stops inNumber (closing.toList ++ rest)) (onlyNeedsComma : Bool)
    {texts : List String} {items : List (List Token)}
    (each : List.Forall₂ (fun text tokens => Lexes inNumber text.toList tokens) texts items) :
    Lexes nothing (enclose opening closing onlyNeedsComma texts).toList
      (enclosed openMark closeMark onlyNeedsComma items) := by
  have comma : Lexes nothing ", ".toList [.mark .comma] :=
    (lexes_mark (c := ',') rfl).append (lexes_blank (c := ' ') rfl) fun _ _ => stops_nothing _
  have joins := lexes_join comma (fun _ => stops_cons (c := ',') rfl _) each
  unfold enclose enclosed ending
  rw [String.toList_append, String.toList_append, String.toList_append, List.append_assoc,
    List.append_assoc]
  refine opens.append (joins.append ?_ ?_) fun _ _ => stops_nothing _
  all_goals rw [each.length_eq]
  · split
    · exact (lexes_mark (c := ',') rfl).append closes fun _ _ => stops_nothing _
    · exact closes
  · intro rest _
    split
    · exact stops_cons (c := ',') rfl _
    · exact stops rest

theorem Writable.lexes {e : Expr} (writable : e.Writable) :
    Lexes inNumber e.toText.toList e.tokens := by
  induction writable with
  | literal span back => exact Literal.lexes back
  | list span _ ih =>
    unfold toText tokens
    rw [toTexts_eq, tokensOfItems_eq]
    have opens : Lexes nothing "[".toList [.mark .openBracket] := lexes_mark (c := '[') rfl
    have closes : Lexes nothing "]".toList [.mark .closeBracket] := lexes_mark (c := ']') rfl
    refine (lexes_enclose opens closes (fun _ => stops_cons (c := ']') rfl _) false ?_).anywhere
    rw [List.forall₂_map_left_iff, List.forall₂_map_right_iff]
    exact List.forall₂_same.mpr ih
  | tuple span _ ih =>
    unfold toText tokens
    rw [toTexts_eq, tokensOfItems_eq]
    have opens : Lexes nothing "(".toList [.mark .openParen] := lexes_mark (c := '(') rfl
    have closes : Lexes nothing ")".toList [.mark .closeParen] := lexes_mark (c := ')') rfl
    refine (lexes_enclose opens closes (fun _ => stops_cons (c := ')') rfl _) true ?_).anywhere
    rw [List.forall₂_map_left_iff, List.forall₂_map_right_iff]
    exact List.forall₂_same.mpr ih
  | map span _ ih =>
    unfold toText tokens
    rw [entryTexts_eq, tokensOfEntries_eq]
    have opens : Lexes nothing "\x7b".toList [.mark .openBrace] := lexes_mark (c := '\x7b') rfl
    have closes : Lexes nothing "\x7d".toList [.mark .closeBrace] := lexes_mark (c := '\x7d') rfl
    refine (lexes_enclose opens closes (fun _ => stops_cons (c := '\x7d') rfl _) false ?_).anywhere
    rw [List.forall₂_map_left_iff, List.forall₂_map_right_iff]
    refine List.forall₂_same.mpr fun entry member => ?_
    have colon : Lexes nothing ": ".toList [.mark .colon] :=
      (lexes_mark (c := ':') rfl).append (lexes_blank (c := ' ') rfl) fun _ _ => stops_nothing _
    rw [String.toList_append, String.toList_append, List.append_assoc]
    exact (lexes_quote entry.1).append (colon.append (ih entry member) fun _ _ => stops_nothing _)
      fun _ _ => stops_nothing _
  | macroRef span named =>
    have sign : Lexes nothing "%".toList [.mark .percent] := lexes_mark (c := '%') rfl
    unfold toText tokens
    rw [String.toList_append]
    exact sign.append (named.lexes.mono inNumber_of_isNameChar) fun _ _ => stops_nothing _
  | reference span inner named => exact Reference.lexes inner named

end Expr

end ConfigBinding
