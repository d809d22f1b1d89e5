import ConfigBinding.Token.Lexer
import ConfigBinding.Text.Segments
import Mathlib.Data.List.Forall2
import Mathlib.Data.List.TakeWhile

/-!
# What a text reads as

The tokens of a text, without the places where they stand. A piece of text reads as the same tokens
in every text in which it is not taken further by what follows: a name by characters of names, a
number by characters of numbers, and marks and strings by nothing.

Results:
1. `tokenize_of_reads`, `reads_of_tokenize`: reading is what the lexer does.
2. `Lexes.append`, `lexes_join`: pieces are read one after the other.
3. `lexes_name`, `lexes_quote`: names and strings as they are written read as themselves.
-/

namespace ConfigBinding

namespace Lexer

/-- `Reads cs tokens`: the whole text reads as the tokens. -/
inductive Reads : List Char → List Token → Prop
  | nil : Reads [] []
  | skip {c : Char} {cs taken rest : List Char} {tokens : List Token} :
      scan c cs = .skip taken rest → Reads rest tokens → Reads (c :: cs) tokens
  | token {c : Char} {cs taken rest : List Char} {token : Token} {tokens : List Token} :
      scan c cs = .token token taken rest → Reads rest tokens → Reads (c :: cs) (token :: tokens)

/-! ## The lexer -/

theorem rest_length_le {c : Char} {cs rest : List Char} (same : (scan c cs).rest = rest) :
    rest.length ≤ cs.length :=
  same ▸ scan_length c cs

theorem Reads.tokensFrom {cs : List Char} {tokens : List Token} (reads : Reads cs tokens)
    {fuel : Nat} (enough : cs.length ≤ fuel) (offset : Nat) :
    ∃ lexemes, tokensFrom fuel offset cs = .ok lexemes ∧ lexemes.map Lexeme.token = tokens := by
  induction reads generalizing fuel offset with
  | nil => exact ⟨[], by unfold Lexer.tokensFrom; rfl, rfl⟩
  | @skip c cs taken rest _ scanned _ ih =>
    cases fuel with
    | zero => cases enough
    | succ fuel =>
      have shorter : rest.length ≤ cs.length := rest_length_le (congrArg Scan.rest scanned)
      unfold Lexer.tokensFrom
      rw [scanned]
      exact ih (Nat.le_trans shorter (Nat.le_of_succ_le_succ enough)) _
  | @token c cs taken rest _ _ scanned _ ih =>
    cases fuel with
    | zero => cases enough
    | succ fuel =>
      have shorter : rest.length ≤ cs.length := rest_length_le (congrArg Scan.rest scanned)
      obtain ⟨lexemes, read, same⟩ :=
        ih (Nat.le_trans shorter (Nat.le_of_succ_le_succ enough)) (offset + byteSize taken)
      unfold Lexer.tokensFrom
      rw [scanned]
      dsimp only
      rw [read]
      exact ⟨_, rfl, by rw [List.map_cons, same]⟩

theorem reads_of_tokensFrom {fuel offset : Nat} {cs : List Char} {lexemes : List Lexeme}
    (enough : cs.length ≤ fuel) (read : tokensFrom fuel offset cs = .ok lexemes) :
    Reads cs (lexemes.map Lexeme.token) := by
  induction fuel generalizing offset cs lexemes with
  | zero =>
    obtain rfl := List.eq_nil_of_length_eq_zero (Nat.le_zero.mp enough)
    unfold tokensFrom at read
    cases read
    exact .nil
  | succ fuel ih =>
    cases cs with
    | nil =>
      unfold tokensFrom at read
      cases read
      exact .nil
    | cons c cs =>
      have shorter : (scan c cs).rest.length ≤ fuel :=
        Nat.le_trans (scan_length c cs) (Nat.le_of_succ_le_succ enough)
      unfold tokensFrom at read
      cases scanned : scan c cs with
      | skip taken rest =>
        rw [scanned] at read shorter
        exact .skip scanned (ih shorter read)
      | token token taken rest =>
        rw [scanned] at read shorter
        dsimp only at read
        split at read
        · rename_i more readMore
          cases read
          exact .token scanned (ih shorter readMore)
        · cases read
      | failure cause taken =>
        rw [scanned] at read
        cases read

end Lexer

theorem tokenize_of_reads {text : String} {tokens : List Token}
    (reads : Lexer.Reads text.toList tokens) :
    ∃ lexemes, tokenize text = .ok lexemes ∧ lexemes.map Lexeme.token = tokens :=
  reads.tokensFrom (Nat.le_refl _) 0

theorem reads_of_tokenize {text : String} {lexemes : List Lexeme}
    (read : tokenize text = .ok lexemes) :
    Lexer.Reads text.toList (lexemes.map Lexeme.token) :=
  Lexer.reads_of_tokensFrom (Nat.le_refl _) read

namespace Lexer

/-! ## Pieces -/

/-- The text does not go on with a character of the class. -/
def Stops (p : Char → Bool) (rest : List Char) : Prop := ∀ c ∈ rest.head?, p c = false

/-- The piece reads as the tokens in front of each text that does not go on with a character of the
class. -/
def Lexes (p : Char → Bool) (piece : List Char) (tokens : List Token) : Prop :=
  ∀ rest more, Stops p rest → Reads rest more → Reads (piece ++ rest) (tokens ++ more)

theorem stops_nil (p : Char → Bool) : Stops p [] := fun _ member => nomatch member

theorem stops_cons {p : Char → Bool} {c : Char} (apart : p c = false) (cs : List Char) :
    Stops p (c :: cs) := by
  intro d member
  cases member
  exact apart

theorem Stops.mono {p q : Char → Bool} {rest : List Char} (stops : Stops q rest)
    (within : ∀ c, p c = true → q c = true) : Stops p rest := by
  intro c member
  cases inside : p c with
  | false => rfl
  | true => exact absurd (within c inside) (by rw [stops c member]; exact Bool.false_ne_true)

theorem takeWhile_append_of_stops {p : Char → Bool} (cs : List Char) {rest : List Char}
    (stops : Stops p rest) : (cs ++ rest).takeWhile p = cs.takeWhile p := by
  induction cs with
  | nil =>
    cases rest with
    | nil => rfl
    | cons c rest => simp [stops c rfl]
  | cons c cs ih => simp only [List.cons_append, List.takeWhile_cons, ih]

theorem dropWhile_append_of_stops {p : Char → Bool} (cs : List Char) {rest : List Char}
    (stops : Stops p rest) : (cs ++ rest).dropWhile p = cs.dropWhile p ++ rest := by
  induction cs with
  | nil =>
    cases rest with
    | nil => rfl
    | cons c rest => simp [stops c rfl]
  | cons c cs ih =>
    simp only [List.cons_append, List.dropWhile_cons, ih]
    split <;> rfl

theorem takeWhile_of_stops {p : Char → Bool} {cs rest : List Char} (inside : ∀ c ∈ cs, p c = true)
    (stops : Stops p rest) : (cs ++ rest).takeWhile p = cs := by
  rw [takeWhile_append_of_stops cs stops, List.takeWhile_eq_self_iff.mpr inside]

theorem dropWhile_of_stops {p : Char → Bool} {cs rest : List Char} (inside : ∀ c ∈ cs, p c = true)
    (stops : Stops p rest) : (cs ++ rest).dropWhile p = rest := by
  rw [dropWhile_append_of_stops cs stops, List.dropWhile_eq_nil_iff.mpr inside, List.nil_append]

theorem Lexes.append {p q : Char → Bool} {first second : List Char} {tokens more : List Token}
    (reads : Lexes p first tokens) (readsNext : Lexes q second more)
    (follows : ∀ rest, Stops q rest → Stops p (second ++ rest)) :
    Lexes q (first ++ second) (tokens ++ more) := by
  intro rest others stops read
  rw [List.append_assoc, List.append_assoc]
  exact reads _ _ (follows rest stops) (readsNext _ _ stops read)

theorem Lexes.reads {p : Char → Bool} {text : List Char} {tokens : List Token}
    (lexes : Lexes p text tokens) : Reads text tokens := by
  have whole := lexes [] [] (stops_nil p) .nil
  rw [List.append_nil, List.append_nil] at whole
  exact whole

theorem Lexes.mono {p q : Char → Bool} (within : ∀ c, p c = true → q c = true)
    {piece : List Char} {tokens : List Token} (reads : Lexes p piece tokens) :
    Lexes q piece tokens :=
  fun rest more stops read => reads rest more (stops.mono within) read

/-- The class of no character. -/
def nothing (_ : Char) : Bool := false

theorem stops_nothing (rest : List Char) : Stops nothing rest := fun _ _ => rfl

theorem Lexes.anywhere {p : Char → Bool} {piece : List Char} {tokens : List Token}
    (reads : Lexes nothing piece tokens) : Lexes p piece tokens :=
  reads.mono fun _ inside => by cases inside

/-! ## Blanks, comments and marks -/

theorem reads_blank {c : Char} (blank : isBlank c = true) {rest : List Char} {tokens : List Token}
    (read : Reads rest tokens) : Reads (c :: rest) tokens := by
  have scanned : ∀ (c : Char) (cs : List Char), isBlank c = true →
      scan c cs = .skip (c :: cs.takeWhile isBlank) (cs.dropWhile isBlank) := by
    intro c cs blank
    unfold scan
    rw [if_pos blank]
  refine .skip (scanned c rest blank) ?_
  -- The blanks behind this one are skipped with it, so they are not read once more.
  cases rest with
  | nil => exact read
  | cons d cs =>
    cases next : isBlank d with
    | false =>
      rw [List.dropWhile_cons, next]
      exact read
    | true =>
      rw [List.dropWhile_cons, if_pos next]
      cases read with
      | skip taken read =>
        rw [scanned d cs next] at taken
        cases taken
        exact read
      | token taken read =>
        rw [scanned d cs next] at taken
        cases taken

theorem lexes_blank {c : Char} (blank : isBlank c = true) : Lexes nothing [c] [] :=
  fun _ _ _ read => reads_blank blank read

/-- A comment with the end of its line. -/
theorem lexes_comment {line : List Char} (oneLine : '\n' ∉ line) :
    Lexes nothing ('#' :: (line ++ ['\n'])) [] := by
  intro rest more _ read
  have inside : ∀ c ∈ line, decide (c ≠ '\n') = true := by
    intro c member
    exact decide_eq_true fun same => oneLine (same ▸ member)
  have scanned : scan '#' (line ++ '\n' :: rest) = .skip ('#' :: line) ('\n' :: rest) := by
    have stops : Stops (fun c => decide (c ≠ '\n')) ('\n' :: rest) := stops_cons rfl rest
    have whole : scan '#' (line ++ '\n' :: rest) =
        .skip ('#' :: (line ++ '\n' :: rest).takeWhile (fun c => decide (c ≠ '\n')))
          ((line ++ '\n' :: rest).dropWhile (fun c => decide (c ≠ '\n'))) := rfl
    rw [whole, takeWhile_of_stops inside stops, dropWhile_of_stops inside stops]
  rw [List.cons_append, List.append_assoc, List.singleton_append]
  exact .skip scanned (reads_blank rfl read)

theorem scan_mark {m : Mark} {c : Char} (spelled : Mark.ofChar? c = some m) (cs : List Char) :
    scan c cs = .token (.mark m) [c] cs := by
  unfold Mark.ofChar? at spelled
  split at spelled <;> cases spelled <;> rfl

theorem lexes_mark {m : Mark} {c : Char} (spelled : Mark.ofChar? c = some m) :
    Lexes nothing [c] [.mark m] :=
  fun _ _ _ read => .token (scan_mark spelled _) read

/-! ## Names -/

theorem scan_word {c : Char} (start : isNameStart c = true) (cs : List Char) :
    scan c cs = .token (wordToken (c :: cs.takeWhile isNameChar)) (c :: cs.takeWhile isNameChar)
      (cs.dropWhile isNameChar) := by
  have apart : isBlank c = false ∧ c ≠ '#' := by
    refine ⟨?_, fun same => by subst same; cases start⟩
    cases blank : isBlank c with
    | false => rfl
    | true =>
      unfold isBlank at blank
      simp only [Bool.or_eq_true, beq_iff_eq] at blank
      rcases blank with (((rfl | rfl) | rfl) | rfl) | rfl <;> cases start
  unfold scan
  rw [if_neg (by rw [apart.1]; exact Bool.false_ne_true), if_neg apart.2, if_pos start]

theorem lexes_word {c : Char} {cs : List Char} (start : isNameStart c = true)
    (inside : ∀ d ∈ cs, isNameChar d = true) :
    Lexes isNameChar (c :: cs) [wordToken (c :: cs)] := by
  intro rest more stops read
  have scanned := scan_word start (cs ++ rest)
  rw [takeWhile_of_stops inside stops, dropWhile_of_stops inside stops] at scanned
  exact .token scanned read

/-- The text is a name: an identifier, or a keyword that may stand for one. -/
def isName (name : String) : Bool :=
  match name.toList with
  | [] => false
  | c :: cs => isNameStart c && cs.all isNameChar && (wordToken (c :: cs)).name?.isSome

/-- The token of a name. -/
def nameToken (name : String) : Token := wordToken name.toList

theorem spelling_of_ofWord? {word : String} {m : Mark} (found : Mark.ofWord? word = some m) :
    m.spelling = word := by
  unfold Mark.ofWord? at found
  split at found <;> cases found <;> rfl

theorem name?_wordToken {word : List Char} (named : (wordToken word).name?.isSome = true) :
    (wordToken word).name? = some (String.ofList word) := by
  unfold wordToken at named ⊢
  cases found : Mark.ofWord? (String.ofList word) with
  | none => rfl
  | some m =>
    rw [found] at named
    simp only [Token.name?] at named ⊢
    split at named
    · rename_i keyword
      rw [if_pos keyword, spelling_of_ofWord? found]
    · cases named

section

variable {name : String}

theorem isName_iff : isName name = true ↔
    ∃ c cs, name.toList = c :: cs ∧ isNameStart c = true ∧ (∀ d ∈ cs, isNameChar d = true) ∧
      (nameToken name).name?.isSome = true := by
  unfold isName nameToken
  cases name.toList with
  | nil => simp
  | cons c cs => simp [and_assoc]

theorem isNameChar_of_mem (named : isName name = true) {c : Char} (member : c ∈ name.toList) :
    isNameChar c = true := by
  obtain ⟨first, others, written, start, inside, _⟩ := isName_iff.mp named
  rw [written] at member
  rcases List.mem_cons.mp member with rfl | later
  · unfold isNameStart at start
    unfold isNameChar Char.isAlphanum
    grind
  · exact inside c later

theorem name?_nameToken (named : isName name = true) : (nameToken name).name? = some name := by
  obtain ⟨_, _, _, _, _, some⟩ := isName_iff.mp named
  rw [nameToken, name?_wordToken some, String.ofList_toList]

theorem lexes_name (named : isName name = true) :
    Lexes isNameChar name.toList [nameToken name] := by
  obtain ⟨c, cs, written, start, inside, _⟩ := isName_iff.mp named
  rw [nameToken, written]
  exact lexes_word start inside

end

/-! ## Strings -/

theorem takeString_closing (quote : Char) (rest : List Char) :
    takeString quote (quote :: rest) = some ([], rest) := by
  cases rest <;> simp [takeString]

theorem takeString_plain {quote c : Char} (inside : c ≠ quote) (line : c ≠ '\n') (plain : c ≠ '\\')
    (cs : List Char) :
    takeString quote (c :: cs) =
      (takeString quote cs).map fun (content, rest) => (c :: content, rest) := by
  rw [takeString.eq_def]
  simp only [if_neg inside, if_neg line, if_neg plain]

/-- The content of a literal as it is written ends at its closing quote. -/
theorem takeString_encode (cs rest : List Char) :
    takeString '\x27' (Text.Quoted.encode cs ++ '\x27' :: rest) =
      some (Text.Quoted.encode cs, rest) := by
  induction cs with
  | nil => exact takeString_closing _ rest
  | cons c cs ih =>
    unfold Text.Quoted.encode
    cases written : Text.Quoted.escape? c with
    | some letter =>
      have line : letter ≠ '\n' := by
        rintro rfl
        unfold Text.Quoted.escape? at written
        split at written <;> cases written
      simp [takeString, line, ih]
    | none =>
      have plain : c ≠ '\x27' ∧ c ≠ '\n' ∧ c ≠ '\\' := by
        refine ⟨?_, ?_, ?_⟩ <;> rintro rfl <;> cases written
      rw [List.cons_append, takeString_plain plain.1 plain.2.1 plain.2.2, ih]
      rfl

/-- A string is read from its literal, whatever stands behind it. -/
theorem scan_quote (text : String) (rest : List Char) :
    scan '\x27' (Text.Quoted.encode text.toList ++ '\x27' :: rest) =
      .token (.str text) ('\x27' :: Text.Quoted.encode text.toList ++ ['\x27']) rest := by
  show scanString '\x27' (Text.Quoted.encode text.toList ++ '\x27' :: rest) = _
  unfold scanString
  rw [takeString_encode]
  simp only [Text.Quoted.decode_encode, String.ofList_toList]

theorem lexes_quote (text : String) :
    Lexes nothing (Text.Quoted.quote text).toList [.str text] := by
  intro rest more _ read
  unfold Text.Quoted.quote
  rw [String.toList_ofList, List.append_assoc]
  exact .token (scan_quote text rest) read

/-! ## Joined pieces -/

theorem lexes_nil (p : Char → Bool) : Lexes p [] [] := fun _ _ _ read => read

/-- Pieces that stop on their own, one right after the other. -/
theorem lexes_flatMap {α : Type} {text : α → List Char} {tokens : α → List Token} {as : List α}
    (each : ∀ a ∈ as, Lexes nothing (text a) (tokens a)) :
    Lexes nothing (as.flatMap text) (as.flatMap tokens) := by
  induction as with
  | nil => exact lexes_nil _
  | cons a as ih =>
    obtain ⟨first, others⟩ := List.forall_mem_cons.mp each
    exact first.append (ih others) fun _ _ => stops_nothing _

/-- The tokens of pieces, each behind those of a separator. -/
def behind (sep : List Token) (pieces : List (List Token)) : List Token := pieces.flatMap (sep ++ ·)

/-- The tokens of pieces with those of a separator between each two of them. -/
def joined (sep : List Token) : List (List Token) → List Token
  | [] => []
  | piece :: pieces => piece ++ behind sep pieces

theorem behind_cons (sep piece : List Token) (pieces : List (List Token)) :
    behind sep (piece :: pieces) = sep ++ joined sep (piece :: pieces) := by
  rw [behind, List.flatMap_cons, joined, List.append_assoc]
  rfl

theorem joined_nothing (pieces : List (List Token)) : joined [] pieces = pieces.flatten := by
  cases pieces with
  | nil => rfl
  | cons piece pieces => simp [joined, behind, List.flatMap_id']

theorem lexes_join {p : Char → Bool} {sep : String} {between : List Token}
    (separates : Lexes nothing sep.toList between) (stops : ∀ rest, Stops p (sep.toList ++ rest))
    {texts : List String} {pieces : List (List Token)}
    (each : List.Forall₂ (fun text tokens => Lexes p text.toList tokens) texts pieces) :
    Lexes p (Text.join sep texts).toList (joined between pieces) := by
  induction each with
  | nil => exact lexes_nil p
  | @cons text tokens texts pieces first rest ih =>
    cases rest with
    | nil =>
      rw [Text.join, joined, behind, List.flatMap_nil, List.append_nil]
      exact first
    | cons second rest =>
      rw [Text.join, joined, behind_cons, String.toList_append, String.toList_append,
        List.append_assoc]
      refine first.append (separates.append ih fun _ _ => stops_nothing _) fun rest _ => ?_
      rw [List.append_assoc]
      exact stops _

end Lexer

end ConfigBinding
