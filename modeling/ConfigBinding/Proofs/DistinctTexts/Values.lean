import ConfigBinding.Proofs.DistinctTexts.Pieces
import ConfigBinding.Proofs.WrittenStatements

/-!
# Different values are written differently

What is written for a value tells the value, up to the places where its parts stand. The text of a
value also tells where it ends, so it is known by the characters alone which part of a container
they are from.

Results:
1. `Expr.OfNames.separates`: two texts of values, each with something behind it, are the same only
   if the values are alike and the same is behind them.
2. `Expr.OfNames.toText_eq_iff`: what is written is the same just if the values are alike.
-/

namespace ConfigBinding

open ConfigBinding.Expr Lexer

/-! ## Values that say the same -/

/-- The expressions are built in the same way, wherever they stand. Floating point numbers in them
are compared as they are written. -/
inductive Expr.Alike : Expr → Expr → Prop
  | literal {value other : Literal} (span otherSpan : Span) :
      value.Alike other → Alike (.literal value span) (.literal other otherSpan)
  | list {items others : List Expr} (span otherSpan : Span) :
      List.Forall₂ Alike items others → Alike (.list items span) (.list others otherSpan)
  | tuple {items others : List Expr} (span otherSpan : Span) :
      List.Forall₂ Alike items others → Alike (.tuple items span) (.tuple others otherSpan)
  | map {entries others : List (String × Expr)} (span otherSpan : Span) :
      entries.map Prod.fst = others.map Prod.fst →
      List.Forall₂ Alike (entries.map Prod.snd) (others.map Prod.snd) →
      Alike (.map entries span) (.map others otherSpan)
  | macroRef (name : DottedName) (span otherSpan : Span) :
      Alike (.macroRef name span) (.macroRef name otherSpan)
  | reference (target : Reference) (span otherSpan : Span) :
      Alike (.reference target span) (.reference target otherSpan)

/-- Entries that are compared by key and by value are the same keys and values that agree. -/
theorem forall₂_entries_iff {α β : Type} {agree : β → β → Prop} {entries others : List (α × β)} :
    List.Forall₂ (fun entry other => entry.1 = other.1 ∧ agree entry.2 other.2) entries others ↔
      entries.map Prod.fst = others.map Prod.fst ∧
        List.Forall₂ agree (entries.map Prod.snd) (others.map Prod.snd) := by
  induction entries generalizing others with
  | nil => cases others <;> simp
  | cons entry entries ih =>
    cases others with
    | nil => simp
    | cons other others =>
      simp only [List.forall₂_cons, ih, List.map_cons, List.cons.injEq]
      tauto

theorem forall₂_map_eq {α : Type} {alike : α → α → Prop} {as bs : List α} {text : α → String}
    (each : ∀ a ∈ as, ∀ b, alike a b → text a = text b) (all : List.Forall₂ alike as bs) :
    as.map text = bs.map text := by
  induction all with
  | nil => rfl
  | cons first _ ih =>
    obtain ⟨one, others⟩ := List.forall_mem_cons.mp each
    rw [List.map_cons, List.map_cons, one _ first, ih others]

/-- What is alike is written the same. -/
theorem Expr.Alike.toText_eq {e f : Expr} (alike : e.Alike f) : e.toText = f.toText := by
  induction e using Expr.induction generalizing f with
  | literal =>
    cases alike with
    | literal _ _ same => exact same.toText_eq
  | list items span ih =>
    cases alike with
    | list _ _ all =>
      simp only [toText, toTexts_eq]
      rw [forall₂_map_eq (fun item member other same => ih item member same) all]
  | tuple items span ih =>
    cases alike with
    | tuple _ _ all =>
      simp only [toText, toTexts_eq]
      rw [forall₂_map_eq (fun item member other same => ih item member same) all]
  | map entries span ih =>
    cases alike with
    | map _ _ keys all =>
      have entry := forall₂_entries_iff.mpr ⟨keys, all⟩
      simp only [toText, entryTexts_eq]
      rw [forall₂_map_eq (fun entry member other same => ?_) entry]
      rw [same.1, ih entry member same.2]
  | macroRef =>
    cases alike
    rfl
  | reference =>
    cases alike
    rfl

/-! ## First characters -/

/-- The kinds of expressions that the first character of their text tells apart. -/
inductive Expr.Form
  | plain | quoted | list | tuple | map | macroRef | reference

def Literal.form : Literal → Expr.Form
  | .str _ => .quoted
  | _ => .plain

theorem Literal.kind_eq_str_iff {value other : Literal} (forms : value.form = other.form) :
    value.kind = .str ↔ other.kind = .str := by
  cases value <;> cases other <;> simp [kind] <;> cases forms

namespace Expr

def form : Expr → Form
  | .literal value _ => value.form
  | .list _ _ => .list
  | .tuple _ _ => .tuple
  | .map _ _ => .map
  | .macroRef _ _ => .macroRef
  | .reference _ _ => .reference

/-- The form of the expressions with the character in front. -/
def Form.ofChar? : Char → Option Form
  | '\x27' => some .quoted
  | '[' => some .list
  | '(' => some .tuple
  | '\x7b' => some .map
  | '%' => some .macroRef
  | '@' => some .reference
  | c => if inPath c then some .plain else none

/-- The text has a character that an expression of the form can begin with. -/
def Opens (form : Form) (text : List Char) : Prop :=
  ∃ c cs, text = c :: cs ∧ Form.ofChar? c = some form

end Expr

theorem opens_of_inPath {text : List Char} (nonempty : text ≠ [])
    (inside : ∀ c ∈ text, inPath c = true) : Opens .plain text := by
  obtain ⟨c, cs, rfl⟩ := List.exists_cons_of_ne_nil nonempty
  have path := inside c List.mem_cons_self
  refine ⟨c, cs, rfl, ?_⟩
  unfold Form.ofChar?
  split <;> first
    | cases path
    | exact if_pos path

theorem opens_quote (text : String) : Opens .quoted (Text.Quoted.quote text).toList := by
  refine ⟨'\x27', Text.Quoted.encode text.toList ++ ['\x27'], ?_, rfl⟩
  rw [Text.Quoted.quote, String.toList_ofList, List.cons_append]

theorem opens_enclose {opening closing : String} {onlyNeedsComma : Bool} {items : List String}
    {c : Char} (spelled : opening.toList = [c]) {form : Form}
    (isForm : Form.ofChar? c = some form) :
    Opens form (enclose opening closing onlyNeedsComma items).toList := by
  simp only [enclose, String.toList_append, spelled, List.append_assoc]
  exact ⟨c, _, rfl, isForm⟩

theorem Expr.opens_toText (e : Expr) : Opens e.form e.toText.toList := by
  cases e with
  | literal value span =>
    cases value with
    | str text => exact opens_quote text
    | none => exact opens_of_inPath Literal.toText_ne_nil (Literal.inPath_toText (by decide))
    | bool _ => exact opens_of_inPath Literal.toText_ne_nil (Literal.inPath_toText nofun)
    | int _ => exact opens_of_inPath Literal.toText_ne_nil (Literal.inPath_toText nofun)
    | float _ => exact opens_of_inPath Literal.toText_ne_nil (Literal.inPath_toText nofun)
  | list items span => exact opens_enclose (c := '[') rfl rfl
  | tuple items span => exact opens_enclose (c := '(') rfl rfl
  | map entries span => exact opens_enclose (c := '\x7b') rfl rfl
  | macroRef name span =>
    refine ⟨'%', name.toText.toList, ?_, rfl⟩
    rw [toText, String.toList_append]
    rfl
  | reference target span =>
    refine ⟨'@', target.path.toList ++ (brackets target.call ++ []), ?_, rfl⟩
    rw [← target.toText_append, List.append_nil]
    rfl

theorem Expr.form_eq {e f : Expr} {rest more : List Char}
    (same : e.toText.toList ++ rest = f.toText.toList ++ more) : e.form = f.form := by
  obtain ⟨c, cs, written, form⟩ := e.opens_toText
  obtain ⟨d, ds, writtenOther, formOther⟩ := f.opens_toText
  rw [written, writtenOther, List.cons_append, List.cons_append] at same
  obtain rfl : c = d := (List.cons.inj same).1
  exact Option.some.inj (form.symm.trans formOther)

/-! ## Containers -/

/-- What stands behind the last item of a container: a closing bracket, in a tuple perhaps with a
comma before it. -/
def Ends (rest : List Char) : Prop :=
  ∃ c more, c ∈ [')', ']', '\x7d'] ∧ (rest = c :: more ∨ rest = ',' :: c :: more)

theorem Ends.follows {rest : List Char} (ends : Ends rest) : Follows rest := by
  obtain ⟨c, more, closing, rfl | rfl⟩ := ends
  · intro d member
    cases member
    exact List.mem_cons_of_mem _ closing
  · intro d member
    cases member
    exact List.mem_cons_self

/-- No further item stands behind the last one. -/
theorem Ends.ne_next {rest : List Char} (ends : Ends rest) (more : List Char) :
    rest ≠ ',' :: ' ' :: more := by
  obtain ⟨c, _, closing, rfl | rfl⟩ := ends
  · intro same
    cases same
    simp at closing
  · intro same
    cases same
    simp at closing

theorem follows_comma (rest : List Char) : Follows (',' :: rest) := by
  intro c member
  cases member
  exact List.mem_cons_self

/-- A text that opens a value is not what stands behind one. -/
theorem Expr.Opens.not_ends {form : Form} {text : List Char} (opens : Opens form text)
    (rest : List Char) : ¬ Ends (text ++ rest) := by
  obtain ⟨c, cs, rfl, isForm⟩ := opens
  intro ends
  have follows := ends.follows c rfl
  simp only [List.mem_cons, List.not_mem_nil, or_false] at follows
  rcases follows with rfl | rfl | rfl | rfl <;> cases isForm

/-- Items with a comma between them are told apart one by one, up to the end of the container. -/
theorem separates_join {α : Type} {text : α → String} {alike : α → α → Prop} {form : α → Form}
    (opens : ∀ a, Opens (form a) (text a).toList) {as bs : List α}
    (each : ∀ a ∈ as, ∀ b ∈ bs, Separates (alike a b) (text a).toList (text b).toList)
    {rest more : List Char} (ends : Ends rest) (endsOther : Ends more)
    (same : (Text.join ", " (as.map text)).toList ++ rest =
      (Text.join ", " (bs.map text)).toList ++ more) :
    List.Forall₂ alike as bs ∧ rest = more := by
  have first (a : α) (as : List α) (rest : List Char) : ∃ following,
      (Text.join ", " ((a :: as).map text)).toList ++ rest = (text a).toList ++ following := by
    cases as with
    | nil => exact ⟨rest, rfl⟩
    | cons next as =>
      simp only [List.map_cons, Text.join, String.toList_append, List.append_assoc]
      exact ⟨_, rfl⟩
  have next (a b : α) (as : List α) (rest : List Char) :
      (Text.join ", " ((a :: b :: as).map text)).toList ++ rest = (text a).toList ++
        (',' :: ' ' :: ((Text.join ", " ((b :: as).map text)).toList ++ rest)) := by
    simp [Text.join, String.toList_append]
  induction as generalizing bs with
  | nil =>
    cases bs with
    | nil => exact ⟨.nil, same⟩
    | cons b bs =>
      obtain ⟨following, written⟩ := first b bs more
      obtain rfl : rest = _ := same.trans written
      exact absurd ends ((opens b).not_ends following)
  | cons a as ih =>
    cases bs with
    | nil =>
      obtain ⟨following, written⟩ := first a as rest
      obtain rfl : more = _ := same.symm.trans written
      exact absurd endsOther ((opens a).not_ends following)
    | cons b bs =>
      have one := each a List.mem_cons_self b List.mem_cons_self
      have others : ∀ a ∈ as, ∀ b ∈ bs, Separates (alike a b) (text a).toList (text b).toList :=
        fun a member b memberOther =>
          each a (List.mem_cons_of_mem _ member) b (List.mem_cons_of_mem _ memberOther)
      cases as with
      | nil =>
        cases bs with
        | nil =>
          obtain ⟨here, behind⟩ := one rest more ends.follows endsOther.follows same
          exact ⟨.cons here .nil, behind⟩
        | cons c bs =>
          rw [next] at same
          obtain ⟨_, behind⟩ := one rest _ ends.follows (follows_comma _) same
          exact absurd behind (ends.ne_next _)
      | cons d as =>
        rw [next] at same
        cases bs with
        | nil =>
          obtain ⟨_, behind⟩ := one _ more (follows_comma _) endsOther.follows same
          exact absurd behind.symm (endsOther.ne_next _)
        | cons c bs =>
          rw [next] at same
          obtain ⟨here, following⟩ := one _ _ (follows_comma _) (follows_comma _) same
          obtain ⟨there, behind⟩ := ih others (List.cons.inj (List.cons.inj following).2).2
          exact ⟨.cons here there, behind⟩

/-- A container is told apart by its items. -/
theorem separates_enclose {α : Type} {text : α → String} {alike : α → α → Prop} {form : α → Form}
    (opens : ∀ a, Opens (form a) (text a).toList) {closing : String} {c : Char}
    (closes : closing.toList = [c]) (isClosing : c ∈ [')', ']', '\x7d']) (opening : String)
    (onlyNeedsComma : Bool) {as bs : List α}
    (each : ∀ a ∈ as, ∀ b ∈ bs, Separates (alike a b) (text a).toList (text b).toList) :
    Separates (List.Forall₂ alike as bs)
      (enclose opening closing onlyNeedsComma (as.map text)).toList
      (enclose opening closing onlyNeedsComma (bs.map text)).toList := by
  intro rest more _ _ same
  have ends (only : Bool) (rest : List Char) :
      Ends ((if only then "," else "").toList ++ (closing.toList ++ rest)) := by
    rw [closes]
    cases only with
    | true => exact ⟨c, rest, isClosing, .inr rfl⟩
    | false => exact ⟨c, rest, isClosing, .inl rfl⟩
  simp only [enclose, String.toList_append, List.append_assoc] at same
  obtain ⟨all, behind⟩ := separates_join opens each (ends _ rest) (ends _ more)
    (List.append_cancel_left same)
  rw [List.length_map, List.length_map, all.length_eq] at behind
  exact ⟨all, List.append_cancel_left (List.append_cancel_left behind)⟩

/-! ## Values -/

/-- An entry of a mapping as it is written. -/
def entryText (entry : String × Expr) : String :=
  Text.Quoted.quote entry.1 ++ ": " ++ entry.2.toText

theorem opens_entryText (entry : String × Expr) : Opens .quoted (entryText entry).toList := by
  obtain ⟨c, cs, written, isForm⟩ := opens_quote entry.1
  simp only [entryText, String.toList_append, written, List.cons_append]
  exact ⟨c, _, rfl, isForm⟩

theorem separates_entryText {entry other : String × Expr}
    (values : Separates (entry.2.Alike other.2) entry.2.toText.toList other.2.toText.toList) :
    Separates (entry.1 = other.1 ∧ entry.2.Alike other.2)
      (entryText entry).toList (entryText other).toList := by
  intro rest more follows followsOther same
  simp only [entryText, String.toList_append, List.append_assoc] at same
  obtain ⟨key, following⟩ := quote_append_inj same
  obtain ⟨value, behind⟩ :=
    values rest more follows followsOther (List.append_cancel_left following)
  exact ⟨⟨key, value⟩, behind⟩

/-- Two texts of values, each with something behind it, are the same only if the values are alike
and the same is behind them. -/
theorem Expr.OfNames.separates {e f : Expr} (named : e.OfNames) (namedOther : f.OfNames) :
    Separates (e.Alike f) e.toText.toList f.toText.toList := by
  induction e using Expr.induction generalizing f with
  | literal value span =>
    intro rest more follows followsOther same
    have forms := form_eq same
    cases f with
    | literal other otherSpan =>
      obtain ⟨alike, behind⟩ := Literal.separates (Literal.kind_eq_str_iff forms)
        rest more follows followsOther same
      exact ⟨.literal span otherSpan alike, behind⟩
    | _ => cases value <;> cases forms
  | list items span ih =>
    intro rest more follows followsOther same
    have forms := form_eq same
    cases f with
    | list others otherSpan =>
      cases named with
      | list _ items =>
      cases namedOther with
      | list _ others =>
      simp only [toText, toTexts_eq] at same
      obtain ⟨alike, behind⟩ := separates_enclose opens_toText rfl (by decide) "[" false
        (fun item member other memberOther => ih item member (items item member)
          (others other memberOther)) rest more follows followsOther same
      exact ⟨.list span otherSpan alike, behind⟩
    | literal other => cases other <;> cases forms
    | _ => cases forms
  | tuple items span ih =>
    intro rest more follows followsOther same
    have forms := form_eq same
    cases f with
    | tuple others otherSpan =>
      cases named with
      | tuple _ items =>
      cases namedOther with
      | tuple _ others =>
      simp only [toText, toTexts_eq] at same
      obtain ⟨alike, behind⟩ := separates_enclose opens_toText rfl (by decide) "(" true
        (fun item member other memberOther => ih item member (items item member)
          (others other memberOther)) rest more follows followsOther same
      exact ⟨.tuple span otherSpan alike, behind⟩
    | literal other => cases other <;> cases forms
    | _ => cases forms
  | map entries span ih =>
    intro rest more follows followsOther same
    have forms := form_eq same
    cases f with
    | map others otherSpan =>
      cases named with
      | map _ entries =>
      cases namedOther with
      | map _ others =>
      simp only [toText, entryTexts_eq] at same
      obtain ⟨alike, behind⟩ := separates_enclose opens_entryText rfl (by decide) "\x7b" false
        (fun entry member other memberOther => separates_entryText
          (ih entry member (entries entry member) (others other memberOther)))
        rest more follows followsOther same
      obtain ⟨keys, values⟩ := forall₂_entries_iff.mp alike
      exact ⟨.map span otherSpan keys values, behind⟩
    | literal other => cases other <;> cases forms
    | _ => cases forms
  | macroRef name span =>
    intro rest more follows followsOther same
    have forms := form_eq same
    cases f with
    | macroRef other otherSpan =>
      cases named with
      | macroRef _ named =>
      cases namedOther with
      | macroRef _ namedOther =>
      simp only [toText, String.toList_append, List.append_assoc] at same
      obtain ⟨texts, behind⟩ := eq_of_append_eq named.inPath namedOther.inPath follows.stops
        followsOther.stops (List.append_cancel_left same)
      obtain rfl := named.toText_inj namedOther (String.toList_inj.mp texts)
      exact ⟨.macroRef name span otherSpan, behind⟩
    | literal other => cases other <;> cases forms
    | _ => cases forms
  | reference target span =>
    intro rest more follows followsOther same
    have forms := form_eq same
    cases f with
    | reference other otherSpan =>
      cases named with
      | reference _ inner named =>
      cases namedOther with
      | reference _ innerOther namedOther =>
      obtain ⟨rfl, behind⟩ := Reference.separates inner named innerOther namedOther
        rest more follows followsOther same
      exact ⟨.reference target span otherSpan, behind⟩
    | literal other => cases other <;> cases forms
    | _ => cases forms

/-- What is written for two values is the same just if they are built in the same way. -/
theorem Expr.OfNames.toText_eq_iff {e f : Expr} (named : e.OfNames) (namedOther : f.OfNames) :
    e.toText = f.toText ↔ e.Alike f := by
  refine ⟨fun same => ?_, Alike.toText_eq⟩
  exact (named.separates namedOther [] [] nofun nofun
    (congrArg (· ++ []) (String.toList_inj.mpr same))).1

end ConfigBinding
