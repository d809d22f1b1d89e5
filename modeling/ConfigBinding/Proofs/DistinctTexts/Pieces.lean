import ConfigBinding.Proofs.Reading.Expressions

/-!
# Different literals and names are written differently

What is written for a literal or a reference tells it, and also tells where it ends if only a comma,
a closing bracket or nothing can stand behind it. A floating point number is told up to its own
text.

Results:
1. `quote_append_inj`: the literal of a string tells the string.
2. `Reference.separates`: what is written for a reference tells its scope, symbol and brackets.
3. `Literal.separates`: what is written for a literal tells its kind and what it says.
-/

namespace ConfigBinding

open Lexer

/-! ## What stands behind a value -/

/-- What may stand behind a value: nothing, a comma or a closing bracket. -/
def Follows (rest : List Char) : Prop := ∀ c ∈ rest.head?, c ∈ [',', ')', ']', '\x7d']

/-- Wherever they stand, the texts are told apart unless `alike` holds, and then the same is behind
them. -/
def Separates (alike : Prop) (first second : List Char) : Prop :=
  ∀ rest more, Follows rest → Follows more → first ++ rest = second ++ more → alike ∧ rest = more

/-- The characters of what is written without brackets and quotes. -/
def inPath (c : Char) : Bool := inNumber c || c == '/'

theorem inPath_of_inNumber {c : Char} (inside : inNumber c = true) : inPath c = true := by
  rw [inPath, inside, Bool.true_or]

theorem Follows.stops {rest : List Char} (follows : Follows rest) : Stops inPath rest := by
  intro c member
  have behind := follows c member
  simp only [List.mem_cons, List.not_mem_nil, or_false] at behind
  rcases behind with rfl | rfl | rfl | rfl <;> rfl

theorem eq_of_append_eq {p : Char → Bool} {first second rest more : List Char}
    (inside : ∀ c ∈ first, p c = true) (insideOther : ∀ c ∈ second, p c = true)
    (stops : Stops p rest) (stopsOther : Stops p more) (same : first ++ rest = second ++ more) :
    first = second ∧ rest = more := by
  have front := congrArg (List.takeWhile p) same
  have behind := congrArg (List.dropWhile p) same
  rw [takeWhile_of_stops inside stops, takeWhile_of_stops insideOther stopsOther] at front
  rw [dropWhile_of_stops inside stops, dropWhile_of_stops insideOther stopsOther] at behind
  exact ⟨front, behind⟩

/-! ## Strings -/

/-- The literal of a string ends at its closing quote, whatever stands behind it. -/
theorem quote_append_inj {text other : String} {rest more : List Char}
    (same : (Text.Quoted.quote text).toList ++ rest = (Text.Quoted.quote other).toList ++ more) :
    text = other ∧ rest = more := by
  unfold Text.Quoted.quote at same
  simp only [String.toList_ofList, List.append_assoc, List.cons_append, List.nil_append] at same
  have taken := congrArg (takeString '\x27') (List.cons.inj same).2
  rw [takeString_encode, takeString_encode] at taken
  obtain ⟨content, behind⟩ := Prod.mk.inj (Option.some.inj taken)
  have decoded := congrArg Text.Quoted.decode content
  rw [Text.Quoted.decode_encode, Text.Quoted.decode_encode] at decoded
  exact ⟨String.toList_inj.mp (Option.some.inj decoded), behind⟩

/-! ## Names -/

theorem DottedName.OfNames.inNumber {name : DottedName} (named : name.OfNames) :
    ∀ c ∈ name.toText.toList, inNumber c = true := by
  intro c member
  rcases Text.mem_join member with point | ⟨segment, inside, member⟩
  · rw [List.mem_singleton.mp point]
    rfl
  · exact inNumber_of_isNameChar c (isNameChar_of_mem (named.segments segment inside) member)

theorem DottedName.OfNames.inPath {name : DottedName} (named : name.OfNames) :
    ∀ c ∈ name.toText.toList, inPath c = true :=
  fun c member => inPath_of_inNumber (named.inNumber c member)

theorem DottedName.OfNames.toText_inj {name other : DottedName} (named : name.OfNames)
    (namedOther : other.OfNames) (same : name.toText = other.toText) : name = other := by
  rw [← named.parse_toText, same, namedOther.parse_toText]

theorem Scope.qualify_eq_join (scope : Scope) (name : String) :
    scope.qualify name = Text.join "/" (scope.segments ++ [name]) := by
  obtain ⟨segments⟩ := scope
  cases segments with
  | nil => rfl
  | cons segment segments => exact (Text.join_concat "/" (List.cons_ne_nil _ _) name).symm

section

variable {target other : Reference}

/-- The scope and the symbol of a reference, as they are written. -/
def Reference.path (target : Reference) : String := target.scope.qualify target.symbol.toText

theorem Reference.inPath_path (inner : target.scope.OfNames) (named : target.symbol.OfNames) :
    ∀ c ∈ target.path.toList, inPath c = true := by
  intro c member
  rw [path, Scope.qualify_eq_join] at member
  rcases Text.mem_join member with slash | ⟨piece, inside, member⟩
  · rw [List.mem_singleton.mp slash]
    rfl
  rcases List.mem_append.mp inside with segment | symbol
  · exact inPath_of_inNumber
      (inNumber_of_isNameChar c (isNameChar_of_mem (inner piece segment) member))
  · rw [List.mem_singleton.mp symbol] at member
    exact named.inPath c member

theorem Reference.split_path (inner : target.scope.OfNames) (named : target.symbol.OfNames) :
    Text.split '/' target.path = target.scope.segments ++ [target.symbol.toText] := by
  rw [path, Scope.qualify_eq_join]
  refine Text.split_join (List.append_ne_nil_of_right_ne_nil _ (List.cons_ne_nil _ _)) ?_
  intro piece member inside
  rcases List.mem_append.mp member with segment | symbol
  · cases isNameChar_of_mem (inner piece segment) inside
  · rw [List.mem_singleton.mp symbol] at inside
    cases named.inNumber _ inside

/-- The brackets of a call. -/
def brackets (call : Bool) : List Char := if call then ['(', ')'] else []

/-- A call opens a bracket, and nothing that stands behind a value does. -/
theorem brackets_append_inj {call other : Bool} {rest more : List Char} (follows : Follows rest)
    (followsOther : Follows more) (same : brackets call ++ rest = brackets other ++ more) :
    call = other ∧ rest = more := by
  have opened {rest : List Char} (follows : Follows rest) (more : List Char) :
      rest ≠ '(' :: more := by
    rintro rfl
    have closing := follows '(' rfl
    simp at closing
  cases call <;> cases other
  · exact ⟨rfl, same⟩
  · exact absurd same (opened follows _)
  · exact absurd same.symm (opened followsOther _)
  · exact ⟨rfl, List.append_cancel_left same⟩

theorem Follows.stops_brackets {rest : List Char} (follows : Follows rest) (call : Bool) :
    Stops inPath (brackets call ++ rest) := by
  cases call with
  | true => exact stops_cons (c := '(') rfl _
  | false => exact follows.stops

theorem Reference.toText_append (target : Reference) (rest : List Char) :
    target.toText.toList ++ rest =
      '@' :: (target.path.toList ++ (brackets target.call ++ rest)) := by
  obtain ⟨scope, symbol, call⟩ := target
  cases call <;> simp [toText, path, brackets]

theorem Reference.separates (inner : target.scope.OfNames) (named : target.symbol.OfNames)
    (innerOther : other.scope.OfNames) (namedOther : other.symbol.OfNames) :
    Separates (target = other) target.toText.toList other.toText.toList := by
  intro rest more follows followsOther same
  rw [toText_append, toText_append] at same
  obtain ⟨paths, following⟩ := eq_of_append_eq (inPath_path inner named)
    (inPath_path innerOther namedOther) (follows.stops_brackets _) (followsOther.stops_brackets _)
    (List.cons.inj same).2
  obtain ⟨calls, behind⟩ := brackets_append_inj follows followsOther following
  have split := congrArg (Text.split '/') (String.toList_inj.mp paths)
  rw [split_path inner named, split_path innerOther namedOther] at split
  obtain ⟨scopes, symbols⟩ := List.append_inj' split rfl
  have symbol := named.toText_inj namedOther (List.singleton_inj.mp symbols)
  obtain ⟨⟨segments⟩, name, call⟩ := target
  obtain ⟨⟨others⟩, otherName, otherCall⟩ := other
  obtain rfl : segments = others := scopes
  obtain rfl : name = otherName := symbol
  obtain rfl : call = otherCall := calls
  exact ⟨rfl, behind⟩

end

/-! ## Numbers -/

/-- Whether the character is one of an integer. -/
def inInteger (c : Char) : Bool := c.isDigit || c == '-'

theorem inInteger_of_mem_toString {n : Int} :
    ∀ c ∈ (toString n).toList, inInteger c = true := by
  intro c member
  rw [toList_toString_int] at member
  split at member
  · rcases List.mem_cons.mp member with rfl | digit
    · rfl
    · rw [inInteger, isDigit_of_mem_toDigits c digit, Bool.true_or]
  · rw [inInteger, isDigit_of_mem_toDigits c member, Bool.true_or]

theorem toString_int_inj {n m : Int64} (same : toString n.toInt = toString m.toInt) : n = m := by
  obtain ⟨c, cs, written, _, read⟩ := exists_toList_toString_int n.toInt
  obtain ⟨d, ds, writtenOther, _, readOther⟩ := exists_toList_toString_int m.toInt
  rw [← written, same, writtenOther, readOther] at read
  have numerals := (Prod.mk.inj (Option.some.inj read)).1
  have values := congrArg Numeral.intValue numerals
  rw [intValue_intNumeral, intValue_intNumeral] at values
  exact (Int64.toInt_inj.mp values).symm

/-- The number is written with a first character that no constant has, and with a character that no
integer has. -/
structure FloatText (text : List Char) : Prop where
  first : ∀ c ∈ text.head?, inInteger c = true ∨ c = 'i'
  other : ∃ c ∈ text, inInteger c = false

section

variable {digits : List Char} (nonempty : digits ≠ []) (inside : ∀ c ∈ digits, c.isDigit = true)

include nonempty inside

theorem floatText_writePositional {form : FloatNotation} (keeps : form.keepsPoint = true)
    (place : Int) : FloatText (form.writePositional digits place) := by
  obtain ⟨c, cs, rfl⟩ := List.exists_cons_of_ne_nil nonempty
  have digit : inInteger c = true ∨ c = 'i' := by
    rw [inInteger, inside c List.mem_cons_self]
    exact .inl rfl
  have point : inInteger '.' = false := by decide
  unfold FloatNotation.writePositional
  split
  · exact ⟨fun d member => by cases member; exact .inl rfl, '.', by simp, point⟩
  split
  · rename_i positive _
    obtain ⟨k, size⟩ : ∃ k, place.toNat = k + 1 := ⟨place.toNat - 1, by omega⟩
    rw [size]
    refine ⟨fun d member => ?_, '.', by simp, point⟩
    cases member
    exact digit
  · refine ⟨fun d member => ?_, '.', by simp, point⟩
    cases member
    exact digit

theorem floatText_writeExponent (place : Int) :
    FloatText (FloatNotation.writeExponent digits place) := by
  obtain ⟨c, cs, rfl⟩ := List.exists_cons_of_ne_nil nonempty
  have digit : inInteger c = true ∨ c = 'i' := by
    rw [inInteger, inside c List.mem_cons_self]
    exact .inl rfl
  refine ⟨fun d member => ?_, 'e', by simp [FloatNotation.writeExponent], by decide⟩
  unfold FloatNotation.writeExponent at member
  cases cs <;> cases member <;> exact digit

end

theorem floatText_toText (x : Binary64) : x.toText = "NaN" ∨ FloatText x.toText.toList := by
  unfold Binary64.toText FloatNotation.write
  split
  · exact .inl rfl
  right
  rw [String.toList_ofList]
  have magnitude : FloatText (if x.isInfinite then ['i', 'n', 'f']
      else FloatNotation.literal.writeDecimal x.shortest) := by
    split
    · exact ⟨fun c member => by cases member; exact .inr rfl, 'i', by simp, by decide⟩
    · unfold FloatNotation.writeDecimal
      dsimp only
      split
      · exact floatText_writePositional Nat.toDigits_ne_nil isDigit_of_mem_toDigits rfl _
      · exact floatText_writeExponent Nat.toDigits_ne_nil isDigit_of_mem_toDigits _
  split
  · obtain ⟨c, member, other⟩ := magnitude.other
    refine ⟨fun d first => ?_, c, List.mem_append_right _ member, other⟩
    cases first
    exact .inl rfl
  · exact magnitude

/-! ## Literals -/

/-- The literals are the same, or floating point numbers that are written the same. -/
def Literal.Alike : Literal → Literal → Prop
  | .float x, .float y => x.toText = y.toText
  | first, second => first = second

theorem Literal.Alike.toText_eq {value other : Literal} (alike : value.Alike other) :
    value.toText = other.toText := by
  cases value <;> cases other <;> first
    | exact congrArg Literal.toText alike
    | exact alike

/-- The constants, and the two kinds of numbers. -/
inductive Literal.Kind
  | none
  | bool (value : Bool)
  | int
  | float
  | str
deriving DecidableEq

def Literal.kind : Literal → Kind
  | .none => .none
  | .bool value => .bool value
  | .int _ => .int
  | .float _ => .float
  | .str _ => .str

/-- The kind of the constant or number with the given text. -/
def Literal.Kind.ofText (text : List Char) : Kind :=
  if text.all inInteger then .int
  else if text = "None".toList then .none
  else if text = "True".toList then .bool true
  else if text = "False".toList then .bool false
  else .float

theorem FloatText.kind {text : List Char} (written : FloatText text) :
    Literal.Kind.ofText text = .float := by
  obtain ⟨c, member, other⟩ := written.other
  have notInteger : ¬ text.all inInteger = true := fun all => by
    rw [List.all_eq_true.mp all c member] at other
    cases other
  have apart {word : String} {d : Char} {ds : List Char} (spelled : word.toList = d :: ds)
      (opens : inInteger d = false) (letter : d ≠ 'i') : text ≠ word.toList := by
    rintro rfl
    rw [spelled] at written
    rcases written.first d rfl with digit | same
    · rw [digit] at opens
      cases opens
    · exact letter same
  unfold Literal.Kind.ofText
  rw [if_neg notInteger, if_neg (apart rfl (by decide) (by decide)),
    if_neg (apart rfl (by decide) (by decide)), if_neg (apart rfl (by decide) (by decide))]

theorem Literal.kind_toText {value : Literal} (unquoted : value.kind ≠ .str) :
    Kind.ofText value.toText.toList = value.kind := by
  cases value with
  | none => decide
  | bool value => cases value <;> decide
  | int n =>
    exact if_pos (List.all_eq_true.mpr inInteger_of_mem_toString)
  | float x =>
    rcases floatText_toText x with nan | written
    · show Kind.ofText x.toText.toList = .float
      rw [nan]
      decide
    · exact written.kind
  | str text => exact absurd rfl unquoted

theorem Literal.alike_of_toText_eq {value other : Literal} (unquoted : value.kind ≠ .str)
    (unquotedOther : other.kind ≠ .str) (same : value.toText = other.toText) :
    value.Alike other := by
  have kinds : value.kind = other.kind := by
    rw [← kind_toText unquoted, same, kind_toText unquotedOther]
  cases value <;> cases other <;> cases kinds
  · rfl
  · rfl
  · exact congrArg Literal.int (toString_int_inj same)
  · exact same
  · exact absurd rfl unquoted

theorem Literal.inPath_toText {value : Literal} (unquoted : value.kind ≠ .str) :
    ∀ c ∈ value.toText.toList, inPath c = true := by
  cases value with
  | none => exact List.all_eq_true.mp rfl
  | bool value => cases value <;> exact List.all_eq_true.mp rfl
  | int n =>
    intro c member
    rcases Bool.or_eq_true_iff.mp (inInteger_of_mem_toString c member) with digit | minus
    · exact inPath_of_inNumber (inNumber_of_isDigitChar (isDigitChar_of_isDigit digit))
    · rw [eq_of_beq minus]
      rfl
  | float x => exact fun c member => inPath_of_inNumber (inNumber_of_mem_toText x c member)
  | str text => exact absurd rfl unquoted

theorem Literal.toText_ne_nil {value : Literal} : value.toText.toList ≠ [] := by
  cases value with
  | none => decide
  | bool value => cases value <;> decide
  | int n =>
    obtain ⟨c, cs, written, _⟩ := exists_toList_toString_int n.toInt
    show (toString n.toInt).toList ≠ []
    rw [written]
    exact List.cons_ne_nil _ _
  | float x =>
    show x.toText.toList ≠ []
    rcases floatText_toText x with nan | written
    · rw [nan]
      decide
    · obtain ⟨c, member, _⟩ := written.other
      exact List.ne_nil_of_mem member
  | str text =>
    show (Text.Quoted.quote text).toList ≠ []
    simp [Text.Quoted.quote]

theorem Literal.separates {value other : Literal} (kinds : value.kind = .str ↔ other.kind = .str) :
    Separates (value.Alike other) value.toText.toList other.toText.toList := by
  intro rest more follows followsOther same
  by_cases quoted : value.kind = .str
  · cases value <;> cases quoted
    have quotedOther := kinds.mp rfl
    cases other <;> cases quotedOther
    obtain ⟨rfl, behind⟩ := quote_append_inj same
    exact ⟨rfl, behind⟩
  · have quotedOther := mt kinds.mpr quoted
    obtain ⟨texts, behind⟩ := eq_of_append_eq (inPath_toText quoted) (inPath_toText quotedOther)
      follows.stops followsOther.stops same
    exact ⟨alike_of_toText_eq quoted quotedOther (String.toList_inj.mp texts), behind⟩

end ConfigBinding
