import ConfigBinding.Proofs.Lexing.Slices
import ConfigBinding.Proofs.Reading.Numbers

/-!
# Reading line by line

The end of a line is a blank and in no other class, so no token goes past it. What a text reads as
is not changed by lines behind it: neither its tokens, nor where it cannot be read. These lines
read as they do alone, only further on.

Results:
1. `tokensAt_ahead`: a text reads the same at every byte.
2. `scan_append_line`: a step at a character that is no blank stays on its line.
3. `tokensAt_append_line`: the reading of two texts with the end of a line between them.
-/

namespace ConfigBinding

/-- The lexeme as it stands when `count` more bytes are before it. -/
def Lexeme.ahead (count : Nat) (l : Lexeme) : Lexeme := ⟨l.token, l.start + count, l.stop + count⟩

/-- The failure as it is reported when `count` more bytes are before it. -/
def LexError.ahead (count : Nat) (error : LexError) : LexError :=
  ⟨error.cause, error.start + count, error.stop + count⟩

namespace Lexer

/-- A reading as it is when `count` more bytes are before the text. -/
def ahead (count : Nat) : Except LexError (List Lexeme) → Except LexError (List Lexeme)
  | .ok lexemes => .ok (lexemes.map (Lexeme.ahead count))
  | .error error => .error (error.ahead count)

/-- Two readings, one behind the other. -/
def follow (first second : Except LexError (List Lexeme)) : Except LexError (List Lexeme) :=
  match first, second with
  | .ok lexemes, .ok others => .ok (lexemes ++ others)
  | .ok _, .error error => .error error
  | .error error, _ => .error error

/-! ## Reading at a byte -/

/-- The tokens of a text that begins at the byte `offset`. -/
def tokensAt (offset : Nat) (cs : List Char) : Except LexError (List Lexeme) :=
  tokensFrom cs.length offset cs

theorem tokensAt_nil (offset : Nat) : tokensAt offset [] = .ok [] := rfl

theorem tokensFrom_eq_of_enough {fuel more : Nat} {cs : List Char} (enough : cs.length ≤ fuel)
    (also : cs.length ≤ more) (offset : Nat) :
    tokensFrom fuel offset cs = tokensFrom more offset cs := by
  induction fuel generalizing more offset cs with
  | zero =>
    obtain rfl := List.eq_nil_of_length_eq_zero (Nat.le_zero.mp enough)
    cases more <;> rfl
  | succ fuel ih =>
    cases cs with
    | nil => cases more <;> rfl
    | cons c cs =>
      cases more with
      | zero => cases also
      | succ more =>
        have shorter := scan_length c cs
        rw [List.length_cons] at enough also
        rw [tokensFrom, tokensFrom]
        cases scanned : scan c cs with
        | skip taken rest =>
          rw [scanned, Scan.rest] at shorter
          exact ih (Nat.le_trans shorter (Nat.le_of_succ_le_succ enough))
            (Nat.le_trans shorter (Nat.le_of_succ_le_succ also)) _
        | token token taken rest =>
          rw [scanned, Scan.rest] at shorter
          simp only [ih (Nat.le_trans shorter (Nat.le_of_succ_le_succ enough))
            (Nat.le_trans shorter (Nat.le_of_succ_le_succ also))]
        | failure cause taken => rfl

/-- One step, and then the tokens of what it leaves. -/
theorem tokensAt_cons (offset : Nat) (c : Char) (cs : List Char) :
    tokensAt offset (c :: cs) =
      match scan c cs with
      | .skip taken rest => tokensAt (offset + byteSize taken) rest
      | .token token taken rest =>
        follow (.ok [⟨token, offset, offset + byteSize taken⟩])
          (tokensAt (offset + byteSize taken) rest)
      | .failure cause taken => .error ⟨cause, offset, offset + byteSize taken⟩ := by
  have shorter := scan_length c cs
  rw [tokensAt, List.length_cons, tokensFrom]
  cases scanned : scan c cs with
  | skip taken rest =>
    rw [scanned] at shorter
    exact tokensFrom_eq_of_enough shorter (Nat.le_refl _) _
  | token token taken rest =>
    rw [scanned, Scan.rest] at shorter
    simp only [tokensFrom_eq_of_enough shorter (Nat.le_refl _), tokensAt]
    cases tokensFrom rest.length (offset + byteSize taken) rest <;> rfl
  | failure cause taken => rfl

theorem tokenize_eq_tokensAt (text : String) : tokenize text = tokensAt 0 text.toList := rfl

theorem ahead_follow (count : Nat) (first second : Except LexError (List Lexeme)) :
    ahead count (follow first second) = follow (ahead count first) (ahead count second) := by
  cases first with
  | error error => rfl
  | ok lexemes =>
    cases second with
    | error error => rfl
    | ok others => exact congrArg Except.ok List.map_append

/-- A text reads the same at every byte. -/
theorem tokensAt_ahead (offset count : Nat) (cs : List Char) :
    tokensAt (offset + count) cs = ahead count (tokensAt offset cs) := by
  generalize size : cs.length = n
  induction n using Nat.strong_induction_on generalizing cs offset with
  | _ n ih =>
    cases cs with
    | nil => rfl
    | cons c cs =>
      have shorter := scan_length c cs
      rw [List.length_cons] at size
      rw [tokensAt_cons, tokensAt_cons]
      cases scanned : scan c cs with
      | skip taken rest =>
        rw [scanned, Scan.rest] at shorter
        have same := ih rest.length (by omega) (offset + byteSize taken) rest rfl
        rw [Nat.add_right_comm] at same
        exact same
      | token token taken rest =>
        rw [scanned, Scan.rest] at shorter
        have same := ih rest.length (by omega) (offset + byteSize taken) rest rfl
        simp only
        rw [ahead_follow, ← same, ahead, List.map_singleton, Lexeme.ahead, Nat.add_right_comm]
      | failure cause taken =>
        simp only [ahead, LexError.ahead, Nat.add_right_comm]

/-! ## Steps on a line -/

/-- The same step in a text that goes on with `more`. -/
def Scan.append (more : List Char) : Scan → Scan
  | .skip taken rest => .skip taken (rest ++ more)
  | .token read taken rest => .token read taken (rest ++ more)
  | .failure cause taken => .failure cause taken

section

variable (ds : List Char)

theorem stops_line {p : Char → Bool} (apart : p '\n' = false) : Stops p ('\n' :: ds) :=
  stops_cons apart ds

/-- A string ends on its line. -/
theorem takeString_append_line {quote : Char} (isQuote : quote ≠ '\n') (cs : List Char) :
    takeString quote (cs ++ '\n' :: ds) =
      (takeString quote cs).map fun taken => (taken.1, taken.2 ++ '\n' :: ds) := by
  fun_induction takeString quote cs with
  | case1 => simp [takeString.eq_def quote ('\n' :: ds), isQuote.symm]
  | case2 => rw [List.cons_append, takeString_closing]; rfl
  | case3 _ other => simp [takeString.eq_def quote ('\n' :: _), other]
  | case4 other => simp [takeString, other]
  | case5 _ other => simp [takeString, other]
  | case6 d cs escaped other _ ih =>
    simp only [List.cons_append, takeString, if_neg other, if_neg escaped, ih, Option.map_map]
    rfl
  | case7 c cs other notLine plain ih =>
    rw [List.cons_append, takeString_plain other notLine plain, ih, Option.map_map,
      Option.map_map]
    rfl

theorem scanString_append_line {quote : Char} (isQuote : quote ≠ '\n') (cs : List Char) :
    scanString quote (cs ++ '\n' :: ds) = (scanString quote cs).append ('\n' :: ds) := by
  have line : (cs ++ '\n' :: ds).takeWhile (· ≠ '\n') = cs.takeWhile (· ≠ '\n') :=
    takeWhile_append_of_stops cs (stops_line ds rfl)
  unfold scanString
  rw [takeString_append_line ds isQuote, line]
  cases takeString quote cs with
  | none => rfl
  | some taken =>
    simp only [Option.map_some]
    cases Text.Quoted.decode taken.1 <;> rfl

theorem scanNumber_append_line (c : Char) (cs : List Char) :
    scanNumber c (cs ++ '\n' :: ds) = (scanNumber c cs).append ('\n' :: ds) := by
  unfold scanNumber
  rw [← List.cons_append, takeNumeral_append (stops_line ds rfl)]
  cases takeNumeral (c :: cs) with
  | none => rfl
  | some taken =>
    simp only [Option.map_some]
    cases taken.1.token? <;> rfl

/-- A step at a character that is no blank stays on its line. -/
theorem scan_append_line {c : Char} (notBlank : isBlank c = false) (cs : List Char) :
    scan c (cs ++ '\n' :: ds) = (scan c cs).append ('\n' :: ds) := by
  have plain : ¬ isBlank c = true := by rw [notBlank]; exact Bool.false_ne_true
  simp only [scan, if_neg plain, takeWhile_append_of_stops cs (stops_line (p := isNameChar) ds rfl),
    dropWhile_append_of_stops cs (stops_line (p := isNameChar) ds rfl),
    takeWhile_append_of_stops cs (stops_line (p := (· ≠ '\n')) ds rfl),
    dropWhile_append_of_stops cs (stops_line (p := (· ≠ '\n')) ds rfl)]
  split
  · rfl
  split
  · rfl
  split
  · rename_i isQuote
    exact scanString_append_line ds (by rcases isQuote with rfl | rfl <;> decide) cs
  split
  · exact scanNumber_append_line ds c cs
  cases Mark.ofChar? c <;> rfl

end

/-! ## Lines -/

/-- Blanks are passed over one by one. -/
theorem tokensAt_blank {c : Char} (blank : isBlank c = true) (offset : Nat) (cs : List Char) :
    tokensAt offset (c :: cs) = tokensAt (offset + c.utf8Size) cs := by
  have scanned (d : Char) (ds : List Char) (blank : isBlank d = true) :
      scan d ds = .skip (d :: ds.takeWhile isBlank) (ds.dropWhile isBlank) := if_pos blank
  rw [tokensAt_cons, scanned c cs blank]
  cases cs with
  | nil => rfl
  | cons d ds =>
    by_cases more : isBlank d = true
    · rw [tokensAt_cons (offset + c.utf8Size), scanned d ds more]
      simp only [List.takeWhile_cons_of_pos more, List.dropWhile_cons_of_pos more, byteSize_cons,
        Nat.add_assoc]
    · simp only [List.takeWhile_cons_of_neg more, List.dropWhile_cons_of_neg more, byteSize_cons,
        byteSize_nil, Nat.add_zero]

theorem follow_assoc (first second third : Except LexError (List Lexeme)) :
    follow (follow first second) third = follow first (follow second third) := by
  cases first with
  | error error => rfl
  | ok lexemes =>
    cases second with
    | error error => rfl
    | ok others =>
      cases third with
      | error error => rfl
      | ok more => exact congrArg Except.ok (List.append_assoc ..)

theorem follow_nil (reading : Except LexError (List Lexeme)) :
    follow (.ok []) reading = reading := by
  cases reading <;> rfl

/-- Two texts with the end of a line between them read as the first and then the second. -/
theorem tokensAt_append_line (offset : Nat) (cs ds : List Char) :
    tokensAt offset (cs ++ '\n' :: ds) =
      follow (tokensAt offset cs) (tokensAt (offset + byteSize cs + 1) ds) := by
  generalize size : cs.length = n
  induction n using Nat.strong_induction_on generalizing cs offset with
  | _ n ih =>
    cases cs with
    | nil => rw [List.nil_append, tokensAt_blank rfl, tokensAt_nil, follow_nil]; rfl
    | cons c cs =>
      rw [List.length_cons] at size
      cases blank : isBlank c with
      | true =>
        rw [List.cons_append, tokensAt_blank blank, tokensAt_blank blank,
          ih cs.length (by omega) (offset + c.utf8Size) cs rfl, byteSize_cons, Nat.add_assoc offset]
      | false =>
        have shorter := scan_length c cs
        have explained := scan_explained c cs
        rw [List.cons_append, tokensAt_cons, tokensAt_cons, scan_append_line ds blank]
        cases scanned : scan c cs with
        | skip taken rest =>
          rw [scanned] at shorter explained
          simp only [Scan.append]
          rw [explained.1, byteSize_append, ← Nat.add_assoc]
          exact ih rest.length (Nat.lt_of_le_of_lt shorter (by omega)) _ rest rfl
        | token token taken rest =>
          rw [scanned] at shorter explained
          simp only [Scan.append]
          rw [explained.1, byteSize_append, ← Nat.add_assoc, follow_assoc,
            ih rest.length (Nat.lt_of_le_of_lt shorter (by omega)) _ rest rfl]
        | failure cause taken => rfl

theorem tokenize_append (a b : String) :
    tokenize (a ++ "\n" ++ b) =
      follow (tokenize a) (ahead (byteSize a.toList + 1) (tokenize b)) := by
  have whole : (a ++ "\n" ++ b).toList = a.toList ++ '\n' :: b.toList := by simp
  rw [tokenize_eq_tokensAt, whole, tokensAt_append_line, Nat.add_assoc, tokensAt_ahead]
  rfl

end Lexer

/-- Reading is local to lines, for a text `a` with further lines `b` behind it.
* If `a` cannot be read, this is what fails, and where.
* Otherwise the tokens of `a` come first and then those of `b`, behind the bytes of `a` and the end
  of its line.
* If only `b` cannot be read, its failure is reported behind these bytes. -/
theorem tokenize_append_line (a b : String) :
    (∀ error, tokenize a = .error error → tokenize (a ++ "\n" ++ b) = .error error) ∧
    (∀ lexemes others, tokenize a = .ok lexemes → tokenize b = .ok others →
      tokenize (a ++ "\n" ++ b) =
        .ok (lexemes ++ others.map (Lexeme.ahead (byteSize a.toList + 1)))) ∧
    ∀ lexemes error, tokenize a = .ok lexemes → tokenize b = .error error →
      tokenize (a ++ "\n" ++ b) = .error (error.ahead (byteSize a.toList + 1)) := by
  rw [Lexer.tokenize_append]
  refine ⟨fun error failed => ?_, fun lexemes others read also => ?_,
    fun lexemes error read failed => ?_⟩
  · rw [failed]
    rfl
  · rw [read, also]
    rfl
  · rw [read, failed]
    rfl

end ConfigBinding
