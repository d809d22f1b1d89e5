/-!
# Quoted strings

The text of a string literal. It is written between single quotes, with an escape for the quote,
the backslash and the three control characters that have a letter; all other characters stand
for themselves. It is read by undoing these escapes, and the escape of the double quote as well;
any other escape makes the literal unreadable.

Results:
1. `unescape?_of_escape?`: an escape that is written is an escape that is read.
2. `decode_encode`: the written content reads back as the string.
-/

namespace ConfigBinding.Text.Quoted

/-- The letter that stands after a backslash for a character that cannot be written plainly. -/
def escape? : Char → Option Char
  | '\x27' => some '\x27'
  | '\\' => some '\\'
  | '\n' => some 'n'
  | '\r' => some 'r'
  | '\t' => some 't'
  | _ => none

/-- The character that an escape letter stands for. -/
def unescape? : Char → Option Char
  | 'n' => some '\n'
  | 'r' => some '\r'
  | 't' => some '\t'
  | '\\' => some '\\'
  | '\x22' => some '\x22'
  | '\x27' => some '\x27'
  | _ => none

/-- The content of a literal for a string: what stands between its single quotes. -/
def encode : List Char → List Char
  | [] => []
  | c :: cs =>
    match escape? c with
    | some letter => '\\' :: letter :: encode cs
    | none => c :: encode cs

/-- The string that the content of a literal denotes; `none` at an escape that has no meaning. -/
def decode : List Char → Option (List Char)
  | [] => some []
  | '\\' :: [] => none
  | '\\' :: letter :: cs =>
    match unescape? letter with
    | some c => (decode cs).map (c :: ·)
    | none => none
  | c :: cs => (decode cs).map (c :: ·)

/-- The literal for `text`, with its quotes. -/
def quote (text : String) : String :=
  String.ofList ('\x27' :: encode text.toList ++ ['\x27'])

theorem unescape?_of_escape? {c letter : Char} (h : escape? c = some letter) :
    unescape? letter = some c := by
  unfold escape? at h
  split at h <;> cases h <;> rfl

theorem decode_cons {c : Char} (plain : c ≠ '\\') (cs : List Char) :
    decode (c :: cs) = (decode cs).map (c :: ·) := by
  rw [decode]
  · intro h; exact absurd h plain
  · intro _ _ h; exact absurd h plain

theorem decode_encode (cs : List Char) : decode (encode cs) = some cs := by
  induction cs with
  | nil => rfl
  | cons c cs ih =>
    rw [encode]
    split
    · rename_i letter written
      simp [decode, unescape?_of_escape? written, ih]
    · rename_i written
      have plain : c ≠ '\\' := by
        rintro rfl
        simp [escape?] at written
      simp [decode_cons plain, ih]

end ConfigBinding.Text.Quoted
