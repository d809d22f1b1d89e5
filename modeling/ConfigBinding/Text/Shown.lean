import ConfigBinding.Text.Hidden

/-!
# Text shown for inspection

A text between double quotes in which every character can be told: quotes, backslashes and control
characters are escaped, and so is each character that does not show by itself.
-/

namespace ConfigBinding.Text.Shown

/-- The hexadecimal number of a character, between braces. -/
def byNumber (c : Char) : List Char :=
  ['\\', 'u', '\x7b'] ++ Nat.toDigits 16 c.toNat ++ ['\x7d']

def encodeChar (c : Char) : List Char :=
  match c with
  | '\x00' => ['\\', '0']
  | '\t' => ['\\', 't']
  | '\n' => ['\\', 'n']
  | '\r' => ['\\', 'r']
  | '\x22' => ['\\', '\x22']
  | '\\' => ['\\', '\\']
  | c =>
    if c.toNat < 32 ∨ c.toNat = 127 ∨ Hidden.contains c then byNumber c else [c]

/-- The text between double quotes. -/
def quote (text : String) : String :=
  String.ofList ('\x22' :: text.toList.flatMap encodeChar ++ ['\x22'])

end ConfigBinding.Text.Shown
