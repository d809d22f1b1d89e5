import ConfigBinding.Number.Binary64

/-!
# Reading numbers from text

Decimal numbers in the usual notation: a sign, digits with a point among, before or behind them, and
a power of ten. Infinity and NaN are read by their names, in upper or lower case.
-/

namespace ConfigBinding

namespace Decimal

/-- The value of a sequence of digits in a base of at most sixteen, after the value `value` so far;
none at a character that is no digit. -/
def digitsValue? (base : Nat) : Nat → List Char → Option Nat
  | value, [] => some value
  | value, c :: cs =>
    let digit? :=
      if c.isDigit then some (c.toNat - '0'.toNat)
      else if 'a' ≤ c ∧ c ≤ 'f' then some (c.toNat - 'a'.toNat + 10)
      else if 'A' ≤ c ∧ c ≤ 'F' then some (c.toNat - 'A'.toNat + 10)
      else none
    match digit? with
    | some digit => if digit < base then digitsValue? base (base * value + digit) cs else none
    | none => none

/-- The natural number with the given digits; there must be at least one. -/
def nat? (base : Nat) (digits : List Char) : Option Nat :=
  if digits.isEmpty then none else digitsValue? base 0 digits

/-- A sign at the start of a text, true for minus, and what follows it. -/
def takeSign : List Char → Bool × List Char
  | '-' :: cs => (true, cs)
  | '+' :: cs => (false, cs)
  | cs => (false, cs)

/-- The integer written in base ten, with an optional sign. -/
def int? (text : String) : Option Int :=
  let (negative, digits) := takeSign text.toList
  (nat? 10 digits).map fun n => if negative then -(n : Int) else n

end Decimal

namespace Binary64

/-- The power of ten at the end of a number, which may be missing. -/
def exponent? : List Char → Option Int
  | [] => some 0
  | c :: cs =>
    if c = 'e' ∨ c = 'E' then
      let (negative, digits) := Decimal.takeSign cs
      (Decimal.nat? 10 digits).map fun n => if negative then -(n : Int) else n
    else none

/-- The number nearest to a decimal without a sign. -/
def magnitude? (negative : Bool) (cs : List Char) : Option Binary64 :=
  let whole := cs.takeWhile Char.isDigit
  let (fraction, rest) := match cs.dropWhile Char.isDigit with
    | '.' :: ds => (ds.takeWhile Char.isDigit, ds.dropWhile Char.isDigit)
    | ds => ([], ds)
  match Decimal.nat? 10 (whole ++ fraction), exponent? rest with
  | some digits, some power => some (ofDecimal negative digits (power - fraction.length))
  | _, _ => none

/-- The number that a text denotes, rounded to the nearest floating point number. -/
def parse? (text : String) : Option Binary64 :=
  let (negative, cs) := Decimal.takeSign text.toList
  match String.ofList (cs.map Char.toLower) with
  | "inf" | "infinity" => some (infinity negative)
  | "nan" => some nan
  | _ => magnitude? negative cs

end Binary64

end ConfigBinding
