import ConfigBinding.Number.Shortest

/-!
# Notations of floating point numbers

A number is written with its shortest digits, either positionally or with an exponent. A notation
says which numbers are written positionally and whether a whole number keeps its point.

* `literal`: the form in which a number stands in a binding file. It always holds a point or an
  exponent, so it is never taken for an integer.
* `plain`: no exponent at all, and no point after a whole number.

Infinity and NaN have a text of their own in both notations; neither is a literal of the language.
-/

namespace ConfigBinding

/-- A notation for floating point numbers. -/
structure FloatNotation where
  /-- The places of the decimal point, counted from the first digit, at which a number is written
  positionally. With none given, all numbers are. -/
  positional : Option (Int × Int)
  /-- Whether a whole number that is written positionally ends in `.0`. -/
  keepsPoint : Bool

namespace FloatNotation

/-- Positional from a ten-thousandth up to, but not including, ten to the sixteenth. -/
def literal : FloatNotation := ⟨some (-3, 16), true⟩

def plain : FloatNotation := ⟨none, false⟩

/-- Whether a number whose decimal point is at `place` is written positionally. -/
def isPositional (form : FloatNotation) (place : Int) : Bool :=
  match form.positional with
  | none => true
  | some (least, most) => decide (least ≤ place ∧ place ≤ most)

/-- The digits with the decimal point `place` digits after the first one's start. -/
def writePositional (form : FloatNotation) (digits : List Char) (place : Int) : List Char :=
  if place ≤ 0 then '0' :: '.' :: (List.replicate (-place).toNat '0' ++ digits)
  else if place < digits.length then
    digits.take place.toNat ++ '.' :: digits.drop place.toNat
  else
    digits ++ List.replicate (place.toNat - digits.length) '0' ++
      (if form.keepsPoint then ['.', '0'] else [])

/-- The digits as a number from one to below ten, and the power of ten that it is multiplied by. -/
def writeExponent (digits : List Char) (place : Int) : List Char :=
  (match digits with
    | [] => []
    | [digit] => [digit]
    | digit :: more => digit :: '.' :: more)
  ++ 'e' :: (toString (place - 1)).toList

/-- A magnitude in the given notation. -/
def writeDecimal (form : FloatNotation) (d : Decimal) : List Char :=
  let digits := Nat.toDigits 10 d.digits
  let place := digits.length + d.power
  if form.isPositional place then form.writePositional digits place
  else writeExponent digits place

/-- The text of a number in the given notation. -/
def write (form : FloatNotation) (x : Binary64) : String :=
  if x.isNaN then "NaN"
  else
    let sign := if x.negative then ['-'] else []
    String.ofList (sign ++
      if x.isInfinite then ['i', 'n', 'f'] else form.writeDecimal x.shortest)

end FloatNotation

/-- The text of a number as a literal. -/
def Binary64.toText (x : Binary64) : String := FloatNotation.literal.write x

end ConfigBinding
