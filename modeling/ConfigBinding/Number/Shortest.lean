import ConfigBinding.Number.Binary64

/-!
# The shortest decimal that reads back

A finite number is written with the fewest decimal digits that still lie between the midpoints to
its two neighbours; of two such decimals the nearer one is taken, and the larger one when both are
equally near. The midpoints themselves count when the number is even, since reading rounds a tie to
the even neighbour.

All quantities are exact: the number and its two midpoints are integers over one denominator.
-/

namespace ConfigBinding

/-- The decimal `digits * 10 ^ power`. -/
structure Decimal where
  digits : Nat
  power : Int
deriving DecidableEq, Repr

namespace Decimal

/-- Moves up to `count` zeros from the end of the digits into the power. -/
def strip : Nat → Decimal → Decimal
  | 0, d => d
  | count + 1, d =>
    if d.digits % 10 = 0 then strip count ⟨d.digits / 10, d.power + 1⟩ else d

end Decimal

/-- The numbers that round to one floating point number: all between `low` and `high`, which
stand with `value` over the denominator `den`, and these two themselves when `closed`. -/
structure RoundingInterval where
  value : Nat
  low : Nat
  high : Nat
  den : Nat
  closed : Bool

namespace RoundingInterval

/-- The interval of a positive finite number. Below a power of two the neighbours stand closer
together, so the lower midpoint is half as far. -/
def ofBinary64 (x : Binary64) : RoundingInterval :=
  let m := x.significand
  let shift := x.exponent - 2
  let factor := 1 <<< shift.toNat
  { value := 4 * m * factor
    low := (4 * m - (if m = Binary64.leadingBit then 1 else 2)) * factor
    high := (4 * m + 2) * factor
    den := 1 <<< (-shift).toNat
    closed := m % 2 = 0 }

/-- Whether `digits * 10 ^ power` lies in the interval. -/
def contains (i : RoundingInterval) (digits : Nat) (power : Int) : Bool :=
  let point := digits * Binary64.powerOfTen power.toNat * i.den
  let unit := Binary64.powerOfTen (-power).toNat
  if i.closed then decide (i.low * unit ≤ point ∧ point ≤ i.high * unit)
  else decide (i.low * unit < point ∧ point < i.high * unit)

/-- The place of the first digit: the value is below `10 ^ top` and not below `10 ^ (top - 1)`. -/
def top (i : RoundingInterval) : Int :=
  if i.den ≤ i.value then Binary64.decimalLength (i.value / i.den)
  else 1 - (Binary64.decimalLength ((i.den - 1) / i.value) : Int)

/-- The decimal with `count` digits that is taken for the interval, if one lies in it. Only the two
decimals next to the value need to be tried. -/
def atLength (i : RoundingInterval) (count : Nat) : Option Decimal :=
  let power := i.top - count
  let unit := Binary64.powerOfTen (-power).toNat
  let step := Binary64.powerOfTen power.toNat * i.den
  let below := i.value * unit / step
  let rest := i.value * unit % step
  match i.contains below power, i.contains (below + 1) power with
  | true, true => some ⟨if 2 * rest < step then below else below + 1, power⟩
  | true, false => some ⟨below, power⟩
  | false, true => some ⟨below + 1, power⟩
  | false, false => none

/-- The decimal with the fewest digits. Seventeen digits always suffice. -/
def shortest (i : RoundingInterval) : Decimal :=
  match (List.range' 1 17).findSome? i.atLength with
  | some d => d.strip 20
  | none =>
    ⟨i.value * Binary64.powerOfTen (17 - i.top).toNat
      / (i.den * Binary64.powerOfTen (i.top - 17).toNat), i.top - 17⟩

end RoundingInterval

/-- The shortest decimal that reads back as the magnitude of the finite number `x`. -/
def Binary64.shortest (x : Binary64) : Decimal :=
  if x.isZero then ⟨0, 0⟩ else (RoundingInterval.ofBinary64 x).shortest

end ConfigBinding
