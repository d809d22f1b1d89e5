/-!
# Binary floating point numbers of 64 bits

A number is its bit pattern, so two numbers are the same exactly when no operation can tell them
apart. The comparison of numbers is another matter (`ieeeEq`): it takes both zeros for equal and
no NaN for equal to anything.

A magnitude without its sign is read as an integer: `k * 2 ^ 52 + m` stands for `m * 2 ^ (k - 1074)`
as long as `m < 2 ^ 53`, with `2 ^ 52 ≤ m` unless `k = 0`. Consecutive magnitudes are consecutive
integers, which is why rounding up may carry into the exponent without a special case.

Results:
1. `ofRatio_isNaN`: a rounded quotient is never NaN.
-/

namespace ConfigBinding

/-- A floating point number of 64 bits, by its bit pattern. -/
structure Binary64 where
  bits : UInt64
deriving DecidableEq

namespace Binary64

/-- The magnitude by which the exponent rises by one, which is `2 ^ 52`. It is also the leading bit
of a significand, which is not stored. -/
def leadingBit : Nat := 0x10000000000000

/-- The bit of the sign, which is `2 ^ 63`. -/
def signBit : Nat := 0x8000000000000000

/-- The power of ten with the given exponent. -/
def powerOfTen (exponent : Nat) : Nat := Nat.pow 10 exponent

/-- The magnitude of infinity: the largest exponent with an empty fraction. -/
def infiniteMagnitude : Nat := 2047 * leadingBit

/-- The number with the given sign and magnitude. -/
def ofMagnitude (negative : Bool) (magnitude : Nat) : Binary64 :=
  ⟨UInt64.ofNat ((if negative then signBit else 0) + magnitude)⟩

/-- The bit pattern without its sign. -/
def magnitude (x : Binary64) : Nat := x.bits.toNat % signBit

/-- Whether the sign bit is set, also on zero and NaN. -/
def negative (x : Binary64) : Bool := decide (signBit ≤ x.bits.toNat)

def isNaN (x : Binary64) : Bool := decide (infiniteMagnitude < x.magnitude)

def isInfinite (x : Binary64) : Bool := x.magnitude == infiniteMagnitude

def isFinite (x : Binary64) : Bool := decide (x.magnitude < infiniteMagnitude)

def isZero (x : Binary64) : Bool := x.magnitude == 0

def infinity (negative : Bool) : Binary64 := ofMagnitude negative infiniteMagnitude

def nan : Binary64 := ofMagnitude false (infiniteMagnitude + leadingBit / 2)

/-- The integer part of a finite magnitude: the value is `significand * 2 ^ exponent`. -/
def significand (x : Binary64) : Nat :=
  if x.magnitude < leadingBit then x.magnitude else x.magnitude % leadingBit + leadingBit

/-- The binary exponent that goes with `significand`. -/
def exponent (x : Binary64) : Int :=
  (max (x.magnitude / leadingBit) 1 : Nat) - 1075

/-- Equality of numbers: NaN is equal to nothing, and the two zeros are equal. -/
def ieeeEq (x y : Binary64) : Bool :=
  !x.isNaN && !y.isNaN && (x == y || (x.isZero && y.isZero))

/-- `num / den` as the nearest integer; a tie goes to the even one. -/
def roundHalfEven (num den : Nat) : Nat :=
  let floor := num / den
  let twice := 2 * (num % den)
  if twice < den then floor
  else if den < twice then floor + 1
  else floor + floor % 2

/-- The power of two in which `num / den` is counted when it is rounded: the quotient counted in
it has 53 binary digits, or fewer at the smallest power there is. -/
def scaleOf (num den : Nat) : Int :=
  let low : Int := (num.log2 : Int) - den.log2 - 53
  let tooFine :=
    if 0 ≤ low then decide (2 * leadingBit ≤ num / (den <<< low.toNat))
    else decide (2 * leadingBit ≤ (num <<< (-low).toNat) / den)
  max (if tooFine then low + 1 else low) (-1074)

/-- The magnitude nearest to `num / den`; beyond the largest finite one, infinity. -/
def roundRatio (num den : Nat) : Nat :=
  let scale := scaleOf num den
  let count :=
    if 0 ≤ scale then roundHalfEven num (den <<< scale.toNat)
    else roundHalfEven (num <<< (-scale).toNat) den
  min ((scale + 1074).toNat * leadingBit + count) infiniteMagnitude

/-- The number nearest to `num / den`, with the given sign. -/
def ofRatio (negative : Bool) (num den : Nat) : Binary64 :=
  ofMagnitude negative (if num = 0 then 0 else roundRatio num den)

/-- The number of decimal digits of `n`; zero has none. -/
def decimalLength (n : Nat) : Nat := if n = 0 then 0 else (Nat.toDigits 10 n).length

/-- The number nearest to `digits * 10 ^ power`. Beyond `10 ^ 310` all numbers are infinite and
below `10 ^ (-330)` all are zero, so no larger power of ten is ever computed. -/
def ofDecimal (negative : Bool) (digits : Nat) (power : Int) : Binary64 :=
  let size : Int := decimalLength digits + power
  if digits = 0 then ofMagnitude negative 0
  else if 310 < size then infinity negative
  else if size < -330 then ofMagnitude negative 0
  else if 0 ≤ power then ofRatio negative (digits * powerOfTen power.toNat) 1
  else ofRatio negative digits (powerOfTen (-power).toNat)

/-- The number nearest to an integer. -/
def ofInt (n : Int) : Binary64 := ofRatio (decide (n < 0)) n.natAbs 1

theorem roundRatio_le (num den : Nat) : roundRatio num den ≤ infiniteMagnitude :=
  Nat.min_le_right ..

theorem magnitude_ofMagnitude (negative : Bool) {m : Nat} (small : m < signBit) :
    (ofMagnitude negative m).magnitude = m := by
  simp only [signBit] at small
  simp only [ofMagnitude, magnitude, signBit, UInt64.toNat_ofNat']
  split <;> omega

theorem ofRatio_isNaN (negative : Bool) (num den : Nat) :
    (ofRatio negative num den).isNaN = false := by
  have bound := roundRatio_le num den
  have small : (if num = 0 then 0 else roundRatio num den) ≤ infiniteMagnitude := by
    split <;> omega
  have same : (ofRatio negative num den).magnitude ≤ infiniteMagnitude := by
    have below : infiniteMagnitude < signBit := by decide
    rw [ofRatio, magnitude_ofMagnitude negative (Nat.lt_of_le_of_lt small below)]
    exact small
  simpa [isNaN] using same

end Binary64

end ConfigBinding
