import ConfigBinding.Number.Binary64
import Mathlib.Algebra.Order.Field.Power
import Mathlib.Tactic.Linarith
import Mathlib.Tactic.NormNum
import Mathlib.Tactic.Positivity
import Mathlib.Tactic.Ring

/-!
# The range of floating point numbers

The greatest finite number is `(2 ^ 53 - 1) * 2 ^ 971`. A quotient is rounded to a finite number as
long as it is less than half a unit above this, and to infinity from there on: the tie goes to the
even significand, which is that of infinity. The same holds of decimals, since the shortcuts that
are taken for very large and very small ones lie far from this limit.

Results:
1. `roundHalfEven_le_iff`: up to where a quotient is rounded down to an odd number.
2. `scaleOf_spec`: counted in its scale a quotient has 53 binary digits, or fewer at the least scale.
3. `roundRatio_lt_iff`: which quotients are rounded to a finite magnitude.
4. `capped_ofDecimal`: which decimals are rounded to a finite number, and which to infinity.
-/

namespace ConfigBinding.Binary64

/-- The least magnitude that is rounded to infinity: half a unit, which is `2 ^ 970`, above the
greatest finite number. -/
def overflow : ℚ := (2 ^ 54 - 1) * 2 ^ 970

/-! ## Rounding to an integer -/

section

variable {num den m : Nat}

/-- A tie above an odd number is rounded up, so this is a strict bound. -/
theorem roundHalfEven_le_iff (odd : m % 2 = 1) (den_pos : 0 < den) :
    roundHalfEven num den ≤ m ↔ (num : ℚ) / den < m + 1 / 2 := by
  have twice : (num : ℚ) / den < m + 1 / 2 ↔ 2 * num < (2 * m + 1) * den := by
    rw [div_lt_iff₀ (by exact_mod_cast den_pos)]
    constructor <;> intro less
    · have doubled : (2 * num : ℚ) < (2 * m + 1) * den := by linarith
      exact_mod_cast doubled
    · have doubled : (2 * num : ℚ) < (2 * m + 1) * den := by exact_mod_cast less
      linarith
  rw [twice]
  have whole : den * (num / den) + num % den = num := Nat.div_add_mod num den
  have small : num % den < den := Nat.mod_lt num den_pos
  unfold roundHalfEven
  dsimp only
  generalize num / den = floor at whole ⊢
  generalize num % den = left at whole small ⊢
  subst whole
  rcases Nat.lt_trichotomy floor m with below | rfl | above
  · have room : (floor + 1) * den ≤ m * den := Nat.mul_le_mul_right den below
    have holds : 2 * (den * floor + left) < (2 * m + 1) * den := by
      nlinarith
    have rounded : (if 2 * left < den then floor else if den < 2 * left then floor + 1
        else floor + floor % 2) ≤ m := by
      split
      · omega
      split <;> omega
    exact iff_of_true rounded holds
  · have bound : 2 * (den * floor + left) < (2 * floor + 1) * den ↔ 2 * left < den := by
      constructor <;> intro less <;> nlinarith
    rw [bound]
    split
    · rename_i down
      exact iff_of_true (Nat.le_refl _) down
    · rename_i up
      refine iff_of_false (fun least => ?_) up
      split at least <;> omega
  · have room : (m + 1) * den ≤ floor * den := Nat.mul_le_mul_right den above
    have fails : ¬ 2 * (den * floor + left) < (2 * m + 1) * den := by
      nlinarith
    refine iff_of_false (fun least => ?_) fails
    split at least
    · omega
    · split at least <;> omega

theorem le_roundHalfEven (den_pos : 0 < den) (least : m * den ≤ num) :
    m ≤ roundHalfEven num den := by
  have floor : m ≤ num / den := (Nat.le_div_iff_mul_le den_pos).mpr least
  unfold roundHalfEven
  dsimp only
  split
  · exact floor
  split <;> omega

theorem roundHalfEven_le (den_pos : 0 < den) (less : num < m * den) :
    roundHalfEven num den ≤ m := by
  have floor : num / den < m := (Nat.div_lt_iff_lt_mul den_pos).mpr less
  unfold roundHalfEven
  dsimp only
  split
  · omega
  split <;> omega

end

/-! ## The scale -/

theorem leadingBit_eq : leadingBit = 2 ^ 52 := by decide

section

variable {num den : Nat}

/-- The logarithms of numerator and denominator tell that of the quotient up to one. -/
theorem log_bounds (num_pos : 0 < num) (den_pos : 0 < den) :
    (2 : ℚ) ^ ((num.log2 : ℤ) - den.log2 - 1) ≤ num / den ∧
      (num : ℚ) / den < 2 ^ ((num.log2 : ℤ) - den.log2 + 1) := by
  have positive : (0 : ℚ) < den := by exact_mod_cast den_pos
  have numLeast : (2 : ℚ) ^ num.log2 ≤ num := by
    exact_mod_cast Nat.log2_self_le num_pos.ne'
  have numLess : (num : ℚ) < 2 ^ (num.log2 + 1) := by
    exact_mod_cast Nat.lt_log2_self
  have denLeast : (2 : ℚ) ^ den.log2 ≤ den := by
    exact_mod_cast Nat.log2_self_le den_pos.ne'
  have denLess : (den : ℚ) < 2 ^ (den.log2 + 1) := by
    exact_mod_cast Nat.lt_log2_self
  constructor
  · rw [le_div_iff₀ positive]
    calc
      (2 : ℚ) ^ ((num.log2 : ℤ) - den.log2 - 1) * den
        ≤ 2 ^ ((num.log2 : ℤ) - den.log2 - 1) * 2 ^ (den.log2 + 1) := by gcongr
      _ = 2 ^ num.log2 := by
        rw [← zpow_natCast, ← zpow_natCast, ← zpow_add₀ two_ne_zero]
        congr 1
        push_cast
        ring
      _ ≤ num := numLeast
  · rw [div_lt_iff₀ positive]
    calc
      (num : ℚ) < 2 ^ (num.log2 + 1) := numLess
      _ = 2 ^ ((num.log2 : ℤ) - den.log2 + 1) * 2 ^ den.log2 := by
        rw [← zpow_natCast, ← zpow_natCast, ← zpow_add₀ two_ne_zero]
        congr 1
        push_cast
        ring
      _ ≤ 2 ^ ((num.log2 : ℤ) - den.log2 + 1) * den := by gcongr

/-- A quotient counted in a power of two, as a numerator and a denominator. -/
def counted (num den : Nat) (scale : Int) : Nat × Nat :=
  if 0 ≤ scale then (num, den <<< scale.toNat) else (num <<< (-scale).toNat, den)

theorem counted_pos (num : Nat) (den_pos : 0 < den) (scale : Int) :
    0 < (counted num den scale).2 := by
  unfold counted
  split
  · rw [Nat.shiftLeft_eq]
    positivity
  · exact den_pos

theorem counted_div (num den : Nat) (scale : Int) :
    ((counted num den scale).1 : ℚ) / (counted num den scale).2 = num / den / 2 ^ scale := by
  unfold counted
  split
  · rename_i up
    rw [Nat.shiftLeft_eq]
    push_cast
    rw [← zpow_natCast, Int.toNat_of_nonneg up, div_div]
  · rename_i down
    rw [Nat.shiftLeft_eq]
    push_cast
    rw [← zpow_natCast, Int.toNat_of_nonneg (by omega), zpow_neg]
    ring

/-- What a bound of the counted quotient says of its numerator and denominator. -/
theorem le_counted_iff (den_pos : 0 < den) {scale : Int} {bound : Nat} :
    bound * (counted num den scale).2 ≤ (counted num den scale).1 ↔
      bound * (2 : ℚ) ^ scale ≤ num / den := by
  have positive : (0 : ℚ) < (counted num den scale).2 := by
    exact_mod_cast counted_pos num den_pos scale
  rw [← le_div_iff₀ (by positivity : (0 : ℚ) < 2 ^ scale), ← counted_div, le_div_iff₀ positive]
  norm_cast

theorem counted_lt_iff (den_pos : 0 < den) {scale : Int} {bound : Nat} :
    (counted num den scale).1 < bound * (counted num den scale).2 ↔
      (num : ℚ) / den < bound * 2 ^ scale := by
  rw [← not_le, le_counted_iff den_pos, not_le]

/-- The scale by the logarithms, with one more where this counts too finely. -/
theorem scaleOf_eq (num den : Nat) :
    let low : Int := (num.log2 : Int) - den.log2 - 53
    scaleOf num den =
      max (if 2 * leadingBit ≤ (counted num den low).1 / (counted num den low).2 then low + 1
        else low) (-1074) := by
  intro low
  unfold scaleOf counted
  by_cases up : 0 ≤ low
  · simp only [low, up, if_true, decide_eq_true_eq]
  · simp only [low, up, if_false, decide_eq_true_eq]

/-- Counted in its scale a quotient has at most 53 binary digits, and no fewer unless the scale is
the least one. -/
theorem scaleOf_spec (num_pos : 0 < num) (den_pos : 0 < den) :
    -1074 ≤ scaleOf num den ∧ (num : ℚ) / den < 2 ^ 53 * 2 ^ scaleOf num den ∧
      (scaleOf num den = -1074 ∨ (2 : ℚ) ^ 52 * 2 ^ scaleOf num den ≤ num / den) := by
  obtain ⟨least, less⟩ := log_bounds num_pos den_pos
  have scaled := scaleOf_eq num den
  dsimp only at scaled
  generalize low_eq : (num.log2 : Int) - den.log2 - 53 = low at scaled
  have two (count : Nat) (scale : Int) : (2 : ℚ) ^ count * 2 ^ scale = 2 ^ (count + scale) := by
    rw [← zpow_natCast, ← zpow_add₀ two_ne_zero]
  have tooFine : 2 * leadingBit ≤ (counted num den low).1 / (counted num den low).2 ↔
      (2 : ℚ) ^ 53 * 2 ^ low ≤ num / den := by
    rw [Nat.le_div_iff_mul_le (counted_pos num den_pos low), le_counted_iff den_pos, leadingBit_eq]
    norm_num
  -- Before the least scale is enforced, the bounds hold on both sides.
  obtain ⟨scale, chosen, below, above⟩ : ∃ scale : Int, scaleOf num den = max scale (-1074) ∧
      (num : ℚ) / den < 2 ^ 53 * 2 ^ scale ∧ (2 : ℚ) ^ 52 * 2 ^ scale ≤ num / den := by
    by_cases fine : (2 : ℚ) ^ 53 * 2 ^ low ≤ num / den
    · refine ⟨low + 1, by rw [scaled, if_pos (tooFine.mpr fine)], ?_, ?_⟩
      · rw [two]
        refine lt_of_lt_of_eq less (congrArg ((2 : ℚ) ^ ·) ?_)
        omega
      · rw [two] at fine ⊢
        refine le_of_eq_of_le (congrArg ((2 : ℚ) ^ ·) ?_) fine
        omega
    · refine ⟨low, by rw [scaled, if_neg (mt tooFine.mp fine)], not_le.mp fine, ?_⟩
      rw [two]
      refine le_of_eq_of_le (congrArg ((2 : ℚ) ^ ·) ?_) least
      omega
  rw [chosen]
  rcases le_total (-1074) scale with enough | tiny
  · rw [max_eq_left enough]
    exact ⟨enough, below, .inr above⟩
  · rw [max_eq_right tiny]
    refine ⟨le_refl _, below.trans_le ?_, .inl rfl⟩
    gcongr
    exact one_le_two

/-! ## Quotients -/

theorem roundRatio_eq (num den : Nat) :
    roundRatio num den =
      min ((scaleOf num den + 1074).toNat * leadingBit +
        roundHalfEven (counted num den (scaleOf num den)).1 (counted num den (scaleOf num den)).2)
        infiniteMagnitude := by
  unfold roundRatio counted
  by_cases up : 0 ≤ scaleOf num den
  · simp only [up, if_true]
  · simp only [up, if_false]

/-! ### The limit

The greatest finite number has the scale 971 and the count `2 ^ 53 - 1`. -/

theorem overflow_eq : overflow = ((2 ^ 53 - 1 : Nat) + 1 / 2) * 2 ^ (971 : ℤ) := by
  have unit : (2 : ℚ) ^ (971 : ℤ) = 2 ^ 970 * 2 := (zpow_natCast 2 971).trans (pow_succ 2 970)
  rw [overflow, unit]
  generalize (2 : ℚ) ^ 970 = u
  norm_num
  ring

section

variable {value : ℚ} {scale : ℤ}

theorem lt_overflow_of_scale_lt (small : scale < 971) (below : value < 2 ^ 53 * 2 ^ scale) :
    value < overflow := by
  have atMost : (2 : ℚ) ^ scale * 2 ≤ 2 ^ (971 : ℤ) := by
    rw [← zpow_add_one₀ two_ne_zero]
    exact zpow_le_zpow_right₀ one_le_two (by omega)
  have unit : (0 : ℚ) < 2 ^ scale := by positivity
  rw [overflow_eq]
  generalize (2 : ℚ) ^ (971 : ℤ) = limit at atMost ⊢
  norm_num at below ⊢
  linarith

theorem overflow_le_of_lt_scale (large : 971 < scale) (above : 2 ^ 52 * 2 ^ scale ≤ value) :
    overflow ≤ value := by
  have atLeast : (2 : ℚ) ^ (971 : ℤ) * 2 ≤ 2 ^ scale := by
    rw [← zpow_add_one₀ two_ne_zero]
    exact zpow_le_zpow_right₀ one_le_two (by omega)
  have unit : (0 : ℚ) < 2 ^ (971 : ℤ) := by positivity
  rw [overflow_eq]
  generalize (2 : ℚ) ^ (971 : ℤ) = limit at atLeast unit ⊢
  norm_num at above ⊢
  linarith

end

/-- At the scale of the limit it is the count that decides. -/
theorem roundHalfEven_limit_iff (den_pos : 0 < den) :
    roundHalfEven (counted num den 971).1 (counted num den 971).2 ≤ 2 ^ 53 - 1 ↔
      (num : ℚ) / den < overflow := by
  have unit : (0 : ℚ) < 2 ^ (971 : ℤ) := by positivity
  rw [roundHalfEven_le_iff (by decide) (counted_pos num den_pos 971), counted_div,
    div_lt_iff₀ unit, overflow_eq]

/-- A quotient is rounded to a finite magnitude if it is less than half a unit above the greatest
one. Only at the scale of this one does it matter how the quotient is rounded. -/
theorem roundRatio_lt_iff (num_pos : 0 < num) (den_pos : 0 < den) :
    roundRatio num den < infiniteMagnitude ↔ (num : ℚ) / den < overflow := by
  obtain ⟨least, below, above⟩ := scaleOf_spec num_pos den_pos
  rw [roundRatio_eq, min_lt_iff, or_iff_left (lt_irrefl _)]
  generalize scaleOf num den = scale at least below above ⊢
  have positive := counted_pos num den_pos scale
  have count_le : roundHalfEven (counted num den scale).1 (counted num den scale).2 ≤ 2 ^ 53 := by
    refine roundHalfEven_le positive ?_
    rw [counted_lt_iff den_pos]
    exact_mod_cast below
  have limit : infiniteMagnitude = 2047 * 2 ^ 52 := by decide
  rw [limit, leadingBit_eq]
  rcases lt_trichotomy scale 971 with small | rfl | large
  · exact iff_of_true (by omega) (lt_overflow_of_scale_lt small below)
  · rw [← roundHalfEven_limit_iff den_pos]
    omega
  · have full := above.resolve_left (by omega)
    have count_ge : 2 ^ 52 ≤ roundHalfEven (counted num den scale).1 (counted num den scale).2 := by
      refine le_roundHalfEven positive ?_
      rw [le_counted_iff den_pos]
      exact_mod_cast full
    exact iff_of_false (by omega) (not_lt.mpr (overflow_le_of_lt_scale large full))

end

/-! ## Numbers -/

/-- The number is infinite, with the sign, from where on the value is too large, and finite
below. -/
structure Capped (negative : Bool) (value : ℚ) (x : Binary64) : Prop where
  finite : value < overflow → x.isFinite = true
  infinite : overflow ≤ value → x = infinity negative

theorem overflow_pos : 0 < overflow := by
  unfold overflow
  norm_num

theorem infiniteMagnitude_lt : infiniteMagnitude < signBit := by decide

theorem isFinite_ofMagnitude (negative : Bool) {magnitude : Nat}
    (finite : magnitude < infiniteMagnitude) : (ofMagnitude negative magnitude).isFinite = true := by
  unfold isFinite
  rw [magnitude_ofMagnitude negative (finite.trans infiniteMagnitude_lt)]
  exact decide_eq_true finite

theorem isFinite_infinity (negative : Bool) : (infinity negative).isFinite = false := by
  unfold isFinite infinity
  rw [magnitude_ofMagnitude negative infiniteMagnitude_lt]
  exact decide_eq_false (Nat.lt_irrefl _)

theorem Capped.isFinite_iff {negative : Bool} {value : ℚ} {x : Binary64}
    (capped : Capped negative value x) : x.isFinite = true ↔ value < overflow := by
  refine ⟨fun finite => ?_, capped.finite⟩
  by_contra large
  rw [capped.infinite (not_lt.mp large), isFinite_infinity] at finite
  cases finite

theorem capped_zero (negative : Bool) {value : ℚ} (small : value < overflow) :
    Capped negative value (ofMagnitude negative 0) :=
  ⟨fun _ => isFinite_ofMagnitude negative (by decide), fun large => absurd small (not_lt.mpr large)⟩

theorem capped_ofRatio (negative : Bool) (num : Nat) {den : Nat} (den_pos : 0 < den) :
    Capped negative (num / den) (ofRatio negative num den) := by
  unfold ofRatio
  rcases Nat.eq_zero_or_pos num with rfl | num_pos
  · rw [if_pos rfl]
    refine capped_zero negative ?_
    rw [Nat.cast_zero, zero_div]
    exact overflow_pos
  · rw [if_neg num_pos.ne']
    have range := roundRatio_lt_iff num_pos den_pos
    refine ⟨fun small => isFinite_ofMagnitude negative (range.mpr small), fun large => ?_⟩
    have least := mt range.mp (not_lt.mpr large)
    rw [Nat.le_antisymm (roundRatio_le num den) (not_lt.mp least)]
    rfl

/-! ## Decimals -/

/-- Where the first digit of a number stands. -/
theorem decimalLength_bounds {digits : Nat} (positive : 0 < digits) :
    10 ^ (decimalLength digits - 1) ≤ digits ∧ digits < 10 ^ decimalLength digits ∧
      0 < decimalLength digits := by
  unfold decimalLength
  rw [if_neg positive.ne']
  have some : 0 < (Nat.toDigits 10 digits).length := Nat.length_toDigits_pos
  refine ⟨?_, (Nat.length_toDigits_le_iff (by decide) some).mp (Nat.le_refl _), some⟩
  rcases Nat.eq_zero_or_pos ((Nat.toDigits 10 digits).length - 1) with single | more
  · rw [single, pow_zero]
    exact positive
  · have long := mt (Nat.length_toDigits_le_iff (n := digits) (by decide : 1 < 10) more).mpr
      (by omega)
    exact not_lt.mp long

/-- The value of a decimal by the place of its first digit. -/
theorem decimal_bounds {digits : Nat} (positive : 0 < digits) (power : Int) :
    (10 : ℚ) ^ ((decimalLength digits : Int) + power - 1) ≤ digits * 10 ^ power ∧
      (digits : ℚ) * 10 ^ power < 10 ^ ((decimalLength digits : Int) + power) := by
  obtain ⟨least, less, some⟩ := decimalLength_bounds positive
  have ten : (10 : ℚ) ≠ 0 := by norm_num
  constructor
  · have first : (decimalLength digits : Int) + power - 1 =
        (decimalLength digits - 1 : Nat) + power := by omega
    rw [first, zpow_add₀ ten, zpow_natCast]
    gcongr
    exact_mod_cast least
  · rw [zpow_add₀ ten, zpow_natCast]
    gcongr
    exact_mod_cast less

theorem overflow_le : overflow ≤ 10 ^ (310 : Int) := by
  have power : 2 ^ 54 * 2 ^ 970 ≤ 10 ^ 310 := by decide +kernel
  have same : (2 : ℚ) ^ 54 * 2 ^ 970 ≤ 10 ^ 310 := by exact_mod_cast power
  have unit : (0 : ℚ) < 2 ^ 970 := by positivity
  have whole : (10 : ℚ) ^ (310 : Int) = 10 ^ 310 := zpow_natCast 10 310
  rw [overflow, whole]
  generalize (2 : ℚ) ^ 970 = u at same unit ⊢
  generalize (10 : ℚ) ^ 310 = t at same ⊢
  linarith

theorem one_le_overflow : 1 ≤ overflow := by
  have unit : (1 : ℚ) ≤ 2 ^ 970 := one_le_pow₀ one_le_two
  unfold overflow
  generalize (2 : ℚ) ^ 970 = u at unit ⊢
  linarith

theorem cast_powerOfTen (exponent : Nat) : (powerOfTen exponent : ℚ) = 10 ^ exponent :=
  Nat.cast_pow 10 exponent

/-- A decimal is rounded to a finite number if it is less than half a unit above the greatest
one. -/
theorem capped_ofDecimal (negative : Bool) (digits : Nat) (power : Int) :
    Capped negative (digits * 10 ^ power) (ofDecimal negative digits power) := by
  unfold ofDecimal
  dsimp only
  split
  · rename_i zero
    rw [zero, Nat.cast_zero, zero_mul]
    exact capped_zero negative overflow_pos
  rename_i some
  obtain ⟨least, less⟩ := decimal_bounds (Nat.pos_of_ne_zero some) power
  split
  · rename_i long
    have large : (10 : ℚ) ^ (310 : Int) ≤ 10 ^ ((decimalLength digits : Int) + power - 1) :=
      zpow_le_zpow_right₀ (by norm_num) (by omega)
    have infinite := overflow_le.trans (large.trans least)
    exact ⟨fun small => absurd small (not_lt.mpr infinite), fun _ => rfl⟩
  split
  · rename_i short
    have small : (10 : ℚ) ^ ((decimalLength digits : Int) + power) ≤ 10 ^ (0 : Int) :=
      zpow_le_zpow_right₀ (by norm_num) (by omega)
    rw [zpow_zero] at small
    exact capped_zero negative ((less.trans_le small).trans_le one_le_overflow)
  split
  · rename_i up
    have value : (digits : ℚ) * 10 ^ power = (digits * powerOfTen power.toNat : Nat) / (1 : Nat) := by
      rw [Nat.cast_mul, cast_powerOfTen, Nat.cast_one, div_one, ← zpow_natCast,
        Int.toNat_of_nonneg up]
    rw [value]
    exact capped_ofRatio negative _ Nat.one_pos
  · rename_i down
    have value : (digits : ℚ) * 10 ^ power = digits / (powerOfTen (-power).toNat : Nat) := by
      rw [cast_powerOfTen, ← zpow_natCast, Int.toNat_of_nonneg (by omega), zpow_neg,
        div_inv_eq_mul]
    rw [value]
    exact capped_ofRatio negative digits (Nat.pow_pos (by decide))

end ConfigBinding.Binary64
