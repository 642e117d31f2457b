import FilterLang.Json
import FilterLang.Proofs.Number.Digits
import Mathlib.Algebra.Order.Field.Power
import Mathlib.Algebra.Order.Ring.Rat
import Mathlib.Tactic.FieldSimp
import Mathlib.Tactic.Linarith
import Mathlib.Tactic.NormNum

/-! Reading decimals into doubles. -/

namespace FilterLang

namespace Decimal

/-- The size of a decimal, its sign aside. -/
def size (value : Decimal) : ℚ :=
  value.digits * (10 : ℚ) ^ value.exponent

/-- Taking zeros off the digits keeps the size. -/
theorem size_normal (negative : Bool) (digits : Nat) (exponent : Int) :
    (normal negative digits exponent).size = digits * (10 : ℚ) ^ exponent := by
  -- The zeros that are taken off the digits are put back by the power.
  by_cases zero : digits = 0
  · simp [normal, size, zero]
  · have restored : ((digits / 10 ^ trailingZeros digits : Nat) : ℚ) *
        (10 : ℚ) ^ trailingZeros digits = digits := by
      exact_mod_cast Nat.div_mul_cancel (pow_trailingZeros_dvd digits)
    simp only [normal, if_neg zero, size, Nat.pow_eq]
    rw [zpow_add₀ (by norm_num), zpow_natCast, mul_comm ((10 : ℚ) ^ exponent), ← mul_assoc,
      restored]

/-- The sign is kept. -/
@[simp] theorem negative_normal (negative : Bool) (digits : Nat) (exponent : Int) :
    (normal negative digits exponent).negative = negative := by
  -- Taking zeros off never touches the sign.
  unfold normal
  split <;> rfl

/-- The magnitude of a decimal is the exponent of the greatest power of ten below it. -/
theorem size_bounds {value : Decimal} (positive : value.digits ≠ 0) :
    (10 : ℚ) ^ value.magnitude ≤ value.size ∧ value.size < (10 : ℚ) ^ (value.magnitude + 1) := by
  obtain ⟨below, above⟩ := digitsOfNat_length positive
  have filled : 0 < (digitsOfNat value.digits).length := Nat.length_toDigits_pos
  have power : (0 : ℚ) < (10 : ℚ) ^ value.exponent := by positivity
  -- Both bounds on the digits are multiplied by the power of ten.
  have lower : value.magnitude =
      (((digitsOfNat value.digits).length - 1 : Nat) : ℤ) + value.exponent := by
    simp only [magnitude]
    omega
  have upper : value.magnitude + 1 = ((digitsOfNat value.digits).length : ℤ) + value.exponent := by
    simp only [magnitude]
    omega
  constructor
  · rw [lower, zpow_add₀ (by norm_num), zpow_natCast]
    exact mul_le_mul_of_nonneg_right (by exact_mod_cast below) power.le
  · rw [upper, zpow_add₀ (by norm_num), zpow_natCast]
    exact mul_lt_mul_of_pos_right (by exact_mod_cast above) power

end Decimal

namespace Binary64

/-- The size of a double, its sign aside. -/
def size (value : Binary64) : ℚ :=
  value.significand * (2 : ℚ) ^ value.exponent

/-- The only double without a significand is zero. -/
theorem eq_zero {value : Binary64} (zero : value.significand = 0) :
    value = Binary64.zero value.negative := by
  obtain ⟨negative, significand, exponent, bounds⟩ := value
  subst zero
  -- A significand below the least full one needs the least exponent.
  obtain rfl : exponent = -1074 := by
    rcases bounds.2.2.2 with full | least
    · simp at full
    · exact least
  rfl

/-- A double is below the power of two past the largest exponent. -/
theorem size_lt (value : Binary64) : value.size < (2 : ℚ) ^ (1024 : ℤ) := by
  -- Both bounds on a double, of its significand and its exponent, are used at once.
  obtain ⟨small, -, bound, -⟩ := value.isDouble
  have significand : (value.significand : ℚ) < (2 : ℚ) ^ (53 : ℤ) := by
    have cast : (value.significand : ℚ) < ((2 ^ 53 : Nat) : ℚ) := Nat.cast_lt.mpr small
    exact_mod_cast cast
  calc value.size < (2 : ℚ) ^ (53 : ℤ) * (2 : ℚ) ^ value.exponent :=
        mul_lt_mul_of_pos_right significand (by positivity)
    _ = (2 : ℚ) ^ (53 + value.exponent) := (zpow_add₀ (by norm_num) _ _).symm
    _ ≤ (2 : ℚ) ^ (1024 : ℤ) := zpow_le_zpow_right₀ (by norm_num) (by omega)

/-- A double other than zero is no less than the least power of two. -/
theorem le_size {value : Binary64} (positive : value.significand ≠ 0) :
    (2 : ℚ) ^ (-1074 : ℤ) ≤ value.size := by
  -- The significand is one at least, and the exponent is bounded from below.
  obtain ⟨-, least, -⟩ := value.isDouble
  have one : (1 : ℚ) ≤ value.significand := by
    exact_mod_cast Nat.one_le_iff_ne_zero.mpr positive
  calc (2 : ℚ) ^ (-1074 : ℤ) ≤ (2 : ℚ) ^ value.exponent :=
        zpow_le_zpow_right₀ (by norm_num) least
    _ = 1 * (2 : ℚ) ^ value.exponent := (one_mul _).symm
    _ ≤ value.size := mul_le_mul_of_nonneg_right one (by positivity)

/-- The bounds where decimals are cut off lie outside of the range of doubles. -/
theorem cutoffs : (10 : ℚ) ^ (-330 : ℤ) < (2 : ℚ) ^ (-1074 : ℤ) ∧
    (2 : ℚ) ^ (1024 : ℤ) < (10 : ℚ) ^ (310 : ℤ) := by
  -- Both comparisons are between powers of natural numbers.
  have least : 2 ^ 1074 < 10 ^ 330 := by decide +kernel
  have most : 2 ^ 1024 < 10 ^ 310 := by decide +kernel
  constructor
  · rw [zpow_neg, zpow_neg, inv_lt_inv₀ (by positivity) (by positivity)]
    exact_mod_cast least
  · exact_mod_cast most

/--
The place that a double of a size keeps last.

Measured in units of that place the size has at most 53 bits, and fewer only at the least place.
-/
structure IsLastPlace (size : ℚ) (place : ℤ) : Prop where
  least : -1074 ≤ place
  fits : size < (2 : ℚ) ^ (place + 53)
  full : (2 : ℚ) ^ (place + 52) ≤ size ∨ place = -1074

/-- A last place is no greater than another one. -/
theorem IsLastPlace.le {size : ℚ} {first second : ℤ} (left : IsLastPlace size first)
    (right : IsLastPlace size second) : first ≤ second := by
  rcases left.full with full | least
  · -- The size lies above the lower end of the one and below the upper end of the other.
    have between : (2 : ℚ) ^ (first + 52) < (2 : ℚ) ^ (second + 53) :=
      lt_of_le_of_lt full right.fits
    have order := (zpow_lt_zpow_iff_right₀ (by norm_num : (1 : ℚ) < 2)).mp between
    omega
  · rw [least]
    exact right.least

/-- A size has only one last place. -/
theorem IsLastPlace.unique {size : ℚ} {first second : ℤ} (left : IsLastPlace size first)
    (right : IsLastPlace size second) : first = second :=
  le_antisymm (left.le right) (right.le left)

/-- A double's exponent is its last place. -/
theorem isLastPlace_exponent (value : Binary64) : IsLastPlace value.size value.exponent := by
  -- A double fills its significand, unless its exponent is the least one.
  obtain ⟨small, least, -, full⟩ := value.isDouble
  have power : (0 : ℚ) < (2 : ℚ) ^ value.exponent := by positivity
  refine ⟨least, ?_, full.imp (fun full => ?_) id⟩
  · have cast : (value.significand : ℚ) < ((2 ^ 53 : Nat) : ℚ) := Nat.cast_lt.mpr small
    rw [zpow_add₀ (by norm_num), mul_comm]
    exact mul_lt_mul_of_pos_right (by exact_mod_cast cast) power
  · have cast : ((2 ^ 52 : Nat) : ℚ) ≤ (value.significand : ℚ) := Nat.cast_le.mpr full
    rw [zpow_add₀ (by norm_num), mul_comm]
    exact mul_le_mul_of_nonneg_right (by exact_mod_cast cast) power.le

section Ratio

variable {numerator denominator : Nat}

/-- Dividing a ratio by a power of two divides its size by it. -/
theorem scaleDown_ratio (numerator : Nat) (positive : 0 < denominator) (power : ℤ) :
    0 < (scaleDown numerator denominator power).2 ∧
      ((scaleDown numerator denominator power).1 : ℚ) =
        (numerator : ℚ) / denominator / (2 : ℚ) ^ power *
          (scaleDown numerator denominator power).2 := by
  have whole : (denominator : ℚ) ≠ 0 := by exact_mod_cast positive.ne'
  -- The power goes to one side of the ratio or, inverted, to the other.
  cases power with
  | ofNat up =>
    refine ⟨by simp only [scaleDown, Nat.pow_eq]; positivity, ?_⟩
    simp only [scaleDown, Nat.pow_eq, Int.ofNat_eq_natCast, zpow_natCast, Nat.cast_mul,
      Nat.cast_pow, Nat.cast_ofNat]
    field_simp
  | negSucc down =>
    refine ⟨positive, ?_⟩
    simp only [scaleDown, Nat.pow_eq, zpow_negSucc, Nat.cast_mul, Nat.cast_pow, Nat.cast_ofNat]
    field_simp

/-- The whole part of a scaled ratio has as many bits as the size has places above the last one. -/
theorem pow_le_scaleDown_div (numerator : Nat) (positive : 0 < denominator) (power : ℤ)
    (count : Nat) :
    Nat.pow 2 count ≤
        (scaleDown numerator denominator power).1 / (scaleDown numerator denominator power).2 ↔
      (2 : ℚ) ^ (power + count) ≤ (numerator : ℚ) / denominator := by
  -- Scaling by a power of two keeps the ratio, so the quotient is compared in the rationals.
  obtain ⟨unit, same⟩ := scaleDown_ratio numerator positive power
  have unitPositive : (0 : ℚ) < (scaleDown numerator denominator power).2 := by exact_mod_cast unit
  have step : (0 : ℚ) < (2 : ℚ) ^ power := by positivity
  rw [Nat.le_div_iff_mul_le unit, ← Nat.cast_le (α := ℚ), Nat.cast_mul, same,
    mul_le_mul_iff_left₀ unitPositive, le_div_iff₀ step, zpow_add₀ (by norm_num), mul_comm]
  norm_num

/-- The logarithms of a ratio's parts tell between which powers of two it lies. -/
theorem log_bounds (filled : 0 < numerator) (positive : 0 < denominator) :
    (2 : ℚ) ^ ((numerator.log2 : ℤ) - denominator.log2 - 1) < (numerator : ℚ) / denominator ∧
      (numerator : ℚ) / denominator < (2 : ℚ) ^ ((numerator.log2 : ℤ) - denominator.log2 + 1) := by
  have denominatorPositive : (0 : ℚ) < denominator := by exact_mod_cast positive
  -- Each part lies between the power of two that its logarithm names and the next one.
  have above : (numerator : ℚ) < (2 : ℚ) ^ ((numerator.log2 : ℤ) + 1) := by
    exact_mod_cast Nat.lt_log2_self (n := numerator)
  have below : (2 : ℚ) ^ (numerator.log2 : ℤ) ≤ numerator := by
    exact_mod_cast Nat.log2_self_le filled.ne'
  have most : (denominator : ℚ) < (2 : ℚ) ^ ((denominator.log2 : ℤ) + 1) := by
    exact_mod_cast Nat.lt_log2_self (n := denominator)
  have least : (2 : ℚ) ^ (denominator.log2 : ℤ) ≤ denominator := by
    exact_mod_cast Nat.log2_self_le positive.ne'
  constructor
  · rw [lt_div_iff₀ denominatorPositive]
    calc (2 : ℚ) ^ ((numerator.log2 : ℤ) - denominator.log2 - 1) * denominator <
          (2 : ℚ) ^ ((numerator.log2 : ℤ) - denominator.log2 - 1) *
            (2 : ℚ) ^ ((denominator.log2 : ℤ) + 1) := mul_lt_mul_of_pos_left most (by positivity)
      _ = (2 : ℚ) ^ (numerator.log2 : ℤ) := by
        rw [← zpow_add₀ (by norm_num)]
        congr 1
        omega
      _ ≤ numerator := below
  · rw [div_lt_iff₀ denominatorPositive]
    calc (numerator : ℚ) < (2 : ℚ) ^ ((numerator.log2 : ℤ) + 1) := above
      _ = (2 : ℚ) ^ ((numerator.log2 : ℤ) - denominator.log2 + 1) *
          (2 : ℚ) ^ (denominator.log2 : ℤ) := by
        rw [← zpow_add₀ (by norm_num)]
        congr 1
        omega
      _ ≤ (2 : ℚ) ^ ((numerator.log2 : ℤ) - denominator.log2 + 1) * denominator :=
        mul_le_mul_of_nonneg_left least (by positivity)

/-- The last place that is worked out is the last place. -/
theorem isLastPlace_lastPlace (filled : 0 < numerator) (positive : 0 < denominator) :
    IsLastPlace ((numerator : ℚ) / denominator) (lastPlace numerator denominator) := by
  obtain ⟨below, above⟩ := log_bounds filled positive
  have test := fun guess => pow_le_scaleDown_div numerator positive guess 53
  simp only [lastPlace]
  generalize guessed : max (-1074) ((numerator.log2 : ℤ) - denominator.log2 - 53) = guess
  split
  · -- The guess holds: its lower end is where the logarithms put the size.
    rename_i few
    have fits := not_le.mp fun wide => not_lt.mpr ((test guess).mpr wide) few
    refine ⟨by omega, fits, ?_⟩
    by_cases bottom : guess = -1074
    · exact .inr bottom
    · have same : guess + 52 = (numerator.log2 : ℤ) - denominator.log2 - 1 := by omega
      exact .inl (same ▸ below.le)
  · -- The guess was one too low, and the upper end of the next place is past the size.
    rename_i many
    have size := (test guess).mp (not_lt.mp many)
    have room : (numerator.log2 : ℤ) - denominator.log2 + 1 ≤ guess + 1 + 53 := by omega
    refine ⟨by omega, lt_of_lt_of_le above (zpow_le_zpow_right₀ (by norm_num) room), .inl ?_⟩
    rw [add_assoc]
    exact size

/-- A whole number is the nearest one to itself. -/
theorem nearest_exact {unit : Nat} (positive : 0 < unit) (value : Nat) :
    nearest (value * unit) unit = value := by
  simp [nearest, Nat.mul_div_cancel _ positive, positive]

/-- The nearest whole number is the one below a ratio or the one above it. -/
theorem nearest_bounds (scaled unit : Nat) :
    scaled / unit ≤ nearest scaled unit ∧ nearest scaled unit ≤ scaled / unit + 1 := by
  -- Rounding goes down to the quotient or up to the next, in each of the three cases.
  simp only [nearest]
  split
  · omega
  · split
    · omega
    · have parity := Nat.mod_lt (scaled / unit) (by decide : 0 < 2)
      omega

/-- A ratio that is a double is read as it. -/
theorem ofRatio?_exact {value : Binary64} (nonzero : value.significand ≠ 0)
    (positive : 0 < denominator) (same : (numerator : ℚ) / denominator = value.size) :
    ofRatio? value.negative numerator denominator = some value := by
  have filled : 0 < numerator := by
    rcases Nat.eq_zero_or_pos numerator with rfl | filled
    · have size := le_size nonzero
      have least : (0 : ℚ) < (2 : ℚ) ^ (-1074 : ℤ) := by positivity
      rw [← same, Nat.cast_zero, zero_div] at size
      exact absurd size (not_le.mpr least)
    · exact filled
  -- The last place depends on the size alone, so it is the double's exponent.
  have place : lastPlace numerator denominator = value.exponent :=
    (same ▸ isLastPlace_lastPlace filled positive).unique (isLastPlace_exponent value)
  obtain ⟨unit, scaled⟩ := scaleDown_ratio numerator positive value.exponent
  -- In units of that place the ratio is the significand, so nothing is rounded.
  have exact : (scaleDown numerator denominator value.exponent).1 =
      value.significand * (scaleDown numerator denominator value.exponent).2 := by
    rw [same, size, mul_div_cancel_right₀ _ (by positivity)] at scaled
    exact_mod_cast scaled
  have few : value.significand ≠ Nat.pow 2 53 := Nat.ne_of_lt value.isDouble.1
  simp only [ofRatio?, place, exact, nearest_exact unit, if_neg few]
  exact dif_pos value.isDouble

/-- A ratio far below the largest double is read as some double. -/
theorem ofRatio?_isSome (negative : Bool) (filled : 0 < numerator) (positive : 0 < denominator)
    (small : (numerator : ℚ) / denominator < (2 : ℚ) ^ (1000 : ℤ)) :
    (ofRatio? negative numerator denominator).isSome = true := by
  have last := isLastPlace_lastPlace filled positive
  have bits := pow_le_scaleDown_div numerator positive (lastPlace numerator denominator)
  simp only [ofRatio?]
  generalize lastPlace numerator denominator = place at last bits ⊢
  generalize scaleDown numerator denominator place = scaled at bits ⊢
  have few : scaled.1 / scaled.2 < Nat.pow 2 53 :=
    not_le.mp fun many => not_lt.mpr ((bits 53).mp many) last.fits
  -- Unless the place is the least one, the whole part of the scaled ratio has all its bits.
  have full : Nat.pow 2 52 ≤ scaled.1 / scaled.2 ∨ place = -1074 :=
    last.full.imp (bits 52).mpr id
  -- The lower end of the last place is below the size, so the place is below the largest one.
  have low : place < 948 := by
    rcases last.full with full | least
    · have between := lt_of_le_of_lt full small
      have order := (zpow_lt_zpow_iff_right₀ (by norm_num : (1 : ℚ) < 2)).mp between
      omega
    · omega
  have least := last.least
  have bounds := nearest_bounds scaled.1 scaled.2
  split
  · -- The carry leaves the least full significand at the next place.
    rw [ofParts?, dif_pos ⟨by decide, by omega, by omega, .inl (Nat.le_refl _)⟩]
    rfl
  · rename_i uncarried
    have below : nearest scaled.1 scaled.2 < Nat.pow 2 53 := by omega
    rw [ofParts?, dif_pos ⟨below, least, by omega, full.imp (fun full => by omega) id⟩]
    rfl

end Ratio

/-- A decimal of a usual magnitude is read as the ratio that it is. -/
theorem ofDecimal?_eq {value : Decimal} (nonzero : value.digits ≠ 0)
    (tiny : -330 ≤ value.magnitude) (huge : value.magnitude < 310) :
    ∃ numerator denominator : Nat, 0 < numerator ∧ 0 < denominator ∧
      (numerator : ℚ) / denominator = value.size ∧
      ofDecimal? value = ofRatio? value.negative numerator denominator := by
  -- A negative power of ten goes into the denominator.
  have zero : ¬ (value.digits = 0 ∨ value.magnitude < -330) := by omega
  rw [ofDecimal?, if_neg zero, if_neg (not_le.mpr huge)]
  cases power : value.exponent with
  | ofNat up =>
    refine ⟨value.digits * Nat.pow 10 up, 1, Nat.mul_pos (by omega) (by simp), by decide, ?_, rfl⟩
    simp [Decimal.size, power]
  | negSucc down =>
    refine ⟨value.digits, Nat.pow 10 (down + 1), by omega, by simp, ?_, rfl⟩
    simp [Decimal.size, power, div_eq_mul_inv]

/-- A decimal that is a double is read as it. -/
theorem ofDecimal?_exact {value : Binary64} {decimal : Decimal}
    (sign : decimal.negative = value.negative) (same : decimal.size = value.size) :
    ofDecimal? decimal = some value := by
  by_cases zero : value.significand = 0
  · -- Only zero has the size zero, whatever its power of ten.
    have empty : decimal.digits = 0 := by
      have power : (10 : ℚ) ^ decimal.exponent ≠ 0 := by positivity
      simpa [Decimal.size, size, zero, power] using same
    rw [ofDecimal?, if_pos (.inl empty), sign, ← eq_zero zero]
  · have nonzero : decimal.digits ≠ 0 := by
      intro empty
      have least := le_size zero
      have positive : (0 : ℚ) < (2 : ℚ) ^ (-1074 : ℤ) := by positivity
      rw [← same, Decimal.size, empty, Nat.cast_zero, zero_mul] at least
      exact absurd least (not_le.mpr positive)
    obtain ⟨below, above⟩ := Decimal.size_bounds nonzero
    -- The bounds on doubles lie within those where decimals are cut off.
    have tiny : -330 ≤ decimal.magnitude := by
      have order := (zpow_lt_zpow_iff_right₀ (by norm_num : (1 : ℚ) < 10)).mp
        (cutoffs.1.trans_le ((le_size zero).trans (same ▸ above.le)))
      omega
    have huge : decimal.magnitude < 310 := by
      exact (zpow_lt_zpow_iff_right₀ (by norm_num : (1 : ℚ) < 10)).mp
        (below.trans_lt (same ▸ (size_lt value).trans cutoffs.2))
    obtain ⟨numerator, denominator, -, positive, ratio, read⟩ := ofDecimal?_eq nonzero tiny huge
    rw [read, sign]
    exact ofRatio?_exact zero positive (ratio.trans same)

/-- A decimal far below the largest double is read as some double. -/
theorem ofDecimal?_isSome {value : Decimal} (small : value.size < (2 : ℚ) ^ (1000 : ℤ)) :
    (ofDecimal? value).isSome = true := by
  -- Between the cutoffs a decimal is a ratio, and beyond the lower one it is zero.
  by_cases zero : value.digits = 0 ∨ value.magnitude < -330
  · rw [ofDecimal?, if_pos zero]
    rfl
  · have nonzero : value.digits ≠ 0 := fun empty => zero (.inl empty)
    -- A decimal of this size lies far below the upper cutoff.
    have huge : value.magnitude < 310 := by
      have most : (2 : ℚ) ^ (1000 : ℤ) < (2 : ℚ) ^ (1024 : ℤ) :=
        zpow_lt_zpow_right₀ (by norm_num) (by norm_num)
      exact (zpow_lt_zpow_iff_right₀ (by norm_num : (1 : ℚ) < 10)).mp
        ((Decimal.size_bounds nonzero).1.trans_lt (small.trans (most.trans cutoffs.2)))
    obtain ⟨numerator, denominator, filled, positive, ratio, read⟩ :=
      ofDecimal?_eq nonzero (by omega) huge
    rw [read]
    exact ofRatio?_isSome _ filled positive (ratio ▸ small)

/-- The exact decimal of a double has the double's size. -/
theorem size_exactDecimal (value : Binary64) : value.exactDecimal.size = value.size := by
  cases power : value.exponent with
  | ofNat up =>
    simp only [exactDecimal, power, Decimal.size_normal, size]
    simp
  | negSucc down =>
    simp only [exactDecimal, power, Decimal.size_normal, size]
    -- Five over ten is one half, as often as the power says.
    have halves : (5 : ℚ) ^ (down + 1) * (10 : ℚ) ^ (-((down : ℤ) + 1)) =
        (2 : ℚ) ^ Int.negSucc down := by
      rw [zpow_negSucc, zpow_neg, ← Nat.cast_succ, zpow_natCast, ← div_eq_mul_inv, ← div_pow,
        ← inv_pow]
      norm_num
    rw [Nat.cast_mul, mul_assoc, ← halves]
    norm_num

/-- The shortest decimal of a double reads back as the double. -/
theorem ofDecimal?_shortest (value : Binary64) : ofDecimal? value.shortest = some value := by
  unfold shortest
  split
  · rename_i zero
    rw [ofDecimal?, if_pos (.inl rfl), ← eq_zero zero]
  · -- A candidate was tested, and the exact decimal needs no test.
    cases found : value.candidates.find? fun decimal => ofDecimal? decimal = some value with
    | some decimal => simpa using List.find?_some found
    | none =>
      refine ofDecimal?_exact ?_ (size_exactDecimal value)
      unfold exactDecimal
      split <;> simp

/-- The shortest decimal of a double has no trailing zeros. -/
theorem shortest_isNormal (value : Binary64) : value.shortest.IsNormal := by
  unfold shortest
  split
  · exact Decimal.zero_isNormal _
  · cases found : value.candidates.find? fun decimal => ofDecimal? decimal = some value with
    | some decimal =>
      -- Every candidate is one of two neighbours, both of which were made normal.
      have member := List.mem_of_find?_eq_some found
      simp only [candidates, neighbours, List.mem_flatMap, List.mem_cons, List.not_mem_nil,
        or_false] at member
      obtain ⟨step, -, rfl | rfl⟩ := member <;> exact Decimal.normal_isNormal _ _ _
    | none =>
      show value.exactDecimal.IsNormal
      unfold exactDecimal
      split <;> exact Decimal.normal_isNormal _ _ _

end Binary64

namespace Json

/-- A double is read from its own number. -/
@[simp] theorem double?_ofDouble (value : Binary64) : (ofDouble value).double? = some value :=
  Binary64.ofDecimal?_shortest value

/-- Every number of 64 bits is within the doubles. -/
theorem double?_ofNat {value : Nat} (small : value < 2 ^ 64) :
    (ofNat value).double?.isSome = true := by
  -- A word is far below the largest double.
  refine Binary64.ofDecimal?_isSome ?_
  have word : (value : ℚ) < (2 : ℚ) ^ (64 : ℤ) := by exact_mod_cast small
  rw [Decimal.size_normal, zpow_zero, mul_one]
  exact word.trans (zpow_lt_zpow_right₀ (by norm_num) (by norm_num))

end Json

end FilterLang
