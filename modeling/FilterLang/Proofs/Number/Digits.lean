import FilterLang.Number.Literal
import Mathlib.Algebra.Order.Group.Nat
import Mathlib.Tactic.Positivity

/-! Digits and the numbers that they spell. -/

namespace FilterLang

/-- Digits are read as digits in base ten. -/
theorem natOfDigits_eq (digits : List Char) :
    natOfDigits digits = Nat.ofDigitChars 10 digits 0 :=
  Nat.ofDigitChars_eq_foldl.symm

/-- Digits behind other digits move those up by one place each. -/
theorem natOfDigits_append (front back : List Char) :
    natOfDigits (front ++ back) = natOfDigits front * 10 ^ back.length + natOfDigits back := by
  -- The front is what the back starts to count from.
  simp only [natOfDigits_eq]
  rw [Nat.ofDigitChars_append, Nat.ofDigitChars_eq_ofDigitChars_zero, Nat.mul_comm]

/-- Zeros spell nothing. -/
@[simp] theorem natOfDigits_replicate (count : Nat) :
    natOfDigits (List.replicate count '0') = 0 := by
  rw [natOfDigits_eq, Nat.ofDigitChars_replicate_zero, Nat.mul_zero]

/-- A number is spelled by its digits. -/
@[simp] theorem natOfDigits_digitsOfNat (value : Nat) :
    natOfDigits (digitsOfNat value) = value := by
  rw [natOfDigits_eq, digitsOfNat, Nat.ofDigitChars_ten_toDigits]

/-- The digits of a number are digits. -/
theorem isDigit_of_mem_digitsOfNat {value : Nat} {c : Char} (member : c ∈ digitsOfNat value) :
    isDigit c = true :=
  Nat.isDigit_of_mem_toDigits (by decide) (by decide) member

/-- Every number has a digit. -/
theorem digitsOfNat_ne_nil (value : Nat) : digitsOfNat value ≠ [] :=
  Nat.toDigits_ne_nil

/-- The last digit of a number of ten or more is what is left of it by tens. -/
theorem digitsOfNat_of_ten_le {value : Nat} (large : 10 ≤ value) :
    digitsOfNat value = digitsOfNat (value / 10) ++ [Nat.digitChar (value % 10)] :=
  Nat.toDigits_of_base_le (by decide) large

/-- A number below ten has one digit. -/
theorem digitsOfNat_of_lt_ten {value : Nat} (small : value < 10) :
    digitsOfNat value = [Nat.digitChar value] :=
  Nat.toDigits_of_lt_base small

/-- Only zero has the digit zero. -/
theorem digitChar_ne_zero {value : Nat} (small : value < 10) (positive : value ≠ 0) :
    Nat.digitChar value ≠ '0' := by
  -- There are ten digits, and each is tried.
  have all : ∀ digit < 10, digit ≠ 0 → Nat.digitChar digit ≠ '0' := by decide
  exact all value small positive

/-- A number other than zero does not begin with zero. -/
theorem exists_digitsOfNat_cons {value : Nat} (positive : value ≠ 0) :
    ∃ first rest, digitsOfNat value = first :: rest ∧ first ≠ '0' := by
  -- The first digit stays the same while digits are taken off the end.
  induction value using Nat.strongRecOn with
  | ind value ih =>
    by_cases small : value < 10
    · exact ⟨Nat.digitChar value, [], digitsOfNat_of_lt_ten small, digitChar_ne_zero small positive⟩
    · obtain ⟨first, rest, same, other⟩ := ih (value / 10) (by omega) (by omega)
      refine ⟨first, rest ++ [Nat.digitChar (value % 10)], ?_, other⟩
      rw [digitsOfNat_of_ten_le (by omega), same, List.cons_append]

/-- The digits of a number tell between which powers of ten it lies. -/
theorem digitsOfNat_length {value : Nat} (positive : value ≠ 0) :
    10 ^ ((digitsOfNat value).length - 1) ≤ value ∧ value < 10 ^ (digitsOfNat value).length := by
  have filled : 0 < (digitsOfNat value).length := Nat.length_toDigits_pos
  have above := (Nat.length_toDigits_le_iff (by decide) filled).mp (Nat.le_refl _)
  refine ⟨?_, above⟩
  rcases Nat.eq_zero_or_pos ((digitsOfNat value).length - 1) with single | several
  · -- One digit says no more than that the number is not zero.
    rw [single, Nat.pow_zero]
    omega
  · -- One digit less would not have been enough.
    by_contra below
    have shorter := (Nat.length_toDigits_le_iff (by decide) several).mpr (Nat.lt_of_not_le below)
    simp only [digitsOfNat] at filled shorter
    omega

namespace Decimal

/-- A number that is no multiple of ten ends in no zero. -/
theorem trailingZeros_of_ne {value : Nat} (remainder : value % 10 ≠ 0) :
    trailingZeros value = 0 := by
  -- The last digit is the remainder, which is not zero here.
  have last : ∃ front, digitsOfNat value = front ++ [Nat.digitChar (value % 10)] := by
    by_cases small : value < 10
    · exact ⟨[], by rw [digitsOfNat_of_lt_ten small, Nat.mod_eq_of_lt small, List.nil_append]⟩
    · exact ⟨_, digitsOfNat_of_ten_le (by omega)⟩
  obtain ⟨front, same⟩ := last
  have other : (Nat.digitChar (value % 10) == '0') = false :=
    beq_eq_false_iff_ne.mpr (digitChar_ne_zero (Nat.mod_lt _ (by decide)) remainder)
  simp [trailingZeros, same, other]

/-- Ten times a number ends in one more zero. -/
theorem trailingZeros_mul_ten {value : Nat} (positive : value ≠ 0) :
    trailingZeros (value * 10) = trailingZeros value + 1 := by
  -- The last digit of the product is its remainder, which is zero.
  have digits : digitsOfNat (value * 10) = digitsOfNat value ++ ['0'] := by
    rw [digitsOfNat_of_ten_le (by omega), Nat.mul_div_cancel _ (by decide), Nat.mul_mod_left]
    rfl
  simp [trailingZeros, digits]

/-- A number times a power of ten ends in as many more zeros. -/
theorem trailingZeros_mul_pow {value : Nat} (positive : value ≠ 0) (count : Nat) :
    trailingZeros (value * 10 ^ count) = trailingZeros value + count := by
  -- Induction on the power, one zero at a time.
  induction count with
  | zero => simp
  | succ count ih =>
    have scaled : value * 10 ^ count ≠ 0 := Nat.mul_ne_zero positive (by positivity)
    rw [Nat.pow_succ, ← Nat.mul_assoc, trailingZeros_mul_ten scaled, ih, Nat.add_assoc]

/-- The zeros that a number ends in can be taken off it. -/
theorem pow_trailingZeros_dvd (value : Nat) : 10 ^ trailingZeros value ∣ value := by
  induction value using Nat.strongRecOn with
  | ind value ih =>
    by_cases remainder : value % 10 = 0
    · rcases Nat.eq_zero_or_pos value with rfl | positive
      · exact Nat.dvd_zero _
      · -- A multiple of ten has one zero more than its tenth, which is smaller.
        obtain ⟨tenth, rfl⟩ : ∃ tenth, value = tenth * 10 := ⟨value / 10, by omega⟩
        rw [trailingZeros_mul_ten (by omega), Nat.pow_succ]
        exact Nat.mul_dvd_mul_right (ih tenth (by omega)) 10
    · rw [trailingZeros_of_ne remainder]
      exact Nat.one_dvd _

/-- Zeros can be moved from the digits into the power of ten. -/
theorem normal_mul_pow (negative : Bool) (digits : Nat) (exponent : Int) (count : Nat) :
    normal negative (digits * 10 ^ count) exponent = normal negative digits (exponent + count) := by
  by_cases zero : digits = 0
  · simp [normal, zero]
  · have scaled : digits * 10 ^ count ≠ 0 := Nat.mul_ne_zero zero (by positivity)
    -- All zeros are taken off at once, the moved ones with those that were there before.
    have quotient : digits * 10 ^ count / 10 ^ (trailingZeros digits + count) =
        digits / 10 ^ trailingZeros digits := by
      rw [Nat.pow_add, Nat.mul_div_mul_right _ _ (by positivity)]
    simp only [normal, if_neg zero, if_neg scaled, trailingZeros_mul_pow zero, Nat.pow_eq, quotient,
      mk.injEq, true_and]
    omega

/-- A decimal without trailing zeros, in which zero has no power of ten. -/
def IsNormal (value : Decimal) : Prop :=
  value = normal value.negative value.digits value.exponent

/-- The normal form of a decimal is normal. -/
theorem normal_isNormal (negative : Bool) (digits : Nat) (exponent : Int) :
    (normal negative digits exponent).IsNormal := by
  by_cases zero : digits = 0
  · simp [IsNormal, normal, zero]
  · -- Putting the zeros back gives the digits that they were taken off.
    have restored : digits / 10 ^ trailingZeros digits * 10 ^ trailingZeros digits = digits :=
      Nat.div_mul_cancel (pow_trailingZeros_dvd digits)
    have again := normal_mul_pow negative (digits / 10 ^ trailingZeros digits) exponent
      (trailingZeros digits)
    have parts : normal negative digits exponent =
        ⟨negative, digits / 10 ^ trailingZeros digits, exponent + trailingZeros digits⟩ := by
      simp only [normal, if_neg zero, Nat.pow_eq]
    rw [restored, parts] at again
    rw [IsNormal, parts]
    exact again

/-- Zero without a power of ten is normal. -/
theorem zero_isNormal (negative : Bool) : (Decimal.mk negative 0 0).IsNormal := rfl

/-- A normal decimal without digits has no power of ten. -/
theorem IsNormal.exponent_eq {value : Decimal} (isNormal : value.IsNormal)
    (zero : value.digits = 0) : value.exponent = 0 := by
  rw [isNormal, normal, if_pos zero]

end Decimal

end FilterLang
