/-! Decimal numbers as texts write them: digits, a power of ten and a sign. -/

namespace FilterLang

/-- The number that decimal digits spell. -/
def natOfDigits (digits : List Char) : Nat :=
  -- Each digit moves those before it up one place.
  digits.foldl (fun value c => 10 * value + (c.toNat - '0'.toNat)) 0

/-- The decimal digits of a number, without leading zeros. -/
def digitsOfNat (value : Nat) : List Char :=
  Nat.toDigits 10 value

/-- A signed multiple of a power of ten. -/
structure Decimal where
  /-- Whether the number has a minus sign; zero may have one. -/
  negative : Bool
  /-- The digits before the power of ten, read as one number. -/
  digits : Nat
  /-- The power of ten that the digits are multiplied by. -/
  exponent : Int
deriving DecidableEq, Repr, Inhabited

namespace Decimal

/-- How many zeros a number's digits end in. -/
def trailingZeros (value : Nat) : Nat :=
  ((digitsOfNat value).reverse.takeWhile (· == '0')).length

/-- The form of a decimal without trailing zeros; zero has the exponent zero. -/
def normal (negative : Bool) (digits : Nat) (exponent : Int) : Decimal :=
  if digits = 0 then ⟨negative, 0, 0⟩
  else
    -- The zeros taken off the digits go into the power of ten.
    let zeros := trailingZeros digits
    ⟨negative, digits / Nat.pow 10 zeros, exponent + zeros⟩

/-- The exponent of a decimal's leading digit. -/
def magnitude (value : Decimal) : Int :=
  (digitsOfNat value.digits).length + value.exponent - 1

end Decimal

end FilterLang
