import FilterLang.Number.Decimal

/-! Finite double-precision numbers, and the nearest one to a ratio or a decimal. -/

namespace FilterLang

/-- The pairs of significand and exponent that a finite double has, one for each size. -/
def IsDouble (significand : Nat) (exponent : Int) : Prop :=
  significand < Nat.pow 2 53 ∧ -1074 ≤ exponent ∧ exponent ≤ 971 ∧
    (Nat.pow 2 52 ≤ significand ∨ exponent = -1074)

instance (significand : Nat) (exponent : Int) : Decidable (IsDouble significand exponent) := by
  -- The condition is built from comparisons of numbers.
  unfold IsDouble
  infer_instance

/-- A finite double: a significand times a power of two, with a sign that zero has as well. -/
structure Binary64 where
  negative : Bool
  significand : Nat
  exponent : Int
  isDouble : IsDouble significand exponent
deriving DecidableEq, Repr

namespace Binary64

/-- The two zeros. -/
def zero (negative : Bool) : Binary64 :=
  ⟨negative, 0, -1074, by decide⟩

instance : Inhabited Binary64 := ⟨zero false⟩

/-- The double with the given parts, when there is one. -/
def ofParts? (negative : Bool) (significand : Nat) (exponent : Int) : Option Binary64 :=
  -- Parts out of range belong to no finite double.
  if isDouble : IsDouble significand exponent then
    some ⟨negative, significand, exponent, isDouble⟩
  else none

/-- A ratio divided by a power of two, again as a ratio. -/
def scaleDown (numerator denominator : Nat) (power : Int) : Nat × Nat :=
  match power with
  -- The power goes to the side on which it stays a whole number.
  | .ofNat up => (numerator, denominator * Nat.pow 2 up)
  | .negSucc down => (numerator * Nat.pow 2 (down + 1), denominator)

/-- The whole number nearest to a ratio; a tie goes to the even one. -/
def nearest (numerator denominator : Nat) : Nat :=
  let whole := numerator / denominator
  -- Twice the remainder against the denominator tells which neighbour is nearer.
  let double := 2 * (numerator % denominator)
  if double < denominator then whole
  else if denominator < double then whole + 1
  else whole + whole % 2

/--
The power of two of the last place that a double keeps of a ratio.

The ratio lies strictly between two powers of two that its logarithms name, so one correction by
one suffices; no double has a last place below the least power.
-/
def lastPlace (numerator denominator : Nat) : Int :=
  let guess : Int := max (-1074) ((numerator.log2 : Int) - denominator.log2 - 53)
  let (scaled, unit) := scaleDown numerator denominator guess
  -- A quotient of 54 bits means that the guess was one too low.
  if scaled / unit < Nat.pow 2 53 then guess else guess + 1

/-- The double nearest to a ratio, on a tie the one with an even significand; none if too large. -/
def ofRatio? (negative : Bool) (numerator denominator : Nat) : Option Binary64 :=
  let place := lastPlace numerator denominator
  let (scaled, unit) := scaleDown numerator denominator place
  let significand := nearest scaled unit
  -- Rounding up can carry into the next power of two.
  if significand = Nat.pow 2 53 then ofParts? negative (Nat.pow 2 52) (place + 1)
  else ofParts? negative significand place

/--
The double nearest to a decimal; none when it is too large.

A decimal of magnitude 310 or more is past the largest double, and one of magnitude below -330 is
nearer to zero than to the least one, so powers of ten stay small.
-/
def ofDecimal? (value : Decimal) : Option Binary64 :=
  if value.digits = 0 ∨ value.magnitude < -330 then some (zero value.negative)
  else if 310 ≤ value.magnitude then none
  else
    match value.exponent with
    | .ofNat up => ofRatio? value.negative (value.digits * Nat.pow 10 up) 1
    | .negSucc down => ofRatio? value.negative value.digits (Nat.pow 10 (down + 1))

/-- The size of a double as a ratio. -/
def ratio (value : Binary64) : Nat × Nat :=
  match value.exponent with
  | .ofNat up => (value.significand * Nat.pow 2 up, 1)
  | .negSucc down => (value.significand, Nat.pow 2 (down + 1))

end Binary64

end FilterLang
