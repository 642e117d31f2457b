import FilterLang.Number.Binary64

/-! The shortest decimal that reads back as a double. -/

namespace FilterLang

namespace Binary64

/-- The decimal that a double is exactly. -/
def exactDecimal (value : Binary64) : Decimal :=
  match value.exponent with
  | .ofNat up => .normal value.negative (value.significand * Nat.pow 2 up) 0
  | .negSucc down =>
    -- Half is five tenths, so a power of one half is a power of five over a power of ten.
    .normal value.negative (value.significand * Nat.pow 5 (down + 1)) (-((down : Int) + 1))

/-- The two multiples of a power of ten around a double, the nearer one first. -/
def neighbours (value : Binary64) (power : Int) : List Decimal :=
  -- The double is measured in units of the power of ten.
  let (numerator, denominator) := value.ratio
  let (numerator, denominator) : Nat × Nat :=
    match power with
    | .ofNat up => (numerator, denominator * Nat.pow 10 up)
    | .negSucc down => (numerator * Nat.pow 10 (down + 1), denominator)
  -- The nearer multiple may be the one below or the one above; the other follows it.
  let below := numerator / denominator
  let closest := nearest numerator denominator
  let other := if closest = below then below + 1 else below
  [.normal value.negative closest power, .normal value.negative other power]

/-- A power of ten above a double, from its power of two and a bound on the logarithm of two. -/
def powerAbove (value : Binary64) : Int :=
  ((value.significand.log2 : Int) + value.exponent + 1) * 30103 / 100000 + 1

/-- The decimals to try for a double: those with fewer digits first, nearer ones before others. -/
def candidates (value : Binary64) : List Decimal :=
  -- Seventeen digits always suffice, and the start may lie a few places too high.
  (List.range 22).flatMap fun (step : Nat) => value.neighbours (value.powerAbove - step)

/--
The shortest decimal that reads back as a double; of those, the nearest one.

That it reads back is tested while it is looked for, and the double's exact value stands in should
no short decimal be found.
-/
def shortest (value : Binary64) : Decimal :=
  -- Zero has no leading digit to begin from.
  if value.significand = 0 then ⟨value.negative, 0, 0⟩
  else (value.candidates.find? fun decimal => ofDecimal? decimal = some value).getD
    value.exactDecimal

end Binary64

end FilterLang
