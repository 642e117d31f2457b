import FilterLang.Number.Binary64
import FilterLang.Text.Letters

/-! Numbers as queries write them: read into the nearest double. -/

namespace FilterLang

/-- At least one digit, and what follows the digits. -/
def readDigits (cs : List Char) : Option (List Char × List Char) :=
  match cs.takeWhile isDigit with
  -- A sign or a mark without digits behind it is no number.
  | [] => none
  | digits => some (digits, cs.dropWhile isDigit)

/-- The exponent of a number after its mark. -/
def readPower : List Char → Option (Int × List Char)
  | '-' :: rest => (readDigits rest).map fun (digits, rest) => (-(natOfDigits digits : Int), rest)
  | '+' :: rest => (readDigits rest).map fun (digits, rest) => ((natOfDigits digits : Int), rest)
  | cs => (readDigits cs).map fun (digits, rest) => ((natOfDigits digits : Int), rest)

/-- The exponent of a number, if one follows. -/
def readExponent : List Char → Option (Option Int × List Char)
  | 'e' :: rest => (readPower rest).map fun (power, rest) => (some power, rest)
  | 'E' :: rest => (readPower rest).map fun (power, rest) => (some power, rest)
  | cs => some (none, cs)

/-- What a number text stands for. -/
inductive NumberReading where
  | finite (value : Binary64)
  /-- A number past the largest double, an infinity, or no number. -/
  | outOfRange
deriving DecidableEq, Repr

/-- Why a text is no number. -/
inductive NumberFault where
  | empty
  | malformed
deriving DecidableEq, Repr

/-- What is said of a text that is no number. -/
def NumberFault.message : NumberFault → String
  | empty => "cannot parse float from empty string"
  | malformed => "invalid float literal"

/-- The words for the values that are not finite. -/
def nonFiniteWords : List (List Char) :=
  ["inf".toList, "infinity".toList, "nan".toList]

/-- The digits after a point, which may be none at all. -/
def readPlaces : List Char → List Char × List Char
  | '.' :: rest => (rest.takeWhile isDigit, rest.dropWhile isDigit)
  | cs => ([], cs)

/-- An unsigned decimal that takes up a whole text: digits on one side of the point at least. -/
def readDecimal? (negative : Bool) (cs : List Char) : Option Decimal :=
  let whole := cs.takeWhile isDigit
  let (places, rest) := readPlaces (cs.dropWhile isDigit)
  -- A point alone has no digits on either side.
  if (whole ++ places).isEmpty then none
  else
    match readExponent rest with
    | some (power, []) =>
      some (.normal negative (natOfDigits (whole ++ places)) (power.getD 0 - places.length))
    | _ => none

/-- A number text behind its sign. -/
def readMagnitude (negative : Bool) (cs : List Char) : Except NumberFault NumberReading :=
  match readDecimal? negative cs with
  | some decimal =>
    match Binary64.ofDecimal? decimal with
    | some value => .ok (.finite value)
    | none => .ok .outOfRange
  -- The words count in any capitals.
  | none => if nonFiniteWords.contains (lowerCase cs) then .ok .outOfRange else .error .malformed

/-- What a number text stands for: a sign, then a decimal or a word for no finite value. -/
def readNumberText : List Char → Except NumberFault NumberReading
  | [] => .error .empty
  | '-' :: cs => readMagnitude true cs
  | '+' :: cs => readMagnitude false cs
  | cs => readMagnitude false cs

end FilterLang
