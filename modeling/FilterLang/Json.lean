import FilterLang.Number.Shortest

/-! JSON values, with members in the order of the text and integers apart from other numbers. -/

namespace FilterLang

/-- A JSON value. -/
inductive Json where
  | null
  | bool (value : Bool)
  /-- A number written as plain digits, or as a minus sign and digits other than zero. -/
  | integer (value : Int)
  /-- Any other number, without the trailing zeros of its digits. -/
  | decimal (value : Decimal)
  | string (value : String)
  /--
  A string, or an object with a name, that escapes half of a surrogate pair: it is well written but
  stands for no value, so it can only be passed over.
  -/
  | unpaired
  | array (items : List Json)
  | object (members : List (String × Json))
deriving Repr, Inhabited

namespace Json

/-- The JSON number of a size or an offset. -/
def ofNat (value : Nat) : Json :=
  .integer value

/-- The JSON number of a double, which is never written as an integer. -/
def ofDouble (value : Binary64) : Json :=
  .decimal value.shortest

/-- An array of texts. -/
def ofStrings (values : List String) : Json :=
  .array (values.map .string)

mutual

/-- How many arrays and objects stand one inside another. -/
def depth : Json → Nat
  | array items => depthOfItems items + 1
  | object members => depthOfMembers members + 1
  | _ => 0

/-- The greatest depth of several values. -/
def depthOfItems : List Json → Nat
  | [] => 0
  | item :: items => max (depth item) (depthOfItems items)

/-- The greatest depth of several members. -/
def depthOfMembers : List (String × Json) → Nat
  | [] => 0
  | (_, value) :: members => max (depth value) (depthOfMembers members)

end

/--
The double nearest to a number; none for other values and for numbers too large.

The rounding is exact, however many digits there are. A reader that rounds by best effort, with one
multiplication or division by a power of ten, can end up one place off where there are many.
-/
def double? : Json → Option Binary64
  -- A whole number may have more digits than a double keeps.
  | integer value => Binary64.ofDecimal? (.normal (value < 0) value.natAbs 0)
  | decimal value => Binary64.ofDecimal? value
  | _ => none

mutual

/-- Whether every number is within the doubles and every string and name stands for a text. -/
def isLoadable : Json → Bool
  | array items => areItemsLoadable items
  | object members => areMembersLoadable members
  | integer value => (double? (.integer value)).isSome
  | decimal value => (double? (.decimal value)).isSome
  | unpaired => false
  | _ => true

/-- Whether several values are all loadable. -/
def areItemsLoadable : List Json → Bool
  | [] => true
  | item :: items => isLoadable item && areItemsLoadable items

/-- Whether the values of several members are all loadable. -/
def areMembersLoadable : List (String × Json) → Bool
  | [] => true
  | (_, value) :: members => isLoadable value && areMembersLoadable members

end

end Json

end FilterLang
