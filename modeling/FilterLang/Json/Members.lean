import FilterLang.Json

/-! Reading typed values out of JSON: records by names or by places, and choices by their words. -/

namespace FilterLang

namespace Json

/-- The members of an object in which none of the known names appears twice. -/
def members? (known : List String) : Json → Option (List (String × Json))
  | object members =>
    -- A name without a meaning may repeat.
    if known.all fun name => (members.filter (·.1 == name)).length ≤ 1 then some members else none
  | _ => none

/-- The fields of a record: the members of an object, or the items of an array in their order. -/
def fields? (names : List String) : Json → Option (List (String × Json))
  -- An array may end before the last field, and has nothing behind it.
  | array items => if items.length ≤ names.length then some (names.zip items) else none
  | json => json.members? names

/-- The value of the first member with a name. -/
def lookup? (members : List (String × Json)) (name : String) : Option Json :=
  (members.find? (·.1 == name)).map (·.2)

/-- The value of a member that has to be there. -/
def required? {α : Type} (members : List (String × Json)) (name : String)
    (read : Json → Option α) : Option α :=
  (lookup? members name).bind read

/-- The value of a member that may be absent or null. -/
def optional? {α : Type} (members : List (String × Json)) (name : String)
    (read : Json → Option α) : Option (Option α) :=
  match lookup? members name with
  | none => some none
  -- Null says the same as leaving the member out.
  | some null => some none
  | some value => (read value).map some

/-- The value of a member that has a default when it is absent. -/
def defaulted? {α : Type} (members : List (String × Json)) (name : String) (fallback : α)
    (read : Json → Option α) : Option α :=
  match lookup? members name with
  | none => some fallback
  -- A member that is there has to be read, null included.
  | some value => read value

/-- The text of a string. -/
def string? : Json → Option String
  | string value => some value
  | _ => none

/--
The word of a choice: a text, or the name of the one member of an object that says nothing more.

What is held before it is read may say nothing by an empty object, and else only null does.
-/
def choice? (held : Bool) : Json → Option String
  | string word => some word
  | object [(word, null)] => some word
  | object [(word, object [])] => if held then some word else none
  | _ => none

/-- The truth value of a boolean. -/
def bool? : Json → Option Bool
  | bool value => some value
  | _ => none

/-- A size: an integer that an unsigned 64-bit word holds. -/
def size? : Json → Option Nat
  | integer value => if 0 ≤ value ∧ value.toNat < Nat.pow 2 64 then some value.toNat else none
  | _ => none

/-- A size as a 64-bit word. -/
def word? (value : Json) : Option UInt64 :=
  value.size?.map UInt64.ofNat

/-- The items of an array, each read in the same way. -/
def items? {α : Type} (read : Json → Option α) : Json → Option (List α)
  | array items => items.mapM read
  | _ => none

/-- The texts of an array of strings. -/
def strings? (value : Json) : Option (List String) :=
  items? string? value

/-- A member that is left out when it has no value. -/
def member? {α : Type} (name : String) (write : α → Json) : Option α → List (String × Json)
  | none => []
  | some value => [(name, write value)]

end Json

end FilterLang
