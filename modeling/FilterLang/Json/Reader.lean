import FilterLang.Json
import FilterLang.Number.Literal

/-! Reading JSON text: strictly, without comments, trailing commas or raw control characters. -/

namespace FilterLang

namespace Json

/-- The white space of JSON: space, tab, line feed and carriage return. -/
def isSpace (c : Char) : Bool :=
  c == ' ' || c == '\t' || c == '\n' || c == '\r'

/-- The text from its first character that is not white space on. -/
def skipSpace (cs : List Char) : List Char :=
  cs.dropWhile isSpace

/-- The value of a hexadecimal digit. -/
def hexValue? (c : Char) : Option Nat :=
  if isDigit c then some (c.toNat - '0'.toNat)
  else if 'a' ≤ c && c ≤ 'f' then some (c.toNat - 'a'.toNat + 10)
  else if 'A' ≤ c && c ≤ 'F' then some (c.toNat - 'A'.toNat + 10)
  else none

/-- The number that four hexadecimal digits spell. -/
def hexUnit? (a b c d : Char) : Option Nat := do
  let a ← hexValue? a
  let b ← hexValue? b
  let c ← hexValue? c
  let d ← hexValue? d
  return ((a * 16 + b) * 16 + c) * 16 + d

/-- Whether a code unit is the first half of a surrogate pair. -/
def isHighHalf (unit : Nat) : Bool :=
  0xD800 ≤ unit && unit < 0xDC00

/-- Whether a code unit is the second half of a surrogate pair. -/
def isLowHalf (unit : Nat) : Bool :=
  0xDC00 ≤ unit && unit < 0xE000

/-- The character that a surrogate pair stands for. -/
def pairChar (high low : Nat) : Char :=
  Char.ofNat (0x10000 + (high - 0xD800) * 0x400 + (low - 0xDC00))

/-- The character that a backslash and one letter stand for. -/
def escapedLetter? : Char → Option Char
  | '"' => some '"'
  | '\\' => some '\\'
  | '/' => some '/'
  | 'b' => some '\x08'
  | 'f' => some '\x0c'
  | 'n' => some '\n'
  | 'r' => some '\r'
  | 't' => some '\t'
  | _ => none

/-- A piece of a string as it is written: a character, or a code unit that an escape names. -/
inductive Piece where
  | char (c : Char)
  | unit (value : Nat)
deriving DecidableEq, Repr

/-- The pieces of a string up to its closing quote, and what follows it. -/
def readPieces : List Char → Option (List Piece × List Char)
  | [] => none
  | '"' :: rest => some ([], rest)
  -- Whether two units make a pair is decided when all pieces are known.
  | '\\' :: 'u' :: a :: b :: c :: d :: rest =>
    match hexUnit? a b c d with
    | some value => (readPieces rest).map fun (pieces, rest) => (.unit value :: pieces, rest)
    | none => none
  | '\\' :: c :: rest =>
    match escapedLetter? c with
    | some c => (readPieces rest).map fun (pieces, rest) => (.char c :: pieces, rest)
    | none => none
  | c :: rest =>
    -- Control characters have to be escaped.
    if c.toNat < 0x20 then none
    else (readPieces rest).map fun (pieces, rest) => (.char c :: pieces, rest)

/-- The text that pieces stand for; none when half of a surrogate pair stands alone. -/
def textOf? : List Piece → Option (List Char)
  | [] => some []
  | .char c :: rest => (textOf? rest).map (c :: ·)
  | .unit value :: rest =>
    if isHighHalf value then
      match rest with
      -- The second half has to be an escape too, and to follow at once.
      | .unit low :: rest =>
        if isLowHalf low then (textOf? rest).map (pairChar value low :: ·) else none
      | _ => none
    else if isLowHalf value then none
    else (textOf? rest).map (Char.ofNat value :: ·)

/-- The text of a string, if it has one, up to its closing quote, and what follows it. -/
def readString (cs : List Char) : Option (Option (List Char) × List Char) :=
  (readPieces cs).map fun (pieces, rest) => (textOf? pieces, rest)

/-- The whole part of a number: zero alone, or digits that do not begin with zero. -/
def readWhole : List Char → Option (List Char × List Char)
  -- A leading zero stands alone.
  | '0' :: rest => if rest.head?.any isDigit then none else some (['0'], rest)
  | cs => readDigits cs

/-- The digits after a point, if a point follows. -/
def readFraction : List Char → Option (Option (List Char) × List Char)
  | '.' :: rest => (readDigits rest).map fun (digits, rest) => (some digits, rest)
  | cs => some (none, cs)

/-- The number with the given parts; a fraction, an exponent or a minus zero make no integer. -/
def numberOf (negative : Bool) (whole : List Char) (fraction : Option (List Char))
    (power : Option Int) : Json :=
  match fraction, power with
  | none, none =>
    let value := natOfDigits whole
    if !negative then .integer value
    -- Integers have no negative zero.
    else if value = 0 then .decimal ⟨true, 0, 0⟩
    else .integer (-(value : Int))
  | fraction, power =>
    let places := fraction.getD []
    .decimal (.normal negative (natOfDigits (whole ++ places)) (power.getD 0 - places.length))

/-- A number behind its sign. -/
def readUnsigned (negative : Bool) (cs : List Char) : Option (Json × List Char) := do
  let (whole, rest) ← readWhole cs
  let (fraction, rest) ← readFraction rest
  let (power, rest) ← readExponent rest
  return (numberOf negative whole fraction power, rest)

/-- A number. -/
def readNumber : List Char → Option (Json × List Char)
  | '-' :: rest => readUnsigned true rest
  | cs => readUnsigned false cs

/-- The name of a member, if it stands for a text, with its colon, and what follows. -/
def readKey (cs : List Char) : Option (Option String × List Char) :=
  match skipSpace cs with
  | '"' :: rest =>
    match readString rest with
    | some (key, rest) =>
      match skipSpace rest with
      | ':' :: rest => some (key.map String.ofList, rest)
      | _ => none
    | none => none
  | _ => none

/-- The object with the given members; without a text for one of the names it is no value. -/
def objectOf (members : List (Option String × Json)) : Json :=
  match members.mapM fun member => member.1.map fun key => (key, member.2) with
  | some members => .object members
  | none => .unpaired

mutual

/--
A value and what follows it.

Each call takes one unit of fuel and each two calls at least one character, so twice the length of
the text is enough.
-/
def readValue : Nat → List Char → Option (Json × List Char)
  | 0, _ => none
  | fuel + 1, cs =>
    match skipSpace cs with
    | '\x7b' :: rest =>
      match skipSpace rest with
      -- Only an empty object may close without a member.
      | '\x7d' :: rest => some (.object [], rest)
      | rest => (readMembers fuel rest).map fun (members, rest) => (objectOf members, rest)
    | '[' :: rest =>
      match skipSpace rest with
      -- Only an empty array may close without an item.
      | ']' :: rest => some (.array [], rest)
      | rest => (readItems fuel rest).map fun (items, rest) => (.array items, rest)
    | '"' :: rest =>
      (readString rest).map fun (text, rest) =>
        ((text.map fun chars => .string (String.ofList chars)).getD .unpaired, rest)
    | 't' :: 'r' :: 'u' :: 'e' :: rest => some (.bool true, rest)
    | 'f' :: 'a' :: 'l' :: 's' :: 'e' :: rest => some (.bool false, rest)
    | 'n' :: 'u' :: 'l' :: 'l' :: rest => some (.null, rest)
    | cs => readNumber cs

/-- One or more items with the bracket that closes them, and what follows it. -/
def readItems : Nat → List Char → Option (List Json × List Char)
  | 0, _ => none
  | fuel + 1, cs =>
    match readValue fuel cs with
    | none => none
    | some (item, rest) =>
      match skipSpace rest with
      | ',' :: rest => (readItems fuel rest).map fun (items, rest) => (item :: items, rest)
      | ']' :: rest => some ([item], rest)
      | _ => none

/-- One or more members with the brace that closes them, and what follows it. -/
def readMembers : Nat → List Char → Option (List (Option String × Json) × List Char)
  | 0, _ => none
  | fuel + 1, cs =>
    match readKey cs with
    | none => none
    | some (key, rest) =>
      match readValue fuel rest with
      | none => none
      | some (value, rest) =>
        match skipSpace rest with
        | ',' :: rest =>
          (readMembers fuel rest).map fun (members, rest) => ((key, value) :: members, rest)
        | '\x7d' :: rest => some ([(key, value)], rest)
        | _ => none

end

/-- The value that a whole text spells. -/
def parse? (text : String) : Option Json :=
  let cs := text.toList
  match readValue (2 * cs.length + 2) cs with
  -- Nothing but white space may follow the value.
  | some (value, rest) => if (skipSpace rest).isEmpty then some value else none
  | none => none

end Json

end FilterLang
