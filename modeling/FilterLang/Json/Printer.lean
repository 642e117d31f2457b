import FilterLang.Json

/-! The text of a JSON value: on one line without spaces, or indented by two spaces a level. -/

namespace FilterLang

/-- How often to repeat the digit zero. -/
def zeroDigits (count : Nat) : List Char :=
  List.replicate count '0'

/-- The exponent of a number in scientific form: always signed, never padded. -/
def exponentText (exponent : Int) : List Char :=
  match exponent with
  | .ofNat up => 'e' :: '+' :: digitsOfNat up
  | .negSucc down => 'e' :: '-' :: digitsOfNat (down + 1)

/-- Digits with a point behind the first one, unless it is the only one. -/
def pointedDigits : List Char → List Char
  | first :: second :: rest => first :: '.' :: second :: rest
  | digits => digits

/-- Digits in plain form, where the leading one has the given exponent. -/
def plainDigits (digits : List Char) (exponent magnitude : Int) : List Char :=
  match exponent, magnitude with
  -- A whole number still shows a fraction.
  | .ofNat up, _ => digits ++ zeroDigits up ++ ['.', '0']
  -- The point falls among the digits.
  | .negSucc _, .ofNat lead => digits.take (lead + 1) ++ '.' :: digits.drop (lead + 1)
  -- The point falls before the first digit.
  | .negSucc _, .negSucc gap => '0' :: '.' :: zeroDigits gap ++ digits

/--
The text of a decimal.

Magnitudes from -5 to 15 are written in plain form, always with a fraction; all others in
scientific form.
-/
def Decimal.chars (value : Decimal) : List Char :=
  let sign := if value.negative then ['-'] else []
  let digits := digitsOfNat value.digits
  let magnitude := value.magnitude
  if -5 ≤ magnitude ∧ magnitude ≤ 15 then sign ++ plainDigits digits value.exponent magnitude
  else sign ++ pointedDigits digits ++ exponentText magnitude

/-- The text of a whole number. -/
def integerChars : Int → List Char
  | .ofNat value => digitsOfNat value
  | .negSucc value => '-' :: digitsOfNat (value + 1)

namespace Json

/-- The hexadecimal digit of a number below sixteen, in small letters. -/
def hexDigit (value : Nat) : Char :=
  Nat.digitChar value

/-- A character inside a JSON string, escaped where it has to be. -/
def escapedChar (c : Char) : List Char :=
  match c with
  | '"' => ['\\', '"']
  | '\\' => ['\\', '\\']
  | '\x08' => ['\\', 'b']
  | '\x0c' => ['\\', 'f']
  | '\n' => ['\\', 'n']
  | '\r' => ['\\', 'r']
  | '\t' => ['\\', 't']
  | c =>
    -- Of the characters without a letter of their own only controls are escaped.
    if c.toNat < 0x20 then
      ['\\', 'u', '0', '0', hexDigit (c.toNat / 16), hexDigit (c.toNat % 16)]
    else [c]

/-- A JSON string that stands for a text, put before what follows. -/
def writeString (value : String) (rest : List Char) : List Char :=
  '"' :: value.toList.flatMap escapedChar ++ '"' :: rest

mutual

/-- A value on one line, put before what follows. -/
def write : Json → List Char → List Char
  | null, rest => 'n' :: 'u' :: 'l' :: 'l' :: rest
  | bool true, rest => 't' :: 'r' :: 'u' :: 'e' :: rest
  | bool false, rest => 'f' :: 'a' :: 'l' :: 's' :: 'e' :: rest
  | integer value, rest => integerChars value ++ rest
  | decimal value, rest => value.chars ++ rest
  | string value, rest => writeString value rest
  -- No text has this form; any lone half reads back as the same value.
  | unpaired, rest => '"' :: '\\' :: 'u' :: 'd' :: '8' :: '0' :: '0' :: '"' :: rest
  | array [], rest => '[' :: ']' :: rest
  | array (item :: items), rest => '[' :: write item (writeItems items rest)
  | object [], rest => '\x7b' :: '\x7d' :: rest
  | object ((key, value) :: members), rest =>
    '\x7b' :: writeString key (':' :: write value (writeMembers members rest))

/-- The items after the first and the bracket that closes them, put before what follows. -/
def writeItems : List Json → List Char → List Char
  | [], rest => ']' :: rest
  | item :: items, rest => ',' :: write item (writeItems items rest)

/-- The members after the first and the brace that closes them, put before what follows. -/
def writeMembers : List (String × Json) → List Char → List Char
  | [], rest => '\x7d' :: rest
  | (key, value) :: members, rest =>
    ',' :: writeString key (':' :: write value (writeMembers members rest))

end

/-- The text of a value on one line. -/
def compact (value : Json) : String :=
  String.ofList (value.write [])

/-- A line break and the indentation of a level, put before what follows. -/
def newLine (level : Nat) (rest : List Char) : List Char :=
  '\n' :: List.replicate (2 * level) ' ' ++ rest

mutual

/-- A value over several lines at a level of indentation, put before what follows. -/
def writePretty : Nat → Json → List Char → List Char
  | level, array (item :: items), rest =>
    '[' :: newLine (level + 1) (writePretty (level + 1) item (writePrettyItems level items rest))
  | level, object ((key, value) :: members), rest =>
    '\x7b' :: newLine (level + 1) (writeString key
      (':' :: ' ' :: writePretty (level + 1) value (writePrettyMembers level members rest)))
  -- Scalars and empty containers look the same in both forms.
  | _, value, rest => write value rest

/-- The items after the first, one a line, and the bracket that closes them. -/
def writePrettyItems : Nat → List Json → List Char → List Char
  | level, [], rest => newLine level (']' :: rest)
  | level, item :: items, rest =>
    ',' :: newLine (level + 1) (writePretty (level + 1) item (writePrettyItems level items rest))

/-- The members after the first, one a line, and the brace that closes them. -/
def writePrettyMembers : Nat → List (String × Json) → List Char → List Char
  | level, [], rest => newLine level ('\x7d' :: rest)
  | level, (key, value) :: members, rest =>
    ',' :: newLine (level + 1) (writeString key
      (':' :: ' ' :: writePretty (level + 1) value (writePrettyMembers level members rest)))

end

/-- The text of a value over several lines. -/
def pretty (value : Json) : String :=
  String.ofList (value.writePretty 0 [])

end Json

end FilterLang
