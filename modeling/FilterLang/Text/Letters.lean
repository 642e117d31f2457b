/-! Letters compared and changed within ASCII. -/

namespace FilterLang

/-- Whether a character is an ASCII digit. -/
def isDigit (c : Char) : Bool :=
  '0' ≤ c && c ≤ '9'

/-- Whether a character is an ASCII letter. -/
def isLetter (c : Char) : Bool :=
  ('a' ≤ c && c ≤ 'z') || ('A' ≤ c && c ≤ 'Z')

/-- A text with its ASCII capitals made small. -/
def lowerCase (cs : List Char) : List Char :=
  cs.map Char.toLower

/-- A text with its small ASCII letters made capitals. -/
def upperCase (cs : List Char) : List Char :=
  cs.map Char.toUpper

/-- Whether two texts differ at most in the capitals of ASCII letters. -/
def sameLetters (left right : List Char) : Bool :=
  lowerCase left == lowerCase right

end FilterLang
