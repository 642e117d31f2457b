/-! White space as Unicode has it, and cutting text at it. -/

namespace FilterLang

/-- The characters with the Unicode property White_Space. -/
def isBlank (c : Char) : Bool :=
  -- Ranges first, then the single code points in ascending order.
  let code := c.toNat
  (9 ≤ code && code ≤ 13) || code == 0x20 || code == 0x85 || code == 0xA0 || code == 0x1680 ||
    (0x2000 ≤ code && code ≤ 0x200A) || code == 0x2028 || code == 0x2029 || code == 0x202F ||
    code == 0x205F || code == 0x3000

/-- The text without its leading white space. -/
def trimStart (cs : List Char) : List Char :=
  cs.dropWhile isBlank

/-- The text without its trailing white space. -/
def trimEnd : List Char → List Char
  | [] => []
  | c :: cs =>
    match trimEnd cs with
    -- Only white space follows, so this character decides whether anything is kept.
    | [] => if isBlank c then [] else [c]
    | kept => c :: kept

/-- The text without the white space around it. -/
def trim (cs : List Char) : List Char :=
  trimStart (trimEnd cs)

/-- Whether a text holds nothing but white space. -/
def allBlank (text : String) : Bool :=
  text.toList.all isBlank

/-- The number of words that begin in a text, given whether it continues one. -/
def wordsFrom : Bool → List Char → Nat
  | _, [] => 0
  | inside, c :: cs =>
    -- White space ends a word, and only the first character of a word is counted.
    if isBlank c then wordsFrom false cs
    else if inside then wordsFrom true cs
    else wordsFrom true cs + 1

/-- The number of words that white space divides a text into. -/
def wordCount (cs : List Char) : Nat :=
  wordsFrom false cs

end FilterLang
