import FilterLang.Text.Blank
import FilterLang.Text.Bytes
import FilterLang.Text.Letters
import FilterLang.Token

/-! Cutting a text into tokens: the longest token at each place that is not white space. -/

namespace FilterLang

/-- Whether a character can begin a word. -/
def startsWord (c : Char) : Bool :=
  isLetter c || c == '_'

/-- Whether a character can continue a word. -/
def continuesWord (c : Char) : Bool :=
  isLetter c || isDigit c || c == '_' || c == '.' || c == '-'

/-- How many characters a number takes after its first: digits, and a point only before a digit. -/
def numberTail (cs : List Char) : Nat :=
  let whole := (cs.takeWhile isDigit).length
  match cs.drop whole with
  -- A point without a digit after it is left to the next token.
  | '.' :: d :: rest =>
    if isDigit d then whole + 2 + (rest.takeWhile isDigit).length else whole
  | _ => whole

/-- How many characters a literal takes after its opening quote, when a quote closes it. -/
def stringTail? : List Char → Option Nat
  | [] => none
  | '"' :: _ => some 1
  | '\\' :: [] => none
  -- A backslash takes the next character with it, so an escaped quote closes nothing.
  | '\\' :: _ :: cs => (stringTail? cs).map (· + 2)
  | _ :: cs => (stringTail? cs).map (· + 1)

/-- A mark that an equals sign may lengthen. -/
def beforeEqual (cs : List Char) (long short : TokenKind) : TokenKind × Nat :=
  match cs with
  | '=' :: _ => (long, 1)
  | _ => (short, 0)

/-- The text of a token: its first character and some of those that follow. -/
def lexemeText (c : Char) (cs : List Char) (more : Nat) : String :=
  String.ofList (c :: cs.take more)

/-- The token that a character other than white space begins, and how many more it takes. -/
def lexeme (c : Char) (cs : List Char) : TokenKind × Nat :=
  match c with
  | '=' => (.equal, 0)
  | '(' => (.openParen, 0)
  | ')' => (.closeParen, 0)
  | ',' => (.comma, 0)
  | '<' => beforeEqual cs .lessEqual .less
  | '>' => beforeEqual cs .greaterEqual .greater
  | '!' => beforeEqual cs .notEqual .illegal
  | '"' =>
    match stringTail? cs with
    | some more => (.string (lexemeText c cs more), more)
    -- Without a closing quote the token runs to the end of the text.
    | none => (.unterminated, cs.length)
  | _ =>
    -- A minus sign belongs to a number only when a digit follows at once.
    if isDigit c || (c == '-' && cs.head?.any isDigit) then
      let more := numberTail cs
      (.number (lexemeText c cs more), more)
    else if startsWord c then
      let more := (cs.takeWhile continuesWord).length
      (.ofWord (c :: cs.take more), more)
    else (.illegal, 0)

/--
The tokens of a text that begins at a byte offset.

The first argument counts the characters that still belong to the token before, so the recursion
follows the characters one by one.
-/
def tokensFrom : Nat → Nat → List Char → List Token
  | _, _, [] => []
  -- This character was counted into the token before.
  | pending + 1, offset, c :: cs => tokensFrom pending (offset + c.utf8Size) cs
  | 0, offset, c :: cs =>
    -- White space only moves the offset.
    if isBlank c then tokensFrom 0 (offset + c.utf8Size) cs
    else
      let (kind, more) := lexeme c cs
      ⟨kind, ⟨offset, offset + byteLength (c :: cs.take more)⟩⟩
        :: tokensFrom more (offset + c.utf8Size) cs

/-- The tokens of a text, with their spans. -/
def tokenize (text : String) : List Token :=
  tokensFrom 0 0 text.toList

end FilterLang
