import FilterLang.Span

/-! The words and marks a query text is cut into. -/

namespace FilterLang

/-- What a token is, with its raw text where that varies. -/
inductive TokenKind where
  | andWord
  | orWord
  | notWord
  | inWord
  | containsWord
  | trueWord
  | falseWord
  | identifier (name : String)
  | string (raw : String)
  | number (raw : String)
  | openParen
  | closeParen
  | comma
  | equal
  | notEqual
  | greater
  | less
  | greaterEqual
  | lessEqual
  /-- A string literal that the text ends in before its closing quote. -/
  | unterminated
  /-- A character that begins no token. -/
  | illegal
deriving DecidableEq, Repr, Inhabited

/-- One token and where it stands in the text. -/
structure Token where
  kind : TokenKind
  span : Span
deriving DecidableEq, Repr, Inhabited

namespace TokenKind

/-- The spelling of a comparison operator, for the kinds that are one. -/
def comparisonSymbol? : TokenKind → Option String
  | equal => some "="
  | notEqual => some "!="
  | greater => some ">"
  | less => some "<"
  | greaterEqual => some ">="
  | lessEqual => some "<="
  | containsWord => some "CONTAINS"
  | _ => none

/-- The raw text of the kinds that keep it. -/
def raw? : TokenKind → Option String
  | identifier name => some name
  | string raw => some raw
  | number raw => some raw
  | _ => none

/-- The kind of a word: a keyword in any capitals, else an identifier. -/
def ofWord (word : List Char) : TokenKind :=
  -- Keywords are ASCII, so making ASCII letters small is enough to compare.
  match String.ofList (word.map Char.toLower) with
  | "and" => andWord
  | "or" => orWord
  | "not" => notWord
  | "in" => inWord
  | "contains" => containsWord
  | "true" => trueWord
  | "false" => falseWord
  | _ => identifier (String.ofList word)

end TokenKind

end FilterLang
