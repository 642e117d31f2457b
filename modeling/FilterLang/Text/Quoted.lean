/-! String literals: a text in double quotes, with a backslash before a quote or a backslash. -/

namespace FilterLang

/-- The characters of a text with a backslash put before each quote and each backslash. -/
def escapeQuoted : List Char → List Char
  | [] => []
  -- The two characters that would end or extend an escape get a backslash of their own.
  | c :: cs => if c = '"' ∨ c = '\\' then '\\' :: c :: escapeQuoted cs else c :: escapeQuoted cs

/-- The literal that stands for a text. -/
def quote (value : String) : String :=
  String.ofList ('"' :: escapeQuoted value.toList ++ ['"'])

/-- The characters of a literal's inside: a backslash gives way to the character after it. -/
def unescapeQuoted : List Char → List Char
  | [] => []
  -- A backslash at the very end has nothing to give way to and stands for itself.
  | '\\' :: [] => ['\\']
  | '\\' :: c :: cs => c :: unescapeQuoted cs
  | c :: cs => c :: unescapeQuoted cs

/-- A text without its last character when that is a quote. -/
def dropLastQuote : List Char → List Char
  | [] => []
  -- Only a quote in the last place closes the literal.
  | ['"'] => []
  | c :: cs => c :: dropLastQuote cs

/-- The inside of a literal: what follows an opening quote, up to the closing one if it is there. -/
def insideQuotes : List Char → List Char
  | '"' :: cs => dropLastQuote cs
  -- A text without an opening quote is taken as it is, closing quote included.
  | cs => cs

/-- The text that a literal stands for. -/
def unquote (raw : String) : String :=
  String.ofList (unescapeQuoted (insideQuotes raw.toList))

end FilterLang
