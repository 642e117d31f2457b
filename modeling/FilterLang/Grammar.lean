import FilterLang.Token.Lexer
import FilterLang.Tree

/-! The grammar of queries. -/

namespace FilterLang

/-- How many groups may be open at once. -/
def maxNesting : Nat := 128

/-- A rule of the grammar: the tree it reads off the tokens, and the tokens it leaves. -/
abbrev Rule := List Token → Tree × List Token

/-- Where the next token begins, or the end of the text when there is none. -/
def nextOffset (textEnd : Nat) : List Token → Nat
  | [] => textEnd
  | token :: _ => token.span.start

/-- The empty mark of something expected before the next token. -/
def missing (textEnd : Nat) (what : String) (tokens : List Token) : Tree :=
  .expecting what (.empty (nextOffset textEnd tokens))

/-- An inner node that spans the children read so far. -/
def inner (kind : NodeKind) (children : List Tree) : Tree :=
  .covering kind (.empty 0) children

/-- The closing parenthesis, or the mark that it is missing. -/
def closing (textEnd : Nat) : Rule
  | ⟨.closeParen, span⟩ :: rest => (.leaf .closeParen span, rest)
  -- The token that stands here instead is left for the rules further up.
  | tokens => (missing textEnd "')'" tokens, tokens)

/-- The kind of literal that a token is, if it is one. -/
def literalKind? : TokenKind → Option NodeKind
  | .string _ => some .string
  | .number _ => some .number
  | .trueWord => some .boolean
  | .falseWord => some .boolean
  | _ => none

/-- A scalar value made of one literal token. -/
def scalarOf (kind : NodeKind) (span : Span) : Tree :=
  inner .scalarValue [.leaf kind span]

/-- The scalar after a comparison operator, or the mark that it is missing. -/
def scalar (textEnd : Nat) : Rule
  | [] => (missing textEnd "value" [], [])
  | token :: rest =>
    match literalKind? token.kind with
    | some kind => (scalarOf kind token.span, rest)
    -- Anything but a literal is left where it is.
    | none => (missing textEnd "value" (token :: rest), token :: rest)

/-- The items of a list with the commas between them; an item may be missing beside a comma. -/
def listItems (textEnd : Nat) : List Token → List Tree × List Token
  | [] => ([missing textEnd "list item" []], [])
  | token :: rest =>
    match literalKind? token.kind with
    | some kind =>
      let item := inner .listItem [scalarOf kind token.span]
      -- A comma always asks for one more item, even right before the closing parenthesis.
      match rest with
      | ⟨.comma, span⟩ :: rest =>
        let (items, rest) := listItems textEnd rest
        (item :: .leaf .comma span :: items, rest)
      | rest => ([item], rest)
    | none =>
      let absent := missing textEnd "list item" (token :: rest)
      -- A comma in the place of an item marks the item missing and still divides the list.
      if token.kind = .comma then
        let (items, rest) := listItems textEnd rest
        (absent :: .leaf .comma token.span :: items, rest)
      else ([absent], token :: rest)

/-- A list literal whose opening parenthesis has been read. -/
def listLiteral (textEnd : Nat) (opening : Span) (tokens : List Token) : Tree × List Token :=
  let (items, rest) :=
    match tokens with
    -- An empty list has no items, missing ones included.
    | ⟨.closeParen, _⟩ :: _ => ([], tokens)
    | _ => listItems textEnd tokens
  let (close, rest) := closing textEnd rest
  (inner .listLiteral (.leaf .openParen opening :: items ++ [close]), rest)

/-- The list after a membership operator, or the mark that its parenthesis is missing. -/
def membership (textEnd : Nat) : Rule
  | ⟨.openParen, span⟩ :: rest => listLiteral textEnd span rest
  | tokens => (missing textEnd "'('" tokens, tokens)

/-- The operator and value that follow a field name, if any do. -/
def comparisonTail (textEnd : Nat) : List Token → List Tree × List Token
  | ⟨.inWord, span⟩ :: rest =>
    let (list, rest) := membership textEnd rest
    ([.leaf .inOperator span, list], rest)
  | ⟨.notWord, first⟩ :: ⟨.inWord, second⟩ :: rest =>
    let (list, rest) := membership textEnd rest
    -- Both words make one operator, with whatever stands between them.
    ([.leaf .inOperator ⟨first.start, second.stop⟩, list], rest)
  | [] => ([], [])
  | token :: rest =>
    if token.kind.comparisonSymbol?.isSome then
      let (value, rest) := scalar textEnd rest
      ([.leaf .compareOperator token.span, value], rest)
    -- Without an operator the name stands alone.
    else ([], token :: rest)

/-- A comparison whose field name has been read. -/
def comparison (textEnd : Nat) (name : Span) (tokens : List Token) : Tree × List Token :=
  let field := inner .field [.leaf .identifier name]
  let (tail, rest) := comparisonTail textEnd tokens
  (inner .comparison (field :: tail), rest)

/-- A call of an alias whose name and opening parenthesis have been read. -/
def aliasCall (textEnd : Nat) (name opening : Span) (tokens : List Token) : Tree × List Token :=
  let (close, rest) := closing textEnd tokens
  (inner .aliasCall [.leaf .identifier name, .leaf .openParen opening, close], rest)

/-- A group whose opening parenthesis has been read; without a rule for its inside, too deep. -/
def group (textEnd : Nat) (inside : Option Rule) (opening : Span) (tokens : List Token) :
    Tree × List Token :=
  match inside with
  | none =>
    -- The tokens behind the parenthesis are left to the rules further up.
    (inner .group [.leaf .openParen opening, missing textEnd "shallower nesting" tokens], tokens)
  | some expression =>
    let (body, rest) := expression tokens
    let (close, rest) := closing textEnd rest
    (inner .group [.leaf .openParen opening, body, close], rest)

/-- What stands below a primary expression. -/
def primaryBody (textEnd : Nat) (inside : Option Rule) : Rule
  | ⟨.openParen, span⟩ :: rest => group textEnd inside span rest
  | ⟨.identifier _, name⟩ :: ⟨.openParen, opening⟩ :: rest => aliasCall textEnd name opening rest
  | ⟨.identifier _, name⟩ :: rest => comparison textEnd name rest
  | tokens => (missing textEnd "expression" tokens, tokens)

/-- A group, an alias call or a comparison. -/
def primary (textEnd : Nat) (inside : Option Rule) : Rule := fun tokens =>
  let (body, rest) := primaryBody textEnd inside tokens
  (inner .primary [body], rest)

/-- A primary expression behind any number of negations. -/
def notExpression (textEnd : Nat) (inside : Option Rule) : Rule := fun tokens =>
  -- All negations stand side by side before the one operand.
  let negations := tokens.takeWhile (·.kind == .notWord)
  let (operand, rest) := primary textEnd inside (tokens.dropWhile (·.kind == .notWord))
  (inner .notExpression (negations.map (fun token => .leaf .notOp token.span) ++ [operand]), rest)

/--
The operators and operands that continue a chain.

Each round takes at least the operator, so the number of tokens bounds the rounds.
-/
def chainTail (operator : TokenKind) (mark : NodeKind) (operand : Rule) :
    Nat → List Token → List Tree × List Token
  | 0, tokens => ([], tokens)
  | _ + 1, [] => ([], [])
  | rounds + 1, token :: rest =>
    -- The operator is taken even when its operand turns out to be missing.
    if token.kind = operator then
      let (next, rest) := operand rest
      let (more, rest) := chainTail operator mark operand rounds rest
      (.leaf mark token.span :: next :: more, rest)
    else ([], token :: rest)

/-- Operands joined by one operator, under one node. -/
def chain (kind : NodeKind) (operator : TokenKind) (mark : NodeKind) (operand : Rule) : Rule :=
  fun tokens =>
    let (first, rest) := operand tokens
    -- The tokens that are left bound how often the operator can still come.
    let (more, rest) := chainTail operator mark operand rest.length rest
    (inner kind (first :: more), rest)

/-- Negations joined by AND. -/
def andExpression (textEnd : Nat) (inside : Option Rule) : Rule :=
  chain .andExpression .andWord .andOp (notExpression textEnd inside)

/-- Conjunctions joined by OR. -/
def orExpression (textEnd : Nat) (inside : Option Rule) : Rule :=
  chain .orExpression .orWord .orOp (andExpression textEnd inside)

/-- A whole expression, with a rule for the inside of its groups unless they are too deep. -/
def expressionOver (textEnd : Nat) (inside : Option Rule) : Rule := fun tokens =>
  let (body, rest) := orExpression textEnd inside tokens
  (inner .expression [body], rest)

/-- An expression in which the given number of groups may still be opened one inside another. -/
def expression (textEnd : Nat) : Nat → Rule
  -- At the last level a group may be opened but not filled.
  | 0 => expressionOver textEnd none
  | levels + 1 => expressionOver textEnd (some (expression textEnd levels))

/-- The mark over all tokens that no rule has read. -/
def leftOver : List Token → List Tree
  | [] => []
  | first :: rest =>
    [.expecting "end of input" ⟨first.span.start, (rest.getLastD first).span.stop⟩]

/--
The tree of a token sequence that stands in a text of the given length.

```
query      := or
or         := and (OR and)*
and        := not (AND not)*
not        := NOT* primary
primary    := '(' or ')' | name '(' ')' | comparison
comparison := name | name operator scalar | name (IN | NOT IN) '(' (scalar (',' scalar)*)? ')'
```

Reading never fails: where a token is missing, an empty error node stands in its place, and tokens
left over at the end are gathered under one.
-/
def treeOf (textEnd : Nat) (tokens : List Token) : Tree :=
  let (body, rest) := expression textEnd maxNesting tokens
  .node .query ⟨0, textEnd⟩ (body :: leftOver rest)

/-- The tree of a query text. -/
def parse (text : String) : Tree :=
  treeOf (byteSize text) (tokenize text)

/-- A way to read texts into trees, under a name that envelopes record. -/
structure Grammar where
  /-- The name of the reader. -/
  name : String
  /-- The tree of a text. -/
  parse : String → Tree

/-- The name that this library's reader goes by. -/
def readerName : String := "bql-rd"

/-- The version of the grammar that envelopes record. -/
def grammarVersion : String := "bql-1"

/-- The grammar of this library. -/
def Grammar.standard : Grammar :=
  ⟨readerName, FilterLang.parse⟩

end FilterLang
