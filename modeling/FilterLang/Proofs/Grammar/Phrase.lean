import FilterLang.Ast
import FilterLang.Proofs.Tree.Subtrees

/-! Derivations of the grammar of queries. -/

namespace FilterLang

/-- The operators that compare a field with one scalar. -/
inductive Comparator where
  | equal
  | notEqual
  | greater
  | greaterEqual
  | less
  | lessEqual
  | contains
deriving DecidableEq, Repr

namespace Comparator

/-- The token that an operator is. -/
def kind : Comparator → TokenKind
  | equal => .equal
  | notEqual => .notEqual
  | greater => .greater
  | greaterEqual => .greaterEqual
  | less => .less
  | lessEqual => .lessEqual
  | contains => .containsWord

/-- The one spelling that an operator has in an AST. -/
def symbol : Comparator → String
  | equal => "="
  | notEqual => "!="
  | greater => ">"
  | greaterEqual => ">="
  | less => "<"
  | lessEqual => "<="
  | contains => "CONTAINS"

/-- Every token that is a comparison operator is one of the seven. -/
theorem exists_of_symbol {kind : TokenKind} (compares : kind.comparisonSymbol?.isSome) :
    ∃ comparator : Comparator, comparator.kind = kind := by
  -- Each kind with a symbol is a comparator's.
  cases kind with
  | equal => exact ⟨equal, rfl⟩
  | notEqual => exact ⟨notEqual, rfl⟩
  | greater => exact ⟨greater, rfl⟩
  | greaterEqual => exact ⟨greaterEqual, rfl⟩
  | less => exact ⟨less, rfl⟩
  | lessEqual => exact ⟨lessEqual, rfl⟩
  | containsWord => exact ⟨contains, rfl⟩
  | _ => simp [TokenKind.comparisonSymbol?] at compares

end Comparator

/-- The literals that a scalar is made of. -/
inductive Literal where
  | string (raw : String)
  | number (raw : String)
  | boolean (value : Bool)
deriving DecidableEq, Repr

namespace Literal

/-- The token that a literal is. -/
def kind : Literal → TokenKind
  | string raw => .string raw
  | number raw => .number raw
  | boolean true => .trueWord
  | boolean false => .falseWord

/-- The leaf that stands for a literal. -/
def nodeKind : Literal → NodeKind
  | string _ => .string
  | number _ => .number
  | boolean _ => .boolean

/-- A literal's token is read as the literal's leaf. -/
@[simp] theorem literalKind?_kind (literal : Literal) :
    literalKind? literal.kind = some literal.nodeKind := by
  -- The two truth values are words of their own.
  cases literal with
  | boolean value => cases value <;> rfl
  | _ => rfl

/-- Every token that is read as a leaf for a value is a literal. -/
theorem exists_of_literalKind {kind : TokenKind} {leaf : NodeKind}
    (reads : literalKind? kind = some leaf) :
    ∃ literal : Literal, literal.kind = kind ∧ literal.nodeKind = leaf := by
  -- Each kind that is read as a literal is a literal's.
  cases kind with
  | string raw => exact ⟨string raw, rfl, Option.some.inj reads⟩
  | number raw => exact ⟨number raw, rfl, Option.some.inj reads⟩
  | trueWord => exact ⟨boolean true, rfl, Option.some.inj reads⟩
  | falseWord => exact ⟨boolean false, rfl, Option.some.inj reads⟩
  | _ => simp [literalKind?] at reads

end Literal

/-- A literal at its place in the text. -/
structure Scalar where
  literal : Literal
  span : Span
deriving DecidableEq, Repr

namespace Scalar

/-- The token of a scalar. -/
def token (scalar : Scalar) : Token :=
  ⟨scalar.literal.kind, scalar.span⟩

/-- The tree of a scalar. -/
def tree (scalar : Scalar) : Tree :=
  scalarOf scalar.literal.nodeKind scalar.span

/-- The tree of a scalar that is an item of a list. -/
def itemTree (scalar : Scalar) : Tree :=
  inner .listItem [scalar.tree]

end Scalar

/-- The items of a list that has at least one, with the commas between them. -/
inductive Items where
  | last (scalar : Scalar)
  | more (scalar : Scalar) (comma : Span) (rest : Items)
deriving DecidableEq, Repr

namespace Items

/-- The tokens of the items and their commas. -/
def tokens : Items → List Token
  | last scalar => [scalar.token]
  | more scalar comma rest => scalar.token :: ⟨.comma, comma⟩ :: rest.tokens

/-- The trees of the items and their commas. -/
def trees : Items → List Tree
  | last scalar => [scalar.itemTree]
  | more scalar comma rest => scalar.itemTree :: .leaf .comma comma :: rest.trees

/-- The items without their commas. -/
def scalars : Items → List Scalar
  | last scalar => [scalar]
  | more scalar _ rest => scalar :: rest.scalars

end Items

/-- The items of a list, of which there may be none. -/
abbrev Listing := Option Items

namespace Listing

/-- The tokens between the parentheses of a list. -/
def tokens (listing : Listing) : List Token :=
  (listing.map Items.tokens).getD []

/-- The trees between the parentheses of a list. -/
def trees (listing : Listing) : List Tree :=
  (listing.map Items.trees).getD []

/-- The scalars of a list. -/
def scalars (listing : Listing) : List Scalar :=
  (listing.map Items.scalars).getD []

end Listing

/-- The operators that look a field up in a list. -/
inductive Membership where
  | isIn (word : Span)
  | notIn (negation word : Span)
deriving DecidableEq, Repr

namespace Membership

/-- The tokens of a membership operator. -/
def tokens : Membership → List Token
  | isIn word => [⟨.inWord, word⟩]
  | notIn negation word => [⟨.notWord, negation⟩, ⟨.inWord, word⟩]

/-- The range from the first word of a membership operator to its last. -/
def span : Membership → Span
  | isIn word => word
  | notIn negation word => ⟨negation.start, word.stop⟩

/-- The one spelling that a membership operator has in an AST. -/
def symbol : Membership → String
  | isIn _ => "IN"
  | notIn _ _ => "NOT IN"

end Membership

/-- What a phrase of the grammar is. -/
inductive Category where
  | primary
  | negation
  | chain (connective : Connective)
deriving DecidableEq, Repr

/-- The node that stands over a phrase. -/
def Category.nodeKind : Category → NodeKind
  | primary => .primary
  | negation => .notExpression
  | chain .and => .andExpression
  | chain .or => .orExpression

namespace Connective

/-- What a connective joins: AND binds tighter than OR. -/
def operand : Connective → Category
  | .and => .negation
  | .or => .chain .and

/-- The token of a connective. -/
def word : Connective → TokenKind
  | .and => .andWord
  | .or => .orWord

/-- The leaf that stands for a connective. -/
def mark : Connective → NodeKind
  | .and => .andOp
  | .or => .orOp

end Connective

/--
A derivation: each form is one production of the grammar.

```
or      := and | or OR and
and     := not | and AND not
not     := primary | NOT not
primary := name | name comparator scalar | name membership '(' items? ')'
         | name '(' ')' | '(' or ')'
items   := scalar | scalar ',' items
```

It keeps the span of each token, so it spells out the tokens it derives and the tree over them.
-/
inductive Phrase : Category → Type where
  | bare (name : String) (span : Span) : Phrase .primary
  | compare (name : String) (span : Span) (comparator : Comparator) (operator : Span)
      (value : Scalar) : Phrase .primary
  | member (name : String) (span : Span) (membership : Membership) (opening : Span)
      (listing : Listing) (closing : Span) : Phrase .primary
  | call (name : String) (span opening closing : Span) : Phrase .primary
  | group (opening : Span) (inside : Phrase (.chain .or)) (closing : Span) : Phrase .primary
  | plain (operand : Phrase .primary) : Phrase .negation
  | negated (word : Span) (operand : Phrase .negation) : Phrase .negation
  | single {connective : Connective} (operand : Phrase connective.operand) :
      Phrase (.chain connective)
  | join {connective : Connective} (left : Phrase (.chain connective)) (word : Span)
      (right : Phrase connective.operand) : Phrase (.chain connective)

/-- A derivation of a whole query. -/
abbrev Query := Phrase (.chain .or)

/-- The tree of a field name. -/
def fieldTree (name : Span) : Tree :=
  inner .field [.leaf .identifier name]

/-- The tree of a list. -/
def listTree (opening : Span) (listing : Listing) (closing : Span) : Tree :=
  inner .listLiteral (.leaf .openParen opening :: listing.trees ++ [.leaf .closeParen closing])

namespace Phrase

/-- The tokens that a phrase derives. -/
def tokens : {category : Category} → Phrase category → List Token
  | _, bare name span => [⟨.identifier name, span⟩]
  | _, compare name span comparator operator value =>
    [⟨.identifier name, span⟩, ⟨comparator.kind, operator⟩, value.token]
  | _, member name span membership opening listing closing =>
    ⟨.identifier name, span⟩ :: membership.tokens ++
      ⟨.openParen, opening⟩ :: listing.tokens ++ [⟨.closeParen, closing⟩]
  | _, call name span opening closing =>
    [⟨.identifier name, span⟩, ⟨.openParen, opening⟩, ⟨.closeParen, closing⟩]
  | _, group opening inside closing =>
    ⟨.openParen, opening⟩ :: inside.tokens ++ [⟨.closeParen, closing⟩]
  | _, plain operand => operand.tokens
  | _, negated word operand => ⟨.notWord, word⟩ :: operand.tokens
  | _, single operand => operand.tokens
  | _, @join connective left word right =>
    left.tokens ++ ⟨connective.word, word⟩ :: right.tokens

/-- The trees that stand side by side under a phrase's node. -/
def parts : {category : Category} → Phrase category → List Tree
  | _, bare _ span => [inner .comparison [fieldTree span]]
  | _, compare _ span _ operator value =>
    [inner .comparison [fieldTree span, .leaf .compareOperator operator, value.tree]]
  | _, member _ span membership opening listing closing =>
    -- The words of a membership operator make one leaf.
    [inner .comparison [fieldTree span, .leaf .inOperator membership.span,
      listTree opening listing closing]]
  | _, call _ span opening closing =>
    [inner .aliasCall [.leaf .identifier span, .leaf .openParen opening, .leaf .closeParen closing]]
  | _, group opening inside closing =>
    [inner .group [.leaf .openParen opening, inner .expression [inner .orExpression inside.parts],
      .leaf .closeParen closing]]
  | _, plain operand => [inner .primary operand.parts]
  -- All negations stand side by side before the operand.
  | _, negated word operand => .leaf .notOp word :: operand.parts
  | _, @single connective operand =>
    [inner connective.operand.nodeKind operand.parts]
  -- However long a chain, its operands and operators are siblings.
  | _, @join connective left word right =>
    left.parts ++ [.leaf connective.mark word, inner connective.operand.nodeKind right.parts]

/-- The tree of a phrase. -/
def tree {category : Category} (phrase : Phrase category) : Tree :=
  inner category.nodeKind phrase.parts

/-- How many groups are open at once where most are. -/
def nesting : {category : Category} → Phrase category → Nat
  | _, group _ inside _ => inside.nesting + 1
  | _, plain operand => operand.nesting
  | _, negated _ operand => operand.nesting
  | _, single operand => operand.nesting
  | _, join left _ right => max left.nesting right.nesting
  -- The parentheses of lists and calls are no groups.
  | _, _ => 0

/-- Every group that is open has a token of its own. -/
theorem nesting_le_length {category : Category} (phrase : Phrase category) :
    phrase.nesting ≤ phrase.tokens.length := by
  -- Induction on the derivation: each level of groups has a parenthesis of its own.
  induction phrase with
  | group opening inside closing ih =>
    simp only [nesting, tokens, List.cons_append, List.length_cons, List.length_append]
    omega
  | plain operand ih => exact ih
  | negated word operand ih =>
    simp only [nesting, tokens, List.length_cons]
    omega
  | single operand ih => exact ih
  | join left word right ihLeft ihRight =>
    simp only [nesting, tokens, List.length_append, List.length_cons]
    omega
  | _ => exact Nat.zero_le _

/-- A query derives a text that is cut into its tokens and opens no more groups than allowed. -/
def Derives (query : Query) (text : String) : Prop :=
  query.tokens = tokenize text ∧ query.nesting ≤ maxNesting

end Phrase

end FilterLang
