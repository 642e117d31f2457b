import FilterLang.Number.Binary64
import FilterLang.Span

/-! The abstract tree of a query and the envelope that carries it. -/

namespace FilterLang

/-- A connective of two expressions. -/
inductive Connective where
  | and
  | or
deriving DecidableEq, Repr, Inhabited

/-- The word a connective is written as. -/
def Connective.name : Connective → String
  | .and => "AND"
  | .or => "OR"

/-- A field as a query names it. -/
structure FieldRef where
  name : String
  span : Option Span
deriving DecidableEq, Repr, Inhabited

/-- A literal value; queries only write flat lists, but other sources may nest them. -/
inductive Value where
  | string (value : String) (span : Option Span)
  | number (value : Binary64) (raw : String) (span : Option Span)
  | boolean (value : Bool) (span : Option Span)
  | list (items : List Value) (span : Option Span)
deriving Repr, Inhabited

/-- An expression of a query. -/
inductive Node where
  | comparison (field : FieldRef) (operator : String) (value : Value) (span : Option Span)
  | logical (operator : Connective) (left right : Node) (span : Option Span)
  | negation (expression : Node) (span : Option Span)
deriving Repr, Inhabited

namespace Value

/-- Where a value stands in the query. -/
def span : Value → Option Span
  | string _ span => span
  | number _ _ span => span
  | boolean _ span => span
  | list _ span => span

/-- The word for a value's type in reports. -/
def typeName : Value → String
  | string _ _ => "string"
  | number _ _ _ => "number"
  | boolean _ _ => "boolean"
  | list _ _ => "list"

mutual

/-- A value with one span put at every place that has one. -/
def relocate (span : Option Span) : Value → Value
  | string value _ => string value span
  | number value raw _ => number value raw span
  | boolean value _ => boolean value span
  -- The items of a list move with it.
  | list items _ => list (relocateAll span items) span

/-- Several values with one span put at every place that has one. -/
def relocateAll (span : Option Span) : List Value → List Value
  | [] => []
  | item :: items => relocate span item :: relocateAll span items

end

mutual

/-- Whether two values are the same, spans included. -/
def same : Value → Value → Bool
  | string left at₁, string right at₂ => left == right && at₁ == at₂
  | number left raw₁ at₁, number right raw₂ at₂ => left == right && raw₁ == raw₂ && at₁ == at₂
  | boolean left at₁, boolean right at₂ => left == right && at₁ == at₂
  | list left at₁, list right at₂ => sameAll left right && at₁ == at₂
  | _, _ => false

/-- Whether two lists of values are the same, item by item. -/
def sameAll : List Value → List Value → Bool
  | [], [] => true
  | left :: lefts, right :: rights => same left right && sameAll lefts rights
  | _, _ => false

end

end Value

namespace Node

/-- Where an expression stands in the query. -/
def span : Node → Option Span
  | comparison _ _ _ span => span
  | logical _ _ _ span => span
  | negation _ span => span

/-- An expression with one span put at every place that has one. -/
def relocate (span : Option Span) : Node → Node
  | comparison field operator value _ =>
    -- The field reference has a place of its own.
    comparison ⟨field.name, span⟩ operator (value.relocate span) span
  | logical operator left right _ =>
    logical operator (left.relocate span) (right.relocate span) span
  | negation expression _ => negation (expression.relocate span) span

/-- An expression without its spans. -/
def eraseSpans (node : Node) : Node :=
  node.relocate none

/-- Whether two expressions are the same, spans included. -/
def same : Node → Node → Bool
  | comparison field₁ op₁ value₁ at₁, comparison field₂ op₂ value₂ at₂ =>
    field₁ == field₂ && op₁ == op₂ && value₁.same value₂ && at₁ == at₂
  | logical op₁ left₁ right₁ at₁, logical op₂ left₂ right₂ at₂ =>
    op₁ == op₂ && left₁.same left₂ && right₁.same right₂ && at₁ == at₂
  | negation inner₁ at₁, negation inner₂ at₂ => inner₁.same inner₂ && at₁ == at₂
  | _, _ => false

end Node

/-- What a walk over an expression meets. -/
inductive Item where
  | node (expression : Node)
  | value (literal : Value)
deriving Repr, Inhabited

/-- Where an item stands in the query. -/
def Item.span : Item → Option Span
  | .node expression => expression.span
  | .value literal => literal.span

mutual

/-- A value at a depth, and the items of a list one level below it. -/
def Value.walk : Nat → Value → List (Nat × Item)
  -- Only a list holds anything further.
  | depth, .list items span => (depth, .value (.list items span)) :: Value.walkAll (depth + 1) items
  | depth, value => [(depth, .value value)]

/-- Several values at one depth. -/
def Value.walkAll : Nat → List Value → List (Nat × Item)
  | _, [] => []
  | depth, item :: items => Value.walk depth item ++ Value.walkAll depth items

end

/-- Everything in an expression at a depth, each item before what it holds. -/
def Node.walk : Nat → Node → List (Nat × Item)
  | depth, .comparison field operator value span =>
    (depth, .node (.comparison field operator value span)) :: value.walk (depth + 1)
  | depth, .logical operator left right span =>
    (depth, .node (.logical operator left right span))
      :: (left.walk (depth + 1) ++ right.walk (depth + 1))
  | depth, .negation expression span =>
    (depth, .node (.negation expression span)) :: expression.walk (depth + 1)

namespace Node

/-- Everything in an expression, which itself stands at depth one. -/
def items (node : Node) : List (Nat × Item) :=
  node.walk 1

/-- How many expressions and values an expression is made of. -/
def size (node : Node) : Nat :=
  node.items.length

/-- The greatest depth in an expression. -/
def depth (node : Node) : Nat :=
  -- The walk carries the depths, so the greatest of them is enough.
  node.items.foldl (fun deepest item => max deepest item.1) 0

end Node

/-- What the reader of a query noted about its AST. -/
structure Metadata where
  parser : String
  nodeCount : Nat
  maxDepth : Nat
deriving DecidableEq, Repr, Inhabited

/-- A query's AST with what is needed to check it elsewhere. -/
structure Envelope where
  astVersion : String
  grammarVersion : String
  rawQuery : String
  root : Node
  metadata : Option Metadata
deriving Repr, Inhabited

/-- Whether two envelopes are the same in every part. -/
def Envelope.same (left right : Envelope) : Bool :=
  left.astVersion == right.astVersion && left.grammarVersion == right.grammarVersion &&
    left.rawQuery == right.rawQuery && left.root.same right.root && left.metadata == right.metadata

/-- The version of the AST that this library builds. -/
def astVersion : String := "1"

end FilterLang
