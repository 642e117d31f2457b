import FilterLang.Span
import FilterLang.Text.Bytes

/-! The concrete tree of a query text: every token is a leaf, and errors are nodes of their own. -/

namespace FilterLang

/-- What a node of the tree stands for. -/
inductive NodeKind where
  | query
  | expression
  | orExpression
  | andExpression
  | notExpression
  | primary
  | comparison
  | aliasCall
  | group
  | field
  | identifier
  | compareOperator
  | inOperator
  | notOp
  | andOp
  | orOp
  | scalarValue
  | string
  | number
  | boolean
  | listLiteral
  | listItem
  | openParen
  | closeParen
  | comma
  /-- Input the grammar has no place for, or a place it has no input for. -/
  | error (expected : Option String)
deriving DecidableEq, Repr, Inhabited

namespace NodeKind

/-- The name a kind is shown by. -/
def name : NodeKind → String
  | query => "Query"
  | expression => "Expression"
  | orExpression => "OrExpression"
  | andExpression => "AndExpression"
  | notExpression => "NotExpression"
  | primary => "Primary"
  | comparison => "Comparison"
  | aliasCall => "MacroCall"
  | group => "Group"
  | field => "Field"
  | identifier => "Identifier"
  | compareOperator => "CompareOperator"
  | inOperator => "InOperator"
  | notOp => "NotOp"
  | andOp => "AndOp"
  | orOp => "OrOp"
  | scalarValue => "ScalarValue"
  | string => "String"
  | number => "Number"
  | boolean => "Boolean"
  | listLiteral => "ListLiteral"
  | listItem => "ListItem"
  | openParen => "LParen"
  | closeParen => "RParen"
  | comma => "Comma"
  | error _ => "Error"

/-- Every kind, an error being one that records nothing expected. -/
def all : List NodeKind :=
  [query, expression, orExpression, andExpression, notExpression, primary, comparison, aliasCall,
    group, field, identifier, compareOperator, inOperator, notOp, andOp, orOp, scalarValue, string,
    number, boolean, listLiteral, listItem, openParen, closeParen, comma, error none]

/-- The kind shown by a name. -/
def ofName? (name : String) : Option NodeKind :=
  all.find? (·.name == name)

/-- Whether a kind marks an error. -/
def isError : NodeKind → Bool
  | error _ => true
  | _ => false

end NodeKind

/-- A node with its span in the text and its children from left to right. -/
inductive Tree where
  | node (kind : NodeKind) (span : Span) (children : List Tree)
deriving Repr, Inhabited

namespace Tree

/-- What the top node stands for. -/
def kind : Tree → NodeKind
  | node kind _ _ => kind

/-- Where the tree stands in the text. -/
def span : Tree → Span
  | node _ span _ => span

/-- The trees directly below the top node. -/
def children : Tree → List Tree
  | node _ _ children => children

/-- A node without children. -/
def leaf (kind : NodeKind) (span : Span) : Tree :=
  node kind span []

/-- A mark of what was expected at a span. -/
def expecting (what : String) (span : Span) : Tree :=
  leaf (.error (some what)) span

/-- A node that spans its children; without any it takes the span given for that case. -/
def covering (kind : NodeKind) (whenBare : Span) : List Tree → Tree
  | [] => node kind whenBare []
  -- Empty error nodes count as well, so they can widen the span.
  | first :: rest =>
    node kind (rest.foldl (fun span tree => span.cover tree.span) first.span) (first :: rest)

/-- Whether a tree has no children. -/
def isLeaf (tree : Tree) : Bool :=
  tree.children.isEmpty

/-- The first direct child of a kind. -/
def child? (tree : Tree) (kind : NodeKind) : Option Tree :=
  tree.children.find? (·.kind == kind)

/-- Whether some direct child is of a kind. -/
def hasChild (tree : Tree) (kind : NodeKind) : Bool :=
  (tree.child? kind).isSome

/-- The characters of the source under a tree; none when its span is no range of the source. -/
def chars (tree : Tree) (source : List Char) : List Char :=
  (sliceBytes tree.span.start tree.span.stop source).getD []

/-- The text of the source under a tree. -/
def text (tree : Tree) (source : List Char) : String :=
  String.ofList (tree.chars source)

end Tree

/-- A node of a larger tree together with its ancestors, nearest first. -/
structure Visit where
  tree : Tree
  ancestors : List Tree
deriving Repr, Inhabited

namespace Visit

/-- The kind of the visited node. -/
def kind (visit : Visit) : NodeKind :=
  visit.tree.kind

/-- The span of the visited node. -/
def span (visit : Visit) : Span :=
  visit.tree.span

/-- The visited node's parent with its own ancestors. -/
def parent? (visit : Visit) : Option Visit :=
  match visit.ancestors with
  | [] => none
  | parent :: above => some ⟨parent, above⟩

/-- The nearest ancestor of a kind. -/
def ancestor? (visit : Visit) (kind : NodeKind) : Option Tree :=
  visit.ancestors.find? (·.kind == kind)

/-- Whether the visited node's parent is of a kind. -/
def isUnder (visit : Visit) (kind : NodeKind) : Bool :=
  visit.parent?.any (·.kind == kind)

/-- Whether the visited node ends at an offset. -/
def endsAt (offset : Nat) (visit : Visit) : Bool :=
  visit.span.stop == offset

/-- Whether the visited node has no children and spans at least one byte. -/
def isSolidLeaf (visit : Visit) : Bool :=
  visit.tree.isLeaf && !visit.span.isEmpty

/-- Whether the visited node is a solid leaf that ends at an offset. -/
def isLeafEndingAt (offset : Nat) (visit : Visit) : Bool :=
  visit.isSolidLeaf && visit.endsAt offset

/-- Whether the visited node is a solid leaf that an offset lies in or ends. -/
def isLeafAt (offset : Nat) (visit : Visit) : Bool :=
  visit.isSolidLeaf && visit.span.start < offset && offset ≤ visit.span.stop

end Visit

namespace Tree

mutual

/-- A tree's nodes, each before those below it, when the given ancestors stand above the tree. -/
def visitsUnder : List Tree → Tree → List Visit
  | above, .node kind span children =>
    -- The node itself becomes the nearest ancestor of everything below it.
    ⟨.node kind span children, above⟩ :: visitsOfAll (.node kind span children :: above) children

/-- The nodes of several sibling trees, from left to right. -/
def visitsOfAll : List Tree → List Tree → List Visit
  | _, [] => []
  | above, tree :: trees => visitsUnder above tree ++ visitsOfAll above trees

end

/-- All nodes of a tree, each before those below it and from left to right. -/
def visits (tree : Tree) : List Visit :=
  tree.visitsUnder []

/-- The first error in a tree. -/
def firstError? (tree : Tree) : Option Visit :=
  tree.visits.find? (·.kind.isError)

/-- Whether a tree holds an error, its top node included. -/
def hasError (tree : Tree) : Bool :=
  tree.visits.any (·.kind.isError)

/-- The last solid leaf that ends at an offset. -/
def leafEndingAt? (tree : Tree) (offset : Nat) : Option Visit :=
  -- At most one leaf of a tree that the grammar made ends here; in other trees the last one counts.
  (tree.visits.filter (·.isLeafEndingAt offset)).getLast?

/-- The last solid leaf that an offset lies in or ends. -/
def leafAt? (tree : Tree) (offset : Nat) : Option Visit :=
  (tree.visits.filter (·.isLeafAt offset)).getLast?

/-- All nodes that end at an offset, outermost first. -/
def nodesEndingAt (tree : Tree) (offset : Nat) : List Visit :=
  tree.visits.filter (·.endsAt offset)

end Tree

end FilterLang
