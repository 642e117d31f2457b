import FilterLang.Grammar
import FilterLang.Language
import FilterLang.Text.Blank

/-! Where in a query the cursor stands. -/

namespace FilterLang

/-- The place of a cursor, with the field it is about or the text typed so far. -/
inductive Context where
  /-- Behind a parenthesis or a comma of a list of values. -/
  | inListValueStart (field : Option String)
  /-- Where a clause may begin. -/
  | clauseStart
  /-- Behind a negation that has no operand yet. -/
  | afterNot
  /-- Behind the name of a declared field. -/
  | afterField (field : String)
  /-- In a name where a clause may begin. -/
  | partialClauseStart (typed : String)
  /-- In a name behind a negation. -/
  | partialAfterNot (typed : String)
  /-- Behind a membership operator that has no list yet. -/
  | afterInOperator (field : Option String)
  /-- Behind a comparison operator that has no value yet. -/
  | afterCompareOperator (field : Option String)
  /-- Behind a complete clause. -/
  | clauseBoundary
  /-- Anywhere else. -/
  | fallback
deriving DecidableEq, Repr, Inhabited

namespace Context

/-- The field a place is about. -/
def field? : Context → Option String
  | afterField field => some field
  | inListValueStart field => field
  | afterInOperator field => field
  | afterCompareOperator field => field
  | _ => none

/-- Whether values of a field are wanted at a place. -/
def wantsValues : Context → Bool
  | inListValueStart _ => true
  | afterCompareOperator _ => true
  | _ => false

end Context

namespace Tree

/-- Whether a comparison has an operator. -/
def hasOperator (comparison : Tree) : Bool :=
  comparison.hasChild .compareOperator || comparison.hasChild .inOperator

/-- The field name of a comparison. -/
def fieldName? (comparison : Tree) (source : List Char) : Option String := do
  let field ← comparison.child? .field
  let name ← field.child? .identifier
  return name.text source

/-- Whether the first thing below a primary expression is one that completes a clause. -/
def completesNegation (primary : Tree) : Bool :=
  match primary.children with
  | [] => false
  | first :: _ =>
    match first.kind with
    | .comparison => first.hasOperator
    | .group => true
    | .aliasCall => true
    | _ => false

/-- Whether a tree is a clause that nothing is missing from. -/
def isCompleteClause (tree : Tree) : Bool :=
  match tree.kind with
  | .comparison => !tree.hasError && tree.hasOperator
  | .group => !tree.hasError
  -- A negated name is no complete clause, since an operator may still follow.
  | .notExpression => !tree.hasError && (tree.child? .primary).any completesNegation
  | _ => false

end Tree

namespace Visit

/-- The name of a field, for the leaf that holds it. -/
def fieldName? (visit : Visit) (source : List Char) : Option String :=
  if visit.kind == .identifier && visit.isUnder .field then some (visit.tree.text source) else none

/-- Behind a parenthesis or a comma of a list of values. -/
def listValueStart? (visit : Visit) (source : List Char) : Option Context :=
  -- The list has to belong to a membership comparison.
  match visit.ancestors with
  | list :: comparison :: _ =>
    if (visit.kind == .openParen || visit.kind == .comma) && list.kind == .listLiteral &&
        comparison.kind == .comparison && comparison.hasChild .inOperator then
      some (.inListValueStart (comparison.fieldName? source))
    else none
  | _ => none

/-- Whether a clause may begin behind a leaf. -/
def opensClause (visit : Visit) : Bool :=
  visit.kind == .andOp || visit.kind == .orOp || (visit.kind == .openParen && visit.isUnder .group)

/-- Whether a negation already has an operand behind it. -/
def hasOperand (visit : Visit) : Bool :=
  -- An operand that is empty or stands before the negation does not count.
  visit.parent?.any fun parent =>
    parent.tree.children.any fun child =>
      (child.kind == .notOp || child.kind == .primary) &&
        visit.span.stop ≤ child.span.start && !child.span.isEmpty

/-- Behind a negation without an operand. -/
def afterNot? (visit : Visit) : Option Context :=
  if visit.kind == .notOp && !visit.hasOperand then some .afterNot else none

/-- Behind the name of a declared field. -/
def afterField? (visit : Visit) (language : Language) (source : List Char) : Option Context := do
  let name ← visit.fieldName? source
  if (language.field? name).isSome then some (.afterField name) else none

/-- Behind a name and the first word of NOT IN, which the grammar leaves over as it stands alone. -/
def pendingNotIn? (visit : Visit) (tree : Tree) (language : Language) (source : List Char) :
    Option Context :=
  if visit.kind.isError && sameLetters (visit.tree.chars source) "not".toList then do
    -- The name is looked for in front of the word, white space passed over.
    let front := (takeBytes visit.span.start source).getD []
    let leaf ← tree.leafEndingAt? (byteLength (trimEnd front))
    let name ← leaf.fieldName? source
    let comparison ← leaf.ancestors[1]?
    let field ← language.field? name
    if !comparison.hasOperator && (language.operatorsFor field).contains "NOT IN" then
      some (.afterField name)
    else none
  else none

/-- In a name that is being typed where a clause may begin, the text of it up to the cursor. -/
def partialClause? (visit : Visit) (source : List Char) (cursor : Nat) : Option Context := do
  let _ ← visit.fieldName? source
  let comparison ← visit.ancestors[1]?
  let primary ← visit.ancestors[2]?
  if comparison.kind == .comparison && primary.kind == .primary && !comparison.hasOperator then
    let typed := String.ofList ((sliceBytes visit.span.start cursor source).getD [])
    -- The nearest expression that a negation could stand in decides.
    let above : Visit := ⟨comparison, visit.ancestors.drop 2⟩
    if (above.ancestor? .notExpression).any (·.hasChild .notOp) then some (.partialAfterNot typed)
    else some (.partialClauseStart typed)
  else none

/-- Behind an operator whose right side is missing. -/
def afterOperator? (visit : Visit) (source : List Char) : Option Context := do
  let comparison ← visit.ancestors.head?
  if comparison.kind == .comparison then
    if visit.kind == .inOperator && !comparison.hasChild .listLiteral then
      some (.afterInOperator (comparison.fieldName? source))
    else if visit.kind == .compareOperator && !comparison.hasChild .scalarValue then
      some (.afterCompareOperator (comparison.fieldName? source))
    else none
  else none

end Visit

/-- The length of the text before a cursor without the white space at its end. -/
def solidLength (source : List Char) (cursor : Nat) : Nat :=
  byteLength (trimEnd ((takeBytes cursor source).getD []))

/-- The place of a cursor in a tree of a source; inside a character it counts as before it. -/
def classifyIn (language : Language) (tree : Tree) (source : List Char) (cursor : Nat) : Context :=
  -- All offsets from here on are boundaries of characters.
  let cursor := floorBoundary cursor source
  let solid := solidLength source cursor
  let before := tree.leafEndingAt? solid
  let boundary := (tree.nodesEndingAt solid).any (·.tree.isCompleteClause)
  let opens := solid = 0 || before.any Visit.opensClause
  -- The rules in order; the first that applies decides.
  (before.bind (·.listValueStart? source)
    <|> (if opens then some Context.clauseStart else none)
    <|> before.bind Visit.afterNot?
    <|> before.bind (·.afterField? language source)
    <|> before.bind (·.pendingNotIn? tree language source)
    <|> (tree.leafAt? cursor).bind (·.partialClause? source cursor)
    <|> before.bind (·.afterOperator? source)
    <|> (if boundary then some Context.clauseBoundary else none)).getD .fallback

/--
The place of a cursor in a query text: the first rule that applies decides.

The rules look at the tree only: at the last leaf before the cursor, white space passed over, and at
the leaf under the cursor.
-/
def classify (language : Language) (text : String) (cursor : Nat) : Context :=
  classifyIn language (parse text) text.toList cursor

end FilterLang
