import FilterLang.Ast
import FilterLang.Grammar
import FilterLang.Language
import FilterLang.Number.Literal
import FilterLang.Text.Quoted
import FilterLang.Tree.Fault

/-! Building the AST of a query from its tree. -/

namespace FilterLang

/-- How a tree differs from what the grammar makes. -/
inductive Malformation where
  | missingChild (parent kind : NodeKind)
  | emptyNode (kind : NodeKind)
  | misplaced (kind parent : NodeKind)
  | invalidNumber (raw : String) (fault : NumberFault)
deriving DecidableEq, Repr

/-- What is said of a tree that the grammar does not make. -/
def Malformation.message : Malformation → String
  | missingChild parent kind => s!"{parent.name} node without {kind.name} child"
  | emptyNode kind => s!"empty {kind.name}"
  | misplaced kind parent => s!"unexpected {kind.name} in {parent.name}"
  | invalidNumber raw fault => s!"invalid number '{raw}': {fault.message}"

/-- Why a query has no AST. -/
inductive BuildError where
  | unreadable (report : Diagnostic)
  | unknownAlias (name : String) (span : Span)
  | aliasCycle (chain : List String) (span : Span)
  | aliasTooDeep (name : String) (limit : Nat) (span : Span)
  | duplicateAlias (name : String)
  | invalidExpansion (name reason : String) (span : Span)
  | invalidShorthand (field : String) (span : Span)
  | numberOutOfRange (raw : String) (span : Span)
  | malformed (cause : Malformation)
deriving DecidableEq, Repr

namespace BuildError

/-- The code that an error is reported under. -/
def code : BuildError → DiagnosticCode
  | unreadable report => report.code
  | unknownAlias _ _ => .unknownAlias
  | aliasCycle _ _ => .aliasCycle
  | aliasTooDeep _ _ _ => .aliasDepthExceeded
  | duplicateAlias _ => .duplicateAlias
  | invalidExpansion _ _ _ => .invalidAliasExpansion
  | invalidShorthand _ _ => .invalidBooleanShorthand
  | numberOutOfRange _ _ => .astBuildFailed
  | malformed _ => .astBuildFailed

/-- What is said of an error. -/
def message : BuildError → String
  | unreadable _ => "Syntax error in query"
  | unknownAlias name _ => s!"Unknown macro alias '{name}'"
  | aliasCycle chain _ => "Macro expansion cycle: " ++ String.intercalate " -> " chain
  | aliasTooDeep name limit _ => s!"Macro '{name}' exceeds the expansion depth limit of {limit}"
  | duplicateAlias name => s!"Macro alias '{name}' is declared more than once"
  | invalidExpansion name reason _ => s!"Macro '{name}' has an invalid expansion: {reason}"
  | invalidShorthand field _ =>
    s!"'{field}' is not a boolean field and needs an operator and a value"
  | numberOutOfRange raw _ => s!"Number literal '{raw}' is out of range"
  | malformed cause => "Failed to build AST: " ++ cause.message

/-- The error with its place moved to a span, where it has one of its own. -/
def relocate (span : Span) : BuildError → BuildError
  | unknownAlias name _ => unknownAlias name span
  | aliasCycle chain _ => aliasCycle chain span
  | aliasTooDeep name limit _ => aliasTooDeep name limit span
  | invalidExpansion name reason _ => invalidExpansion name reason span
  | invalidShorthand field _ => invalidShorthand field span
  | numberOutOfRange raw _ => numberOutOfRange raw span
  -- These three are not about a part of the text that holds the call.
  | unreadable report => unreadable report
  | duplicateAlias name => duplicateAlias name
  | malformed cause => malformed cause

/-- The place of an error, where it has one of its own. -/
def span? : BuildError → Option Span
  | unknownAlias _ span => some span
  | aliasCycle _ span => some span
  | aliasTooDeep _ _ span => some span
  | invalidExpansion _ _ span => some span
  | invalidShorthand _ span => some span
  | numberOutOfRange _ span => some span
  | unreadable _ => none
  | duplicateAlias _ => none
  | malformed _ => none

/-- The report on an error in a query of a length; without a place it is about the whole query. -/
def diagnostic (length : Nat) : BuildError → Diagnostic
  -- A report on the text is already complete.
  | unreadable report => report
  | error => .error .ast error.code error.message (error.span?.getD ⟨0, length⟩)

end BuildError

/-- The AST of an expression, or why there is none. -/
abbrev Built := Except BuildError Node

/-- What the meaning of a tree depends on besides the tree. -/
structure Surroundings where
  /-- The text that the tree's spans are ranges of. -/
  source : List Char
  /-- The declared language. -/
  language : Language
  /-- The meaning of a call of an alias at a span. -/
  call : String → Span → Built

/-- The first direct child of a kind, which the grammar always makes. -/
def Tree.required (tree : Tree) (kind : NodeKind) : Except BuildError Tree :=
  match tree.child? kind with
  | some child => .ok child
  | none => .error (.malformed (.missingChild tree.kind kind))

/-- The value of a literal. -/
def literalValue (source : List Char) (literal : Tree) : Except BuildError Value :=
  let span := some literal.span
  let raw := literal.chars source
  match literal.kind with
  | .string => .ok (.string (unquote (String.ofList raw)) span)
  | .number =>
    match readNumberText raw with
    | .ok (.finite value) => .ok (.number value (String.ofList raw) span)
    -- JSON has no way to write such a number.
    | .ok .outOfRange => .error (.numberOutOfRange (String.ofList raw) literal.span)
    | .error fault => .error (.malformed (.invalidNumber (String.ofList raw) fault))
  -- The grammar lets only the two words through, in any capitals.
  | .boolean => .ok (.boolean (sameLetters raw "true".toList) span)
  | kind => .error (.malformed (.misplaced kind .scalarValue))

/-- The value of a scalar. -/
def scalarValue (source : List Char) (scalar : Tree) : Except BuildError Value :=
  match scalar.children with
  | literal :: _ => literalValue source literal
  | [] => .error (.malformed (.emptyNode .scalarValue))

/-- The value of an item of a list. -/
def itemValue (source : List Char) (item : Tree) : Except BuildError Value := do
  scalarValue source (← item.required .scalarValue)

/-- The value of a list. -/
def listValue (source : List Char) (list : Tree) : Except BuildError Value := do
  let items ← (list.children.filter (·.kind == .listItem)).mapM (itemValue source)
  return .list items (some list.span)

/-- The operator that a membership operator's text spells: two words negate it. -/
def membershipOperator (text : List Char) : String :=
  -- The operator's leaf spans both words and the white space between them.
  if 1 < wordCount text then "NOT IN" else "IN"

/-- The AST of a comparison; a field alone says that a boolean field is true. -/
def comparisonNode (around : Surroundings) (tree : Tree) : Built := do
  let fieldTree ← tree.required .field
  let name := (← fieldTree.required .identifier).text around.source
  let field : FieldRef := ⟨name, some fieldTree.span⟩
  match tree.child? .compareOperator, tree.child? .inOperator with
  -- A comparison operator goes before a membership operator; the grammar never makes both.
  | some operator, _ =>
    let value ← scalarValue around.source (← tree.required .scalarValue)
    let spelling := String.ofList (upperCase (operator.chars around.source))
    return .comparison field spelling value (some tree.span)
  | none, some operator =>
    let value ← listValue around.source (← tree.required .listLiteral)
    return .comparison field (membershipOperator (operator.chars around.source)) value
      (some tree.span)
  -- The field is known to be boolean or the shorthand has no meaning.
  | none, none =>
    match around.language.field? name with
    | some ⟨_, .boolean, _, _⟩ =>
      return .comparison field "=" (.boolean true (some fieldTree.span)) (some tree.span)
    | _ => .error (.invalidShorthand name fieldTree.span)

/-- A child together with its meaning, which is worked out only when it is asked for. -/
abbrev Part := Tree × (Unit → Built)

/-- The meaning of the first child of a kind. -/
def partMeaning (parent kind : NodeKind) (parts : List Part) : Built :=
  match parts.find? (·.1.kind == kind) with
  | some part => part.2 ()
  | none => .error (.malformed (.missingChild parent kind))

/-- Operands joined from left to right, each join spanning from the start of the chain. -/
def joinOperands (operator : Connective) (start : Nat) (first : Node) (rest : List Part) : Built :=
  rest.foldlM (fun left part => do
    let right ← part.2 ()
    return .logical operator left right (some ⟨start, part.1.span.stop⟩)) first

/-- The meaning of a chain: its operands of a kind joined by a connective. -/
def chainMeaning (kind operand : NodeKind) (operator : Connective) (span : Span)
    (parts : List Part) : Built :=
  match parts.filter (·.1.kind == operand) with
  | [] => .error (.malformed (.emptyNode kind))
  -- A single operand is not wrapped.
  | first :: rest => do joinOperands operator span.start (← first.2 ()) rest

/-- An operand under its negations, each of which spans to the end of the operand. -/
def negate (stop : Nat) (negations : List Tree) (operand : Node) : Node :=
  -- The negation next to the operand is the innermost.
  negations.foldr (fun negation inner => .negation inner (some ⟨negation.span.start, stop⟩)) operand

/-- The meaning of a primary expression: that of its first child, if that can have one. -/
def primaryMeaning : List Part → Built
  | [] => .error (.malformed (.emptyNode .primary))
  | (tree, meaning) :: _ =>
    match tree.kind with
    | .group => meaning ()
    | .aliasCall => meaning ()
    | .comparison => meaning ()
    | kind => .error (.malformed (.misplaced kind .primary))

/-- The meaning of a node from the meanings of its children; tokens and literals have none. -/
def combine (around : Surroundings) (tree : Tree) (parts : List Part) : Built :=
  match tree.kind with
  | .expression => partMeaning .expression .orExpression parts
  | .orExpression => chainMeaning .orExpression .andExpression .or tree.span parts
  | .andExpression => chainMeaning .andExpression .notExpression .and tree.span parts
  | .notExpression => do
    let operand ← partMeaning .notExpression .primary parts
    return negate tree.span.stop (tree.children.filter (·.kind == .notOp)) operand
  | .primary => primaryMeaning parts
  | .group => partMeaning .group .expression parts
  | .aliasCall => do
    let name ← tree.required .identifier
    around.call (name.text around.source) tree.span
  | .comparison => comparisonNode around tree
  -- No other node is asked for its meaning.
  | kind => .error (.malformed (.misplaced kind .primary))

mutual

/-- The meaning of a tree, each node's from those of its children. -/
def meaning (around : Surroundings) : Tree → Built
  | .node kind span children =>
    combine around (.node kind span children) (meanings around children)

/-- Sibling trees with their meanings. -/
def meanings (around : Surroundings) : List Tree → List Part
  | [] => []
  | tree :: trees => (tree, fun _ => meaning around tree) :: meanings around trees

end

/-- The meaning of a whole tree: that of the expression directly below its top. -/
def rootMeaning (around : Surroundings) (tree : Tree) : Built :=
  partMeaning tree.kind .expression (meanings around tree.children)

/--
The AST of a call of an alias, inside calls of the aliases in the chain.

The rounds left are the aliases that are not in the chain yet: when none is left, a name outside
the chain is no alias.
-/
def expandAlias (grammar : Grammar) (language : Language) (limit : Nat) :
    Nat → List String → String → Span → Built
  | rounds, chain, name, span =>
    -- A name that is being expanded would expand for ever.
    if chain.contains name then .error (.aliasCycle (chain ++ [name]) span)
    else
      match rounds, language.aliases.find? (·.name == name) with
      | rounds + 1, some declared =>
        -- Each alias of the chain is one call deeper.
        if limit ≤ chain.length then .error (.aliasTooDeep name limit span)
        else
          let tree := grammar.parse declared.expansion
          match tree.fault? with
          | some report => .error (.invalidExpansion name report.message span)
          | none =>
            let inside : Surroundings := {
              source := declared.expansion.toList
              language := language
              call := expandAlias grammar language limit rounds (chain ++ [name]) }
            -- What comes of the expansion is shown at the call, be it an AST or an error.
            match rootMeaning inside tree with
            | .ok root => .ok (root.relocate (some span))
            | .error error => .error (error.relocate span)
      | _, _ => .error (.unknownAlias name span)

/-- The first name that repeats an earlier one. -/
def firstRepeated? : List String → List String → Option String
  | _, [] => none
  | seen, name :: names =>
    if seen.contains name then some name else firstRepeated? (name :: seen) names

/-- The AST of a query's tree: none for a tree with an error or when an alias is declared twice. -/
def buildRoot (grammar : Grammar) (language : Language) (limit : Nat) (tree : Tree)
    (text : String) : Built :=
  -- A repeated alias spoils every query, even one that calls none.
  match firstRepeated? [] (language.aliases.map (·.name)) with
  | some name => .error (.duplicateAlias name)
  | none =>
    match tree.fault? with
    | some report => .error (.unreadable report)
    | none =>
      let around : Surroundings := {
        source := text.toList
        language := language
        call := expandAlias grammar language limit language.aliases.length [] }
      rootMeaning around tree

/-- The envelope of a query's tree. -/
def buildEnvelope (grammar : Grammar) (language : Language) (limit : Nat) (tree : Tree)
    (text : String) : Except BuildError Envelope := do
  let root ← buildRoot grammar language limit tree text
  -- The counts are of the AST after all expansions.
  return {
    astVersion := astVersion
    grammarVersion := grammarVersion
    rawQuery := text
    root := root
    metadata := some ⟨grammar.name, root.size, root.depth⟩ }

end FilterLang
