import FilterLang.Proofs.Grammar.Nesting
import FilterLang.Proofs.Tree.Table

/-! The table of a text's nodes as a reader fills it that knows its nodes by their numbers only. -/

namespace FilterLang

/-- What a recording reader goes by: the tokens left, the groups it is in, and the nodes so far. -/
structure Recorder where
  tokens : List Token
  nesting : Nat
  cells : Table
deriving DecidableEq, Repr

/--
A reader that enters its nodes into a table.

It fails when it would take a token that is not there, look up a node that is not there, or call
itself too often.
-/
abbrev Recording := StateT Recorder Option

/-- Enters a node over nodes of the table, whose parent it becomes, and gives its number. -/
def recordAt (kind : NodeKind) (span : Span) (ids : List Nat) : Recording Nat := do
  let recorder ← get
  set { recorder with cells := recorder.cells.enter kind span ids }
  return recorder.cells.length

/-- Takes the next token as a leaf. -/
def recordNext (kind : NodeKind) : Recording Nat := do
  match (← get).tokens with
  | [] => failure
  | token :: rest =>
    modify fun recorder => { recorder with tokens := rest }
    recordAt kind token.span []

/-- Marks something as missing before the next token. -/
def recordMissing (textEnd : Nat) (what : String) : Recording Nat := do
  let offset := nextOffset textEnd (← get).tokens
  recordAt (.error (some what)) (.empty offset) []

/-- Enters a node that spans the nodes it is over. -/
def recordNode (textEnd : Nat) (kind : NodeKind) (ids : List Nat) : Recording Nat := do
  let recorder ← get
  -- The spans are looked up in the table, by the numbers of the nodes.
  let spans ← StateT.lift (ids.mapM fun id => recorder.cells[id]?.map (·.span))
  let bare := .empty (nextOffset textEnd recorder.tokens)
  recordAt kind (spans.tail.foldl Span.cover (spans.headD bare)) ids

/-- The closing parenthesis, or the mark that it is missing. -/
def recordClosing (textEnd : Nat) : Recording Nat := do
  match (← get).tokens with
  | ⟨.closeParen, _⟩ :: _ => recordNext .closeParen
  | _ => recordMissing textEnd "')'"

/-- The kind of literal that comes next, if one does. -/
def nextLiteral? : List Token → Option NodeKind
  | [] => none
  | token :: _ => literalKind? token.kind

/-- A scalar value, if the next token is a literal. -/
def recordScalar? (textEnd : Nat) : Recording (Option Nat) := do
  match nextLiteral? (← get).tokens with
  | some kind =>
    let literal ← recordNext kind
    return some (← recordNode textEnd .scalarValue [literal])
  | none => return none

/-- An item of a list, or the mark that it is missing. -/
def recordItem (textEnd : Nat) : Recording Nat := do
  match ← recordScalar? textEnd with
  | some value => recordNode textEnd .listItem [value]
  | none => recordMissing textEnd "list item"

/-- The items of a list with the commas between them, in so many rounds at most. -/
def recordItems (textEnd : Nat) : Nat → Recording (List Nat)
  | 0 => failure
  | rounds + 1 => do
    let item ← recordItem textEnd
    -- A comma always asks for one more item, even right before the closing parenthesis.
    if (← get).tokens.head?.any (·.kind == .comma) then
      let comma ← recordNext .comma
      let items ← recordItems textEnd rounds
      return item :: comma :: items
    else return [item]

/-- What stands between the parentheses of a list. -/
def recordListed (textEnd : Nat) : Recording (List Nat) := do
  match (← get).tokens with
  -- An empty list has no items, missing ones included.
  | ⟨.closeParen, _⟩ :: _ => return []
  | tokens => recordItems textEnd (tokens.length + 1)

/-- A list literal. -/
def recordList (textEnd : Nat) : Recording Nat := do
  let opening ← recordNext .openParen
  let items ← recordListed textEnd
  let close ← recordClosing textEnd
  recordNode textEnd .listLiteral (opening :: items ++ [close])

/-- The list after a membership operator, or the mark that its parenthesis is missing. -/
def recordMembership (textEnd : Nat) : Recording Nat := do
  match (← get).tokens with
  | ⟨.openParen, _⟩ :: _ => recordList textEnd
  | _ => recordMissing textEnd "'('"

/-- The scalar after a comparison operator, or the mark that it is missing. -/
def recordOperand (textEnd : Nat) : Recording Nat := do
  match ← recordScalar? textEnd with
  | some value => return value
  | none => recordMissing textEnd "value"

/-- The operator and value that follow a field name, if any do. -/
def recordTail (textEnd : Nat) : Recording (List Nat) := do
  match (← get).tokens with
  | ⟨.inWord, _⟩ :: _ =>
    let operator ← recordNext .inOperator
    return [operator, ← recordMembership textEnd]
  | ⟨.notWord, first⟩ :: ⟨.inWord, second⟩ :: rest =>
    modify fun recorder => { recorder with tokens := rest }
    -- Both words make one operator, with whatever stands between them.
    let operator ← recordAt .inOperator ⟨first.start, second.stop⟩ []
    return [operator, ← recordMembership textEnd]
  | [] => return []
  | token :: _ =>
    if token.kind.comparisonSymbol?.isSome then
      let operator ← recordNext .compareOperator
      return [operator, ← recordOperand textEnd]
    else return []

/-- A comparison. -/
def recordComparison (textEnd : Nat) : Recording Nat := do
  let name ← recordNext .identifier
  let field ← recordNode textEnd .field [name]
  let tail ← recordTail textEnd
  recordNode textEnd .comparison (field :: tail)

/-- A call of an alias. -/
def recordCall (textEnd : Nat) : Recording Nat := do
  let name ← recordNext .identifier
  let opening ← recordNext .openParen
  let close ← recordClosing textEnd
  recordNode textEnd .aliasCall [name, opening, close]

/-- A group, given the call for its inside. -/
def recordGroup (textEnd : Nat) (call : Recording Nat) : Recording Nat := do
  let opening ← recordNext .openParen
  if maxNesting ≤ (← get).nesting then
    let mark ← recordMissing textEnd "shallower nesting"
    recordNode textEnd .group [opening, mark]
  else
    modify fun recorder => { recorder with nesting := recorder.nesting + 1 }
    let body ← call
    modify fun recorder => { recorder with nesting := recorder.nesting - 1 }
    let close ← recordClosing textEnd
    recordNode textEnd .group [opening, body, close]

/-- What stands below a primary expression. -/
def recordBody (textEnd : Nat) (call : Recording Nat) : Recording Nat := do
  match (← get).tokens with
  | ⟨.openParen, _⟩ :: _ => recordGroup textEnd call
  | ⟨.identifier _, _⟩ :: ⟨.openParen, _⟩ :: _ => recordCall textEnd
  | ⟨.identifier _, _⟩ :: _ => recordComparison textEnd
  | _ => recordMissing textEnd "expression"

/-- A group, an alias call or a comparison. -/
def recordPrimary (textEnd : Nat) (call : Recording Nat) : Recording Nat := do
  let body ← recordBody textEnd call
  recordNode textEnd .primary [body]

/-- A primary expression behind any number of negations. -/
def recordNot (textEnd : Nat) (call : Recording Nat) : Recording Nat := do
  let negations := (← get).tokens.takeWhile (·.kind == .notWord)
  let marks ← negations.mapM fun _ => recordNext .notOp
  let operand ← recordPrimary textEnd call
  recordNode textEnd .notExpression (marks ++ [operand])

/-- The operators and operands that continue a chain. -/
def recordChainTail (operator : TokenKind) (mark : NodeKind) (operand : Recording Nat) :
    Nat → Recording (List Nat)
  | 0 => return []
  | rounds + 1 => do
    match (← get).tokens with
    | token :: _ =>
      if token.kind = operator then
        let joint ← recordNext mark
        let next ← operand
        let more ← recordChainTail operator mark operand rounds
        return joint :: next :: more
      else return []
    | [] => return []

/-- Operands joined by one operator, under one node. -/
def recordChain (textEnd : Nat) (kind : NodeKind) (operator : TokenKind) (mark : NodeKind)
    (operand : Recording Nat) : Recording Nat := do
  let first ← operand
  let more ← recordChainTail operator mark operand (← get).tokens.length
  recordNode textEnd kind (first :: more)

/-- A whole expression, given how many calls may still stand one inside another. -/
def recordExpression (textEnd : Nat) : Nat → Recording Nat
  | 0 => failure
  | calls + 1 => do
    let conjunction := recordChain textEnd .andExpression .andWord .andOp
      (recordNot textEnd (recordExpression textEnd calls))
    let body ← recordChain textEnd .orExpression .orWord .orOp conjunction
    recordNode textEnd .expression [body]

/-- The mark over all tokens that no rule has read, if there are any. -/
def recordLeftOver : Recording (List Nat) := do
  match (← get).tokens with
  | [] => return []
  | first :: rest =>
    modify fun recorder => { recorder with tokens := [] }
    let span := ⟨first.span.start, (rest.getLastD first).span.stop⟩
    return [← recordAt (.error (some "end of input")) span []]

/-- The root of a query and all nodes below it. -/
def recordQuery (textEnd calls : Nat) : Recording Nat := do
  let body ← recordExpression textEnd calls
  let rest ← recordLeftOver
  recordAt .query ⟨0, textEnd⟩ (body :: rest)

/-- The number of a query text's root and the table of its nodes. -/
def recordedParse (calls : Nat) (text : String) : Option (Nat × Table) := do
  let (root, recorder) ← (recordQuery (byteSize text) calls).run ⟨tokenize text, 0, []⟩
  return (root, recorder.cells)

/-- A reader enters one tree, gives the number of its top, and leaves its counter as it found it. -/
def Recording.Enters (reader : Recording Nat) (nesting : Nat) (tokens : List Token)
    (result : Tree × List Token) : Prop :=
  ∀ cells, reader.run ⟨tokens, nesting, cells⟩ =
    some ((result.1.enter cells).length - 1, ⟨result.2, nesting, result.1.enter cells⟩)

/-- A reader enters trees from left to right, and gives the numbers of their tops. -/
def Recording.EntersAll (reader : Recording (List Nat)) (nesting : Nat) (tokens : List Token)
    (result : List Tree × List Token) : Prop :=
  ∀ cells, reader.run ⟨tokens, nesting, cells⟩ =
    some ((Tree.enterAll result.1 cells).1,
      ⟨result.2, nesting, (Tree.enterAll result.1 cells).2⟩)

/-- A reader that enters what a rule reads wherever the counter shows a number. -/
def Recording.Follows (reader : Recording Nat) (nesting : Nat) (rule : Rule) : Prop :=
  ∀ tokens, reader.Enters nesting tokens (rule tokens)

/-- The call for the inside of a group follows the rule for it, if the counter allows a call. -/
def Recording.Calls (call : Recording Nat) (nesting : Nat) : Option Rule → Prop
  | none => maxNesting ≤ nesting
  | some rule => nesting < maxNesting ∧ call.Follows (nesting + 1) rule

section Steps

variable {textEnd nesting : Nat} {tokens : List Token} {cells : Table}

/-- A node without children is entered as a leaf. -/
@[simp] theorem run_recordAt_leaf (kind : NodeKind) (span : Span) :
    (recordAt kind span []).run ⟨tokens, nesting, cells⟩ =
      some (((Tree.leaf kind span).enter cells).length - 1,
        ⟨tokens, nesting, (Tree.leaf kind span).enter cells⟩) := by
  -- The last node of the table has the number that the table had as its length before.
  simp [recordAt, Tree.leaf, Tree.enter, Tree.enterAll]

/-- The next token is entered as a leaf. -/
@[simp] theorem run_recordNext (kind : NodeKind) (token : Token) :
    (recordNext kind).run ⟨token :: tokens, nesting, cells⟩ =
      some (((Tree.leaf kind token.span).enter cells).length - 1,
        ⟨tokens, nesting, (Tree.leaf kind token.span).enter cells⟩) := by
  simp [recordNext]

/-- The mark of something missing is entered as a leaf. -/
@[simp] theorem run_recordMissing (what : String) :
    (recordMissing textEnd what).run ⟨tokens, nesting, cells⟩ =
      some (((missing textEnd what tokens).enter cells).length - 1,
        ⟨tokens, nesting, (missing textEnd what tokens).enter cells⟩) := by
  simp [recordMissing, missing, Tree.expecting]

/-- A node over trees that have just been entered makes one tree of them, with the same span. -/
theorem run_recordNode (textEnd nesting : Nat) (tokens : List Token) (cells : Table)
    (kind : NodeKind) (trees : List Tree) (filled : trees ≠ []) :
    (recordNode textEnd kind (Tree.enterAll trees cells).1).run
        ⟨tokens, nesting, (Tree.enterAll trees cells).2⟩ =
      some (((inner kind trees).enter cells).length - 1,
        ⟨tokens, nesting, (inner kind trees).enter cells⟩) := by
  -- The table keeps the trees at the numbers given, so it is their spans that are looked up.
  have spans := (Tree.allKeptIn_enterAll cells trees).mapM_span
  obtain ⟨tree, trees, rfl⟩ := List.exists_cons_of_ne_nil filled
  simp [recordNode, spans, recordAt, inner, Tree.covering, Tree.enter, List.foldl_map]

end Steps

section Rules

variable {textEnd nesting : Nat}

/-- The closing parenthesis is entered as the rule reads it. -/
theorem recordClosing_follows : (recordClosing textEnd).Follows nesting (closing textEnd) := by
  intro tokens cells
  -- The rule and the reader go by the first token.
  fun_cases closing textEnd tokens with
  | case1 span rest => simp [recordClosing]
  | case2 => simp [recordClosing]

/-- A literal is entered with the scalar value over it. -/
theorem run_recordScalar?_literal {token : Token} {kind : NodeKind}
    (literal : literalKind? token.kind = some kind) (rest : List Token) (cells : Table) :
    (recordScalar? textEnd).run ⟨token :: rest, nesting, cells⟩ =
      some (some (((scalarOf kind token.span).enter cells).length - 1),
        ⟨rest, nesting, (scalarOf kind token.span).enter cells⟩) := by
  -- The literal is the last node when the scalar value is entered over it.
  have node := run_recordNode textEnd nesting rest cells .scalarValue
    [.leaf kind token.span] (by simp)
  simp only [Tree.enterAll] at node
  simp [recordScalar?, nextLiteral?, literal, node, scalarOf]

/-- Nothing is entered where there is no literal. -/
theorem run_recordScalar?_other {tokens : List Token}
    (other : nextLiteral? tokens = none) (cells : Table) :
    (recordScalar? textEnd).run ⟨tokens, nesting, cells⟩ =
      some (none, ⟨tokens, nesting, cells⟩) := by
  simp [recordScalar?, other]

/-- The value behind an operator is entered as the rule reads it. -/
theorem recordOperand_follows : (recordOperand textEnd).Follows nesting (scalar textEnd) := by
  intro tokens cells
  -- The rule and the reader both ask whether the next token is a literal.
  fun_cases scalar textEnd tokens with
  | case1 =>
    have bare : nextLiteral? [] = none := rfl
    simp [recordOperand, run_recordScalar?_other bare]
  | case2 token rest kind literal => simp [recordOperand, run_recordScalar?_literal literal]
  | case3 token rest other =>
    have bare : nextLiteral? (token :: rest) = none := other
    simp [recordOperand, run_recordScalar?_other bare]

/-- An item that is a literal is entered with the nodes over it. -/
theorem recordItem_literal {token : Token} {kind : NodeKind}
    (literal : literalKind? token.kind = some kind) (rest : List Token) :
    (recordItem textEnd).Enters nesting (token :: rest)
      (inner .listItem [scalarOf kind token.span], rest) := by
  intro cells
  -- Two nodes are entered over the literal, one over the other.
  have node := run_recordNode textEnd nesting rest cells .listItem
    [scalarOf kind token.span] (by simp)
  simp only [Tree.enterAll] at node
  simp [recordItem, run_recordScalar?_literal literal, node]

/-- An item that is no literal is marked as missing. -/
theorem recordItem_other {tokens : List Token} (other : nextLiteral? tokens = none) :
    (recordItem textEnd).Enters nesting tokens
      (missing textEnd "list item" tokens, tokens) := by
  -- Without a literal the gap is entered, and no token is taken.
  intro cells
  simp [recordItem, run_recordScalar?_other other]

/-- An item that no comma follows is the last. -/
theorem recordItems_last {rounds : Nat} {tokens rest : List Token} {item : Tree}
    (entered : (recordItem textEnd).Enters nesting tokens (item, rest))
    (last : rest.head?.any (·.kind == .comma) = false) :
    (recordItems textEnd (rounds + 1)).EntersAll nesting tokens ([item], rest) := by
  -- One item is entered, and no comma asks for more.
  intro cells
  have first : (recordItem textEnd).run ⟨tokens, nesting, cells⟩ = _ := entered cells
  simp [recordItems, first, last, Tree.enterAll]

/-- An item that a comma follows has others behind it. -/
theorem recordItems_cons {rounds : Nat} {tokens rest left : List Token} (comma : Token)
    {item : Tree} {items : List Tree} (divides : comma.kind = .comma)
    (entered : (recordItem textEnd).Enters nesting tokens (item, comma :: rest))
    (others : (recordItems textEnd rounds).EntersAll nesting rest (items, left)) :
    (recordItems textEnd (rounds + 1)).EntersAll nesting tokens
      (item :: .leaf .comma comma.span :: items, left) := by
  -- The item, its comma and the others are entered one behind the other.
  intro cells
  have first : (recordItem textEnd).run ⟨tokens, nesting, cells⟩ = _ := entered cells
  have more : (recordItems textEnd rounds).run ⟨rest, nesting,
      (Tree.leaf .comma comma.span).enter (item.enter cells)⟩ = _ := others _
  simp [recordItems, first, divides, more, Tree.enterAll]

/-- The items of a list are entered as the rule reads them, if there are rounds enough. -/
theorem recordItems_entersAll (tokens : List Token) : ∀ rounds, tokens.length ≤ rounds →
    (recordItems textEnd (rounds + 1)).EntersAll nesting tokens (listItems textEnd tokens) := by
  -- Every round but the last takes a comma at least, so one round more than tokens is enough.
  fun_induction listItems textEnd tokens with
  | case1 =>
    intro rounds _
    exact recordItems_last (recordItem_other rfl) rfl
  | case2 token kind literal item span rest items left same ih =>
    intro rounds enough
    rw [List.length_cons, List.length_cons] at enough
    obtain ⟨rounds, rfl⟩ : ∃ left, rounds = left + 1 := ⟨rounds - 1, by omega⟩
    have first : (recordItem textEnd).Enters nesting (token :: ⟨.comma, span⟩ :: rest)
        (item, ⟨.comma, span⟩ :: rest) := recordItem_literal literal _
    have others := ih rounds (by omega)
    rw [same] at others
    exact recordItems_cons ⟨.comma, span⟩ rfl first others
  | case3 token kind literal item rest other =>
    intro rounds _
    have last : rest.head?.any (·.kind == .comma) = false := by
      rcases rest with _ | ⟨⟨kind, span⟩, rest⟩
      · rfl
      · simpa using fun same => other span rest (by rw [same])
    exact recordItems_last (recordItem_literal literal rest) last
  | case4 token rest other absent divides items left same ih =>
    intro rounds enough
    rw [List.length_cons] at enough
    obtain ⟨rounds, rfl⟩ : ∃ left, rounds = left + 1 := ⟨rounds - 1, by omega⟩
    have others := ih rounds (by omega)
    rw [same] at others
    exact recordItems_cons token divides (recordItem_other other) others
  | case5 token rest other absent single =>
    intro rounds _
    exact recordItems_last (recordItem_other other) (by simpa using single)

/-- What stands between the parentheses of a list is entered as the rule reads it. -/
theorem recordListed_entersAll {tokens left : List Token} {items : List Tree}
    (listed : (match tokens with
      | ⟨.closeParen, _⟩ :: _ => ([], tokens)
      | _ => listItems textEnd tokens) = (items, left)) :
    (recordListed textEnd).EntersAll nesting tokens (items, left) := by
  intro cells
  have items : (recordItems textEnd (tokens.length + 1)).run ⟨tokens, nesting, cells⟩ = _ :=
    recordItems_entersAll tokens tokens.length (Nat.le_refl _) cells
  -- Only a closing parenthesis ends a list without an item.
  split at listed
  · cases listed
    simp [recordListed, Tree.enterAll]
  · rw [← listed]
    simpa [recordListed] using items

/-- A list is entered as the rule reads it. -/
theorem recordList_enters (opening : Span) (tokens : List Token) :
    (recordList textEnd).Enters nesting (⟨.openParen, opening⟩ :: tokens)
      (listLiteral textEnd opening tokens) := by
  intro cells
  fun_cases listLiteral textEnd opening tokens with
  | case1 items left listed close rest closed =>
    -- The parts are entered one after the other, and the node over them comes last.
    have inside : (recordListed textEnd).run
        ⟨tokens, nesting, (Tree.leaf .openParen opening).enter cells⟩ = _ :=
      recordListed_entersAll listed _
    have last : ∀ cells, (recordClosing textEnd).run ⟨left, nesting, cells⟩ = _ :=
      recordClosing_follows left
    have node := run_recordNode textEnd nesting rest cells .listLiteral
      (.leaf .openParen opening :: (items ++ [close])) (by simp)
    simp only [Tree.enterAll, Tree.enterAll_append] at node
    simp [recordList, inside, last, closed, node]

/-- What follows a membership operator is entered as the rule reads it. -/
theorem recordMembership_follows :
    (recordMembership textEnd).Follows nesting (membership textEnd) := by
  -- Without a parenthesis the gap is entered in place of the list.
  intro tokens cells
  fun_cases membership textEnd tokens with
  | case1 span rest =>
    have read : (recordList textEnd).run ⟨⟨.openParen, span⟩ :: rest, nesting, cells⟩ = _ :=
      recordList_enters span rest cells
    simpa [recordMembership] using read
  | case2 => simp [recordMembership]

/-- What follows a field name is entered as the rule reads it. -/
theorem recordTail_entersAll (tokens : List Token) :
    (recordTail textEnd).EntersAll nesting tokens (comparisonTail textEnd tokens) := by
  intro cells
  have list : ∀ rest cells, (recordMembership textEnd).run ⟨rest, nesting, cells⟩ = _ :=
    fun rest => recordMembership_follows rest
  have value : ∀ rest cells, (recordOperand textEnd).run ⟨rest, nesting, cells⟩ = _ :=
    fun rest => recordOperand_follows rest
  -- One case for each operator, and two for there being none.
  fun_cases comparisonTail textEnd tokens with
  | case1 span rest tree left read =>
    simp [recordTail, list, read, Tree.enterAll]
  | case2 first second rest tree left read =>
    simp [recordTail, list, read, Tree.enterAll]
  | case3 => rfl
  | case4 token rest one two compares tree left read =>
    simp [recordTail, value, read, compares, Tree.enterAll]
  | case5 token rest one two other =>
    simp [recordTail, other, Tree.enterAll]

/-- A comparison is entered as the rule reads it. -/
theorem recordComparison_enters (name : Token) (tokens : List Token) :
    (recordComparison textEnd).Enters nesting (name :: tokens)
      (comparison textEnd name.span tokens) := by
  intro cells
  have tail : ∀ cells, (recordTail textEnd).run ⟨tokens, nesting, cells⟩ = _ :=
    recordTail_entersAll tokens
  -- The node of the field is complete before the operator is entered.
  have field := run_recordNode textEnd nesting tokens cells .field
    [.leaf .identifier name.span] (by simp)
  have node := run_recordNode textEnd nesting (comparisonTail textEnd tokens).2 cells .comparison
    (inner .field [.leaf .identifier name.span] :: (comparisonTail textEnd tokens).1) (by simp)
  simp only [Tree.enterAll] at field node
  simp [recordComparison, comparison, field, tail, node]

/-- A call of an alias is entered as the rule reads it. -/
theorem recordCall_enters (name opening : Token) (tokens : List Token) :
    (recordCall textEnd).Enters nesting (name :: opening :: tokens)
      (aliasCall textEnd name.span opening.span tokens) := by
  -- Three leaves are entered before the node that holds them.
  intro cells
  have last : ∀ cells, (recordClosing textEnd).run ⟨tokens, nesting, cells⟩ = _ :=
    recordClosing_follows tokens
  have node := run_recordNode textEnd nesting (closing textEnd tokens).2 cells .aliasCall
    [.leaf .identifier name.span, .leaf .openParen opening.span, (closing textEnd tokens).1]
    (by simp)
  simp only [Tree.enterAll] at node
  simp [recordCall, aliasCall, last, node]

variable {call : Recording Nat} {inside : Option Rule}

/-- A group is entered as the rule reads it, with the counter raised around its inside. -/
theorem recordGroup_enters (calls : call.Calls nesting inside) (opening : Token)
    (tokens : List Token) :
    (recordGroup textEnd call).Enters nesting (opening :: tokens)
      (group textEnd inside opening.span tokens) := by
  intro cells
  cases inside with
  | none =>
    have deep : maxNesting ≤ nesting := calls
    have node := run_recordNode textEnd nesting tokens cells .group
      [.leaf .openParen opening.span, missing textEnd "shallower nesting" tokens] (by simp)
    simp only [Tree.enterAll] at node
    simp [recordGroup, group, deep, node]
  | some rule =>
    obtain ⟨shallow, follows⟩ := calls
    -- The counter is raised for the call and lowered before the parenthesis is looked for.
    have read : ∀ cells, call.run ⟨tokens, nesting + 1, cells⟩ = _ := follows tokens
    have last : ∀ cells, (recordClosing textEnd).run ⟨(rule tokens).2, nesting, cells⟩ = _ :=
      recordClosing_follows _
    have node := run_recordNode textEnd nesting (closing textEnd (rule tokens).2).2 cells .group
      [.leaf .openParen opening.span, (rule tokens).1, (closing textEnd (rule tokens).2).1]
      (by simp)
    simp only [Tree.enterAll] at node
    simp [recordGroup, group, Nat.not_le.mpr shallow, read, last, node]

/-- What stands below a primary expression is entered as the rule reads it. -/
theorem recordBody_follows (calls : call.Calls nesting inside) :
    (recordBody textEnd call).Follows nesting (primaryBody textEnd inside) := by
  intro tokens cells
  -- The rule and the reader go by the first two tokens.
  fun_cases primaryBody textEnd inside tokens with
  | case1 span rest =>
    have read : (recordGroup textEnd call).run ⟨⟨.openParen, span⟩ :: rest, nesting, cells⟩ = _ :=
      recordGroup_enters calls _ rest cells
    simpa [recordBody] using read
  | case2 word name opening rest =>
    have read : (recordCall textEnd).run
        ⟨⟨.identifier word, name⟩ :: ⟨.openParen, opening⟩ :: rest, nesting, cells⟩ = _ :=
      recordCall_enters _ _ rest cells
    simpa [recordBody] using read
  | case3 word name rest other =>
    have read : (recordComparison textEnd).run
        ⟨⟨.identifier word, name⟩ :: rest, nesting, cells⟩ = _ :=
      recordComparison_enters _ rest cells
    simpa [recordBody, other] using read
  | case4 => simp [recordBody]

/-- A primary expression is entered as the rule reads it. -/
theorem recordPrimary_follows (calls : call.Calls nesting inside) :
    (recordPrimary textEnd call).Follows nesting (primary textEnd inside) := by
  -- The body is entered before the node that holds it.
  intro tokens cells
  have body : (recordBody textEnd call).run ⟨tokens, nesting, cells⟩ = _ :=
    recordBody_follows calls tokens cells
  have node := run_recordNode textEnd nesting (primaryBody textEnd inside tokens).2 cells .primary
    [(primaryBody textEnd inside tokens).1] (by simp)
  simp only [Tree.enterAll] at node
  simp [recordPrimary, primary, body, node]

/-- Tokens that are taken one after the other are entered as leaves. -/
theorem run_recordMarks (nesting : Nat) (mark : NodeKind) (front rest : List Token)
    (cells : Table) :
    (front.mapM fun _ => recordNext mark).run ⟨front ++ rest, nesting, cells⟩ =
      some ((Tree.enterAll (front.map fun token => .leaf mark token.span) cells).1,
        ⟨rest, nesting,
          (Tree.enterAll (front.map fun token => .leaf mark token.span) cells).2⟩) := by
  -- Induction on the marks: each takes one token and enters one leaf.
  induction front generalizing cells with
  | nil => rfl
  | cons token front ih => simp [List.mapM_cons, Tree.enterAll, ih]

/-- Negations are entered side by side before their operand. -/
theorem recordNot_follows (calls : call.Calls nesting inside) :
    (recordNot textEnd call).Follows nesting (notExpression textEnd inside) := by
  intro tokens cells
  have marks := run_recordMarks nesting .notOp (tokens.takeWhile (·.kind == .notWord))
    (tokens.dropWhile (·.kind == .notWord)) cells
  -- The tokens are the negations and what stands behind them.
  rw [List.takeWhile_append_dropWhile] at marks
  have operand : ∀ cells, (recordPrimary textEnd call).run
      ⟨tokens.dropWhile (·.kind == .notWord), nesting, cells⟩ = _ :=
    recordPrimary_follows calls _
  have node := fun (rest : List Token) (marks : List Tree) (operand : Tree) =>
    run_recordNode textEnd nesting rest cells .notExpression (marks ++ [operand]) (by simp)
  simp only [Tree.enterAll_append, Tree.enterAll] at node
  simp [recordNot, notExpression, marks, operand, node]

/-- What continues a chain is entered as the rule reads it. -/
theorem recordChainTail_entersAll {operand : Recording Nat} {rule : Rule}
    (follows : operand.Follows nesting rule) (operator : TokenKind) (mark : NodeKind)
    (rounds : Nat) (tokens : List Token) :
    (recordChainTail operator mark operand rounds).EntersAll nesting tokens
      (chainTail operator mark rule rounds tokens) := by
  -- Each round enters the operator and the operand, and leaves the others to the next.
  fun_induction chainTail operator mark rule rounds tokens with
  | case1 => exact fun _ => rfl
  | case2 => exact fun _ => rfl
  | case3 rounds token rest same next left read more last continued ih =>
    intro cells
    have first : ∀ cells, operand.run ⟨rest, nesting, cells⟩ = _ := follows rest
    have others : ∀ cells, (recordChainTail operator mark operand rounds).run
        ⟨left, nesting, cells⟩ = _ := ih
    simp [recordChainTail, same, first, read, others, continued, Tree.enterAll]
  | case4 rounds token rest other =>
    intro cells
    simp [recordChainTail, other, Tree.enterAll]

/-- A chain is entered as the rule reads it if its operands are. -/
theorem recordChain_follows {operand : Recording Nat} {rule : Rule}
    (follows : operand.Follows nesting rule) (kind : NodeKind) (operator : TokenKind)
    (mark : NodeKind) :
    (recordChain textEnd kind operator mark operand).Follows nesting
      (chain kind operator mark rule) := by
  -- Operands and connectives are entered in the order of the text, and then the node over them.
  intro tokens cells
  have first : operand.run ⟨tokens, nesting, cells⟩ = _ := follows tokens cells
  have others : ∀ cells, (recordChainTail operator mark operand (rule tokens).2.length).run
      ⟨(rule tokens).2, nesting, cells⟩ = _ := recordChainTail_entersAll follows operator mark _ _
  have node := run_recordNode textEnd nesting
    (chainTail operator mark rule (rule tokens).2.length (rule tokens).2).2 cells kind
    ((rule tokens).1 :: (chainTail operator mark rule (rule tokens).2.length (rule tokens).2).1)
    (by simp)
  simp only [Tree.enterAll] at node
  simp [recordChain, chain, first, others, node]

/-- A whole expression is entered as the rule reads it if the inside of its groups is. -/
theorem recordExpression_over {calls : Nat}
    (enters : (recordExpression textEnd calls).Calls nesting inside) :
    (recordExpression textEnd (calls + 1)).Follows nesting (expressionOver textEnd inside) := by
  -- The two chains follow each other, down to the negations that enter groups.
  intro tokens cells
  have conjunctions : (recordChain textEnd .andExpression .andWord .andOp _).Follows nesting
      (andExpression textEnd inside) :=
    recordChain_follows (recordNot_follows enters) .andExpression .andWord .andOp
  have read : (recordChain textEnd .orExpression .orWord .orOp _).run
      ⟨tokens, nesting, cells⟩ = _ :=
    recordChain_follows conjunctions .orExpression .orWord .orOp tokens cells
  have node := run_recordNode textEnd nesting (orExpression textEnd inside tokens).2 cells
    .expression [(orExpression textEnd inside tokens).1] (by simp)
  simp only [Tree.enterAll, orExpression] at node
  simp [recordExpression, expressionOver, orExpression, read, node]

/--
An expression is entered as the rule reads it, by one call for each level that is left.

The counter and the levels that are left always make up the greatest nesting.
-/
theorem recordExpression_follows {levels calls : Nat} (counted : nesting + levels = maxNesting)
    (enough : levels < calls) :
    (recordExpression textEnd calls).Follows nesting (expression textEnd levels) := by
  -- Induction on the levels: a group is refused by the counter exactly when none is left.
  induction levels generalizing nesting calls with
  | zero =>
    obtain ⟨left, rfl⟩ : ∃ left, calls = left + 1 := ⟨calls - 1, by omega⟩
    have full : (recordExpression textEnd left).Calls nesting none := Nat.le_of_eq counted.symm
    rw [expression]
    exact recordExpression_over full
  | succ levels ih =>
    obtain ⟨left, rfl⟩ : ∃ left, calls = left + 1 := ⟨calls - 1, by omega⟩
    have deeper : (recordExpression textEnd left).Follows (nesting + 1)
        (expression textEnd levels) := ih (by omega) (by omega)
    have enters : (recordExpression textEnd left).Calls nesting
        (some (expression textEnd levels)) := ⟨by omega, deeper⟩
    rw [expression]
    exact recordExpression_over enters

/-- What is left is entered as one mark, if there is anything. -/
theorem run_recordLeftOver (tokens : List Token) (cells : Table) :
    recordLeftOver.run ⟨tokens, nesting, cells⟩ = some ((Tree.enterAll (leftOver tokens) cells).1,
      ⟨[], nesting, (Tree.enterAll (leftOver tokens) cells).2⟩) := by
  -- The mark spans all of the tokens, and none is left behind it.
  cases tokens with
  | nil => rfl
  | cons first rest => simp [recordLeftOver, leftOver, Tree.expecting, Tree.enterAll]

end Rules

/-- The recording reader fills the table of a text's tree, and its root is the top of the tree. -/
theorem recordedParse_eq (text : String) : recordedParse (maxNesting + 1) text =
    some ((parse text).top, (parse text).table) := by
  have read : (recordExpression (byteSize text) (maxNesting + 1)).run ⟨tokenize text, 0, []⟩ = _ :=
    recordExpression_follows (Nat.zero_add maxNesting) (Nat.lt_succ_self maxNesting) _ _
  -- The expression comes first, then the mark over what is left, then the root over both.
  rw [parse_eq_expression]
  simp [recordedParse, recordQuery, read, run_recordLeftOver, recordAt, Tree.table, Tree.top,
    Tree.enter, Tree.enterAll]

end FilterLang
