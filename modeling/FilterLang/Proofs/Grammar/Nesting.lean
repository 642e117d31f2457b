import FilterLang.Proofs.Grammar.Recognition
import FilterLang.Proofs.Token.Joining
import FilterLang.Proofs.Tree.LastLeaf

/-! How deep the tree of a text can be. -/

namespace FilterLang

namespace Tree

/-- No node of a tree stands more than so many nodes below its top. -/
def Within (depth : Nat) (tree : Tree) : Prop :=
  ∀ above, ∀ visit ∈ tree.visitsUnder above, visit.ancestors.length ≤ above.length + depth

/-- Some node of a tree stands just so many nodes below its top. -/
def Reaches (depth : Nat) (tree : Tree) : Prop :=
  ∀ above, ∃ visit ∈ tree.visitsUnder above, visit.ancestors.length = above.length + depth

/-- A deeper bound holds as well. -/
theorem Within.mono {less more : Nat} {tree : Tree} (within : tree.Within less)
    (le : less ≤ more) : tree.Within more := by
  -- A bound can always be raised.
  intro above visit visited
  have bound := within above visit visited
  omega

/-- A leaf has nothing below its top. -/
theorem within_leaf (kind : NodeKind) (span : Span) (depth : Nat) :
    (leaf kind span).Within depth := by
  -- A leaf has no visit but its own.
  intro above visit visited
  obtain rfl : visit = ⟨leaf kind span, above⟩ := by
    simpa [leaf, visitsUnder, visitsOfAll] using visited
  exact Nat.le_add_right _ _

/-- A node adds one to the way down to what is below it. -/
theorem within_node {depth : Nat} {children : List Tree}
    (below : ∀ child ∈ children, child.Within depth) (kind : NodeKind) (span : Span) :
    (node kind span children).Within (depth + 1) := by
  -- A visit is the node's own or one below a child, where the path is longer by one.
  intro above visit visited
  rw [visitsUnder, List.mem_cons, mem_visitsOfAll] at visited
  rcases visited with rfl | ⟨child, member, deeper⟩
  · exact Nat.le_add_right _ _
  · have bound := below child member _ visit deeper
    rw [List.length_cons] at bound
    omega

/-- A leaf reaches its own top. -/
theorem reaches_leaf (kind : NodeKind) (span : Span) : (leaf kind span).Reaches 0 :=
  fun above => ⟨⟨leaf kind span, above⟩, by simp [leaf, visitsUnder], rfl⟩

/-- A node reaches one further than anything below it. -/
theorem reaches_node {depth : Nat} {child : Tree} {children : List Tree}
    (deep : child.Reaches depth) (member : child ∈ children) (kind : NodeKind) (span : Span) :
    (node kind span children).Reaches (depth + 1) := by
  -- The path that goes deep in the child begins one node higher here.
  intro above
  obtain ⟨visit, deeper, length⟩ := deep (node kind span children :: above)
  refine ⟨visit, ?_, ?_⟩
  · rw [visitsUnder, List.mem_cons, mem_visitsOfAll]
    exact .inr ⟨child, member, deeper⟩
  · rw [length, List.length_cons]
    omega

end Tree

/-- An inner node adds one to the way down to what is below it. -/
theorem within_inner {depth : Nat} {children : List Tree}
    (below : ∀ child ∈ children, child.Within depth) (kind : NodeKind) :
    (inner kind children).Within (depth + 1) := by
  -- An inner node is a node, whatever span it has been given.
  rw [inner_eq_node]
  exact Tree.within_node below kind _

/-- An inner node over one tree adds one to the way down to it. -/
theorem within_single {depth : Nat} {child : Tree} (below : child.Within depth)
    (kind : NodeKind) : (inner kind [child]).Within (depth + 1) :=
  within_inner (by simpa using below) kind

/-- The mark of something missing has nothing below its top. -/
theorem within_missing (textEnd : Nat) (what : String) (tokens : List Token) (depth : Nat) :
    (missing textEnd what tokens).Within depth :=
  Tree.within_leaf _ _ depth

section Bounds

variable (textEnd : Nat)

/-- A closing parenthesis is a leaf, be it there or not. -/
theorem closing_within (tokens : List Token) (depth : Nat) :
    (closing textEnd tokens).1.Within depth := by
  -- A leaf keeps to every bound.
  unfold closing
  split
  · exact Tree.within_leaf _ _ depth
  · exact within_missing _ _ _ depth

/-- A literal stands one below its scalar value. -/
theorem scalarOf_within (kind : NodeKind) (span : Span) : (scalarOf kind span).Within 1 :=
  within_single (Tree.within_leaf _ _ 0) _

/-- The scalar behind an operator is one literal under a node, or its mark. -/
theorem scalar_within (tokens : List Token) : (scalar textEnd tokens).1.Within 1 := by
  -- A literal is one level below its node.
  fun_cases scalar textEnd tokens with
  | case1 => exact within_missing _ _ _ 1
  | case2 token rest kind literal => exact scalarOf_within kind token.span
  | case3 token rest other => exact within_missing _ _ _ 1

/-- An item of a list is one scalar value under a node. -/
theorem listItems_within (tokens : List Token) :
    ∀ tree ∈ (listItems textEnd tokens).1, tree.Within 2 := by
  -- Induction along the items, as they are read: each stands over a node with its literal.
  have item : ∀ kind span, (inner .listItem [scalarOf kind span]).Within 2 :=
    fun kind span => within_single (scalarOf_within kind span) _
  fun_induction listItems textEnd tokens with
  | case1 => simpa using within_missing _ _ _ 2
  | case2 token kind literal _ span rest items left same ih =>
    rw [same] at ih
    simpa using ⟨item kind token.span, Tree.within_leaf _ _ 2, ih⟩
  | case3 token kind literal => simpa using item kind token.span
  | case4 token rest other _ divides items left same ih =>
    rw [same] at ih
    simpa using ⟨within_missing _ _ _ 2, Tree.within_leaf _ _ 2, ih⟩
  | case5 token rest other => simpa using within_missing _ _ _ 2

/-- A list puts one node over its items. -/
theorem listLiteral_within (opening : Span) (tokens : List Token) :
    (listLiteral textEnd opening tokens).1.Within 3 := by
  -- Parentheses and items are side by side under the list.
  fun_cases listLiteral textEnd opening tokens with
  | case1 items left listed close rest closed =>
    have each : ∀ tree ∈ items, tree.Within 2 := by
      split at listed
      · cases listed
        simp
      · simpa [listed] using listItems_within textEnd tokens
    have last : close.Within 2 := by simpa [closed] using closing_within textEnd left 2
    have all : ∀ tree ∈ .leaf .openParen opening :: items ++ [close], tree.Within 2 := by
      rw [List.cons_append, List.forall_mem_cons, List.forall_mem_append]
      exact ⟨Tree.within_leaf _ _ 2, each, by simpa using last⟩
    exact within_inner all _

/-- What follows a membership operator is a list, or its mark. -/
theorem membership_within (tokens : List Token) : (membership textEnd tokens).1.Within 3 := by
  -- The list is the deeper of the two.
  unfold membership
  split
  · exact listLiteral_within textEnd _ _
  · exact within_missing _ _ _ 3

/-- The deepest part of a comparison is its list. -/
theorem comparison_within (name : Span) (tokens : List Token) :
    (comparison textEnd name tokens).1.Within 4 := by
  -- A list is the deepest thing that can follow a field.
  have tail : ∀ tree ∈ (comparisonTail textEnd tokens).1, tree.Within 3 := by
    unfold comparisonTail
    split
    · simpa using ⟨Tree.within_leaf _ _ 3, membership_within textEnd _⟩
    · simpa using ⟨Tree.within_leaf _ _ 3, membership_within textEnd _⟩
    · simp
    · split
      · simpa using ⟨Tree.within_leaf _ _ 3, (scalar_within textEnd _).mono (by omega)⟩
      · simp
  have field : (inner .field [.leaf .identifier name]).Within 3 :=
    (within_single (Tree.within_leaf _ _ 0) _).mono (by omega)
  exact within_inner (List.forall_mem_cons.mpr ⟨field, tail⟩) _

/-- A call has only leaves below it. -/
theorem aliasCall_within (name opening : Span) (tokens : List Token) :
    (aliasCall textEnd name opening tokens).1.Within 1 := by
  -- All three parts are leaves.
  have leaves : ∀ tree ∈ [.leaf .identifier name, .leaf .openParen opening,
      (closing textEnd tokens).1], tree.Within 0 := by
    simp [Tree.within_leaf, closing_within]
  exact within_inner leaves _

/-- A rule whose trees keep within a depth. -/
def Rule.Within (depth : Nat) (rule : Rule) : Prop :=
  ∀ tokens, (rule tokens).1.Within depth

variable {textEnd} {inside : Option Rule} {depth : Nat}

/-- A group puts one node over its inside. -/
theorem group_within (deep : ∀ rule ∈ inside, rule.Within depth) (opening : Span)
    (tokens : List Token) : (group textEnd inside opening tokens).1.Within (depth + 1) := by
  -- The inside of a group is one level down, and so is the gap that stands for it.
  cases inside with
  | none =>
    have leaves : ∀ tree ∈ [.leaf .openParen opening,
        missing textEnd "shallower nesting" tokens], tree.Within depth := by
      simp [Tree.within_leaf, within_missing]
    exact within_inner leaves _
  | some rule =>
    have parts : ∀ tree ∈ [.leaf .openParen opening, (rule tokens).1,
        (closing textEnd (rule tokens).2).1], tree.Within depth := by
      simp [Tree.within_leaf, closing_within, deep rule rfl tokens]
    exact within_inner parts _

/-- A primary expression is no deeper than a comparison or a group. -/
theorem primary_within (deep : ∀ rule ∈ inside, rule.Within depth) (roomy : 3 ≤ depth) :
    (primary textEnd inside).Within (depth + 2) := by
  -- Of the bodies a comparison alone is four levels deep, so there is room for it.
  intro tokens
  have body : (primaryBody textEnd inside tokens).1.Within (depth + 1) := by
    unfold primaryBody
    split
    · exact group_within deep _ _
    · exact (aliasCall_within textEnd _ _ _).mono (by omega)
    · exact (comparison_within textEnd _ _).mono (by omega)
    · exact within_missing _ _ _ _
  exact within_single body _

/-- Negations are leaves beside their operand. -/
theorem notExpression_within (deep : ∀ rule ∈ inside, rule.Within depth) (roomy : 3 ≤ depth) :
    (notExpression textEnd inside).Within (depth + 3) := by
  -- The marks are leaves, and the operand is the one part that goes deeper.
  intro tokens
  refine within_inner (List.forall_mem_append.mpr ⟨?_, ?_⟩) _
  · exact List.forall_mem_map.mpr fun token _ => Tree.within_leaf _ _ _
  · exact List.forall_mem_singleton.mpr (primary_within deep roomy _)

/-- What continues a chain is as deep as its operands. -/
theorem chainTail_within {operand : Rule} (deep : operand.Within depth) (operator : TokenKind)
    (mark : NodeKind) (rounds : Nat) (tokens : List Token) :
    ∀ tree ∈ (chainTail operator mark operand rounds tokens).1, tree.Within depth := by
  -- Induction along the tail; connectives are leaves, and every operand keeps to the bound.
  fun_induction chainTail operator mark operand rounds tokens with
  | case1 => simp
  | case2 => simp
  | case3 rounds token rest same next left read more last continued ih =>
    have first : next.Within depth := by simpa [read] using deep rest
    rw [continued] at ih
    simpa using ⟨Tree.within_leaf _ _ depth, first, ih⟩
  | case4 => simp

/-- A chain puts one node over its operands. -/
theorem chain_within {operand : Rule} (deep : operand.Within depth) (kind mark : NodeKind)
    (operator : TokenKind) : (chain kind operator mark operand).Within (depth + 1) :=
  fun tokens => within_inner
    (List.forall_mem_cons.mpr ⟨deep tokens, chainTail_within deep operator mark _ _⟩) _

/-- An expression puts five nodes over its primary expressions. -/
theorem expressionOver_within (deep : ∀ rule ∈ inside, rule.Within depth) (roomy : 3 ≤ depth) :
    (expressionOver textEnd inside).Within (depth + 6) := by
  -- Three nodes stand over a negation: two chains and the expression.
  have negations : (notExpression textEnd inside).Within (depth + 3) :=
    notExpression_within deep roomy
  have conjunctions := chain_within negations .andExpression .andOp .andWord
  have disjunctions := chain_within conjunctions .orExpression .orOp .orWord
  exact fun tokens => within_single (disjunctions tokens) _

/-- An expression is nine deep by itself, and six deeper for each group that may be opened. -/
theorem expression_within (levels : Nat) :
    (expression textEnd levels).Within (6 * levels + 9) := by
  -- Induction on the levels: each adds the six nodes from one expression to the next.
  induction levels with
  | zero =>
    have flat : (expressionOver textEnd none).Within (3 + 6) :=
      expressionOver_within (by simp) (by omega)
    exact flat
  | succ levels ih =>
    have nested : (expressionOver textEnd (some (expression textEnd levels))).Within
        (6 * levels + 9 + 6) := expressionOver_within (by simpa using ih) (by omega)
    exact nested

end Bounds

/-- The tree of a text is its outermost expression with the mark over what is left. -/
theorem parse_eq_expression (text : String) : parse text = .node .query ⟨0, byteSize text⟩
    ((expression (byteSize text) maxNesting (tokenize text)).1 ::
      leftOver (expression (byteSize text) maxNesting (tokenize text)).2) := by
  rw [parse_eq, expression_eq]

section Counting

/-- What a counting reader goes by: the tokens left to read, and the groups it is in. -/
structure Reading where
  tokens : List Token
  nesting : Nat
deriving DecidableEq, Repr

/-- A reader that counts groups; it fails when it would have to call itself too often. -/
abbrev Counting := StateT Reading Option

/-- A rule without groups, which leaves the counter alone. -/
def countless (rule : Rule) : Counting Tree := fun reading =>
  some ((rule reading.tokens).1, { reading with tokens := (rule reading.tokens).2 })

/-- A group whose opening parenthesis has been read, given the call for its inside. -/
def countedGroup (textEnd : Nat) (call : Counting Tree) (opening : Span) : Counting Tree := do
  let reading ← get
  if maxNesting ≤ reading.nesting then
    -- The counter was not raised for this group, so it is not lowered either.
    return inner .group
      [.leaf .openParen opening, missing textEnd "shallower nesting" reading.tokens]
  else
    modify fun reading => { reading with nesting := reading.nesting + 1 }
    let body ← call
    modify fun reading => { reading with nesting := reading.nesting - 1 }
    let close ← countless (closing textEnd)
    return inner .group [.leaf .openParen opening, body, close]

/-- A group, an alias call or a comparison. -/
def countedPrimary (textEnd : Nat) (call : Counting Tree) : Counting Tree := do
  match (← get).tokens with
  | ⟨.openParen, opening⟩ :: rest =>
    modify fun reading => { reading with tokens := rest }
    return inner .primary [← countedGroup textEnd call opening]
  -- Nothing else has an expression inside.
  | _ => countless (primary textEnd none)

/-- A primary expression behind any number of negations. -/
def countedNot (textEnd : Nat) (call : Counting Tree) : Counting Tree := do
  let tokens := (← get).tokens
  modify fun reading => { reading with tokens := tokens.dropWhile (·.kind == .notWord) }
  let operand ← countedPrimary textEnd call
  let negations := tokens.takeWhile (·.kind == .notWord)
  return inner .notExpression
    (negations.map (fun token => .leaf .notOp token.span) ++ [operand])

/-- The operators and operands that continue a chain. -/
def countedTail (operator : TokenKind) (mark : NodeKind) (operand : Counting Tree) :
    Nat → Counting (List Tree)
  | 0 => return []
  | rounds + 1 => do
    match (← get).tokens with
    | token :: rest =>
      if token.kind = operator then
        modify fun reading => { reading with tokens := rest }
        let next ← operand
        let more ← countedTail operator mark operand rounds
        return .leaf mark token.span :: next :: more
      else return []
    | [] => return []

/-- Operands joined by one operator, under one node. -/
def countedChain (kind : NodeKind) (operator : TokenKind) (mark : NodeKind)
    (operand : Counting Tree) : Counting Tree := do
  let first ← operand
  let more ← countedTail operator mark operand (← get).tokens.length
  return inner kind (first :: more)

/-- A whole expression, given how many calls may still stand one inside another. -/
def countedExpression (textEnd : Nat) : Nat → Counting Tree
  | 0 => failure
  | calls + 1 => do
    let conjunction := countedChain .andExpression .andWord .andOp
      (countedNot textEnd (countedExpression textEnd calls))
    let body ← countedChain .orExpression .orWord .orOp conjunction
    return inner .expression [body]

/-- The tree of a query text and what the counter shows at the end. -/
def countedParse (calls : Nat) (text : String) : Option (Tree × Nat) := do
  let (body, reading) ← (countedExpression (byteSize text) calls).run ⟨tokenize text, 0⟩
  return (.node .query ⟨0, byteSize text⟩ (body :: leftOver reading.tokens), reading.nesting)

/-- A reader comes to a result and leaves its counter as it found it. -/
def Counting.Gives {α : Type} (reader : Counting α) (nesting : Nat) (tokens : List Token)
    (result : α × List Token) : Prop :=
  reader.run ⟨tokens, nesting⟩ = some (result.1, ⟨result.2, nesting⟩)

/-- A reader that reads what a rule reads wherever the counter shows a number. -/
def Counting.Follows (reader : Counting Tree) (nesting : Nat) (rule : Rule) : Prop :=
  ∀ tokens, reader.Gives nesting tokens (rule tokens)

/-- A rule without groups is followed whatever the counter shows. -/
@[simp] theorem run_countless (rule : Rule) (reading : Reading) : (countless rule).run reading =
    some ((rule reading.tokens).1, { reading with tokens := (rule reading.tokens).2 }) :=
  rfl

/-- The call for the inside of a group follows the rule for it, if the counter allows a call. -/
def Counting.Enters (call : Counting Tree) (nesting : Nat) : Option Rule → Prop
  | none => maxNesting ≤ nesting
  | some rule => nesting < maxNesting ∧ call.Follows (nesting + 1) rule

variable {textEnd nesting : Nat} {call : Counting Tree} {inside : Option Rule}

/-- The counter is raised and lowered around the inside of a group, or left alone. -/
theorem countedGroup_gives (enters : call.Enters nesting inside) (opening : Span)
    (tokens : List Token) :
    (countedGroup textEnd call opening).Gives nesting tokens
      (group textEnd inside opening tokens) := by
  -- The counter has reached its limit exactly if no rule is given for the inside.
  cases inside with
  | none =>
    have deep : maxNesting ≤ nesting := enters
    simp [Counting.Gives, countedGroup, group, deep]
  | some rule =>
    obtain ⟨shallow, follows⟩ := enters
    have read : call.run ⟨tokens, nesting + 1⟩ =
        some ((rule tokens).1, ⟨(rule tokens).2, nesting + 1⟩) := follows tokens
    simp [Counting.Gives, countedGroup, group, Nat.not_le.mpr shallow, read]

/-- A primary expression that is no group does not depend on the rule for the inside of groups. -/
theorem primary_groupless {tokens : List Token}
    (other : ∀ opening rest, tokens ≠ ⟨.openParen, opening⟩ :: rest) :
    primary textEnd none tokens = primary textEnd inside tokens := by
  -- Only an opening parenthesis asks for the inside.
  have body : primaryBody textEnd none tokens = primaryBody textEnd inside tokens := by
    unfold primaryBody
    split
    · exact absurd rfl (other _ _)
    all_goals rfl
  simp only [primary, body]

/-- A primary expression leaves the counter as it was, whatever it is. -/
theorem countedPrimary_follows (enters : call.Enters nesting inside) :
    (countedPrimary textEnd call).Follows nesting (primary textEnd inside) := by
  intro tokens
  by_cases opens : ∃ opening rest, tokens = ⟨.openParen, opening⟩ :: rest
  · obtain ⟨opening, rest, rfl⟩ := opens
    have read : (countedGroup textEnd call opening).run ⟨rest, nesting⟩ = _ :=
      countedGroup_gives enters opening rest
    simp [Counting.Gives, countedPrimary, primary, primaryBody, read]
  · have other : ∀ opening rest, tokens ≠ ⟨.openParen, opening⟩ :: rest :=
      fun opening rest same => opens ⟨opening, rest, same⟩
    rw [← primary_groupless other]
    -- The reader goes by the first token too, and it opens no group.
    simp only [Counting.Gives, countedPrimary, StateT.run_bind, StateT.run_get, pure_bind]
    exact run_countless (primary textEnd none) ⟨tokens, nesting⟩

/-- Negations are passed over with the counter as it was. -/
theorem countedNot_follows (enters : call.Enters nesting inside) :
    (countedNot textEnd call).Follows nesting (notExpression textEnd inside) := by
  -- Marks are read by both in the same way.
  intro tokens
  have read : (countedPrimary textEnd call).run
      ⟨tokens.dropWhile (·.kind == .notWord), nesting⟩ = _ :=
    countedPrimary_follows enters _
  simp [Counting.Gives, countedNot, notExpression, read]

/-- What continues a chain is read with the counter as it was before each operand. -/
theorem countedTail_gives {operand : Counting Tree} {rule : Rule}
    (follows : operand.Follows nesting rule) (operator : TokenKind) (mark : NodeKind)
    (rounds : Nat) (tokens : List Token) :
    (countedTail operator mark operand rounds).Gives nesting tokens
      (chainTail operator mark rule rounds tokens) := by
  -- Induction along the tail; both go on at the same connectives.
  fun_induction chainTail operator mark rule rounds tokens with
  | case1 => rfl
  | case2 => rfl
  | case3 rounds token rest same next left read more last continued ih =>
    have first : operand.run ⟨rest, nesting⟩ = _ := follows rest
    have others : (countedTail operator mark operand rounds).run ⟨left, nesting⟩ = _ := ih
    simp [Counting.Gives, countedTail, same, first, read, others, continued]
  | case4 rounds token rest other => simp [Counting.Gives, countedTail, other]

/-- A chain leaves the counter as it was if its operands do. -/
theorem countedChain_follows {operand : Counting Tree} {rule : Rule}
    (follows : operand.Follows nesting rule) (kind : NodeKind) (operator : TokenKind)
    (mark : NodeKind) :
    (countedChain kind operator mark operand).Follows nesting (chain kind operator mark rule) := by
  -- The first operand is read by both, and the tail has as many rounds as tokens are left.
  intro tokens
  have first : operand.run ⟨tokens, nesting⟩ = _ := follows tokens
  have others : (countedTail operator mark operand (rule tokens).2.length).run
      ⟨(rule tokens).2, nesting⟩ = _ := countedTail_gives follows operator mark _ _
  simp [Counting.Gives, countedChain, chain, first, others]

/-- A whole expression leaves the counter as it was if the calls for its groups do. -/
theorem countedExpression_over {calls : Nat}
    (enters : (countedExpression textEnd calls).Enters nesting inside) :
    (countedExpression textEnd (calls + 1)).Follows nesting (expressionOver textEnd inside) := by
  -- The two chains follow each other, down to the negations that enter groups.
  intro tokens
  have conjunctions : Counting.Follows _ nesting (andExpression textEnd inside) :=
    countedChain_follows (countedNot_follows enters) .andExpression .andWord .andOp
  have read : (countedChain .orExpression .orWord .orOp _).run ⟨tokens, nesting⟩ = _ :=
    countedChain_follows conjunctions .orExpression .orWord .orOp tokens
  simp [Counting.Gives, countedExpression, expressionOver, orExpression, andExpression, read]

/--
An expression is read with the counter as it was, and by one call for each level that is left.

The counter and the levels that are left always make up the greatest nesting.
-/
theorem countedExpression_follows {levels calls : Nat} (counted : nesting + levels = maxNesting)
    (enough : levels < calls) :
    (countedExpression textEnd calls).Follows nesting (expression textEnd levels) := by
  -- Induction on the levels: a group is refused by the counter exactly when none is left.
  induction levels generalizing nesting calls with
  | zero =>
    obtain ⟨left, rfl⟩ : ∃ left, calls = left + 1 := ⟨calls - 1, by omega⟩
    have full : (countedExpression textEnd left).Enters nesting none := Nat.le_of_eq counted.symm
    exact countedExpression_over full
  | succ levels ih =>
    obtain ⟨left, rfl⟩ : ∃ left, calls = left + 1 := ⟨calls - 1, by omega⟩
    have enters : (countedExpression textEnd left).Enters nesting
        (some (expression textEnd levels)) := by
      refine ⟨by omega, ih ?_ ?_⟩ <;> omega
    exact countedExpression_over enters

/-- The counting reader reads the tree of a text, and its counter is back at zero then. -/
theorem countedParse_eq (text : String) :
    countedParse (maxNesting + 1) text = some (parse text, 0) := by
  -- At the start nothing is open and all levels are left; at the end nothing is open again.
  have read : (countedExpression (byteSize text) (maxNesting + 1)).run ⟨tokenize text, 0⟩ = _ :=
    countedExpression_follows (Nat.zero_add maxNesting) (Nat.lt_succ_self maxNesting) _
  rw [parse_eq_expression]
  simp [countedParse, read]

end Counting

section Deepest

variable {textEnd depth : Nat} {inside : Option Rule}

/-- An inner node reaches one further than anything below it. -/
theorem reaches_inner {child : Tree} {children : List Tree} (deep : child.Reaches depth)
    (member : child ∈ children) (kind : NodeKind) : (inner kind children).Reaches (depth + 1) := by
  -- An inner node is a node, whatever span it has been given.
  rw [inner_eq_node]
  exact Tree.reaches_node deep member kind _

/-- Five nodes stand over the first primary expression of an expression. -/
theorem expressionOver_reaches {token : Token} {tokens : List Token}
    (plain : token.kind ≠ .notWord)
    (deep : (primaryBody textEnd inside (token :: tokens)).1.Reaches depth) :
    (expressionOver textEnd inside (token :: tokens)).1.Reaches (depth + 5) := by
  -- Four nodes stand between the body and the expression, each with the next as a child.
  have operand : (primary textEnd inside (token :: tokens)).1.Reaches (depth + 1) :=
    reaches_inner deep (List.mem_singleton_self _) _
  have negation : (notExpression textEnd inside (token :: tokens)).1.Reaches (depth + 2) := by
    rw [notExpression_plain textEnd inside (by simpa using plain)]
    exact reaches_inner operand (List.mem_singleton_self _) _
  have conjunction : (andExpression textEnd inside (token :: tokens)).1.Reaches (depth + 3) :=
    reaches_inner negation List.mem_cons_self _
  have disjunction : (orExpression textEnd inside (token :: tokens)).1.Reaches (depth + 4) :=
    reaches_inner conjunction List.mem_cons_self _
  exact reaches_inner disjunction (List.mem_singleton_self _) _

/-- The first literal of a list stands four nodes below its comparison. -/
theorem comparison_reaches (name operator opening literal : Span) (number : String)
    (tokens : List Token) :
    (comparison textEnd name (⟨.inWord, operator⟩ :: ⟨.openParen, opening⟩ ::
      ⟨.number number, literal⟩ :: tokens)).1.Reaches 4 := by
  -- A list literal holds the item, the item its node, and the node the literal.
  have item : (inner .listItem [scalarOf .number literal]).Reaches 2 :=
    reaches_inner (reaches_inner (Tree.reaches_leaf .number literal)
      (List.mem_singleton_self _) _) (List.mem_singleton_self _) _
  have first : inner .listItem [scalarOf .number literal] ∈
      (listItems textEnd (⟨.number number, literal⟩ :: tokens)).1 := by
    simp only [listItems, literalKind?]
    split <;> exact List.mem_cons_self
  have list : (listLiteral textEnd opening (⟨.number number, literal⟩ :: tokens)).1.Reaches 3 :=
    reaches_inner item (List.mem_cons_of_mem _ (List.mem_append_left _ first)) _
  exact reaches_inner list (List.mem_cons_of_mem _ (List.mem_cons_of_mem _
    (List.mem_singleton_self _))) _

/-- Behind opening parentheses to the limit, the first literal of a list stands deepest. -/
theorem expression_reaches (levels : Nat) {tokens : List Token} {others : List TokenKind}
    (kinds : tokens.map (·.kind) = List.replicate levels .openParen ++
      .identifier "a" :: .inWord :: .openParen :: .number "1" :: others) :
    (expression textEnd levels tokens).1.Reaches (6 * levels + 9) := by
  -- Induction on the levels: each parenthesis opens a group whose inside is one level down.
  induction levels generalizing tokens with
  | zero =>
    simp only [List.replicate_zero, List.nil_append, List.map_eq_cons_iff] at kinds
    obtain ⟨⟨_, name⟩, _, rfl, rfl, ⟨_, operator⟩, _, rfl, rfl, ⟨_, opening⟩, _, rfl, rfl,
      ⟨_, literal⟩, rest, rfl, rfl, -⟩ := kinds
    exact expressionOver_reaches (by simp)
      (comparison_reaches name operator opening literal "1" rest)
  | succ levels ih =>
    simp only [List.replicate_succ, List.cons_append, List.map_eq_cons_iff] at kinds
    obtain ⟨⟨_, opening⟩, rest, rfl, rfl, kinds⟩ := kinds
    have filled : (group textEnd (some (expression textEnd levels)) opening rest).1.Reaches
        (6 * levels + 9 + 1) :=
      reaches_inner (ih kinds) (List.mem_cons_of_mem _ List.mem_cons_self) _
    exact expressionOver_reaches (by simp) filled

/-- A mark can stand any number of times before a text. -/
theorem Cuts.marks {c : Char} {kind : TokenKind} (solid : isBlank c = false)
    (alone : ∀ cs, lexeme c cs = (kind, 0)) {cs : List Char} {kinds : List TokenKind}
    (cuts : Cuts cs kinds) (count : Nat) :
    Cuts (List.replicate count c ++ cs) (List.replicate count kind ++ kinds) := by
  -- A mark stands alone whatever follows, so any number of them can be put in front.
  induction count with
  | zero => exact cuts
  | succ count ih => exact ih.mark solid alone

/-- A query with a list inside as many groups as may be opened. -/
def deepestText : String :=
  String.ofList (List.replicate maxNesting '(' ++ ("a IN (1)".toList ++
    (List.replicate maxNesting ')' ++ [])))

/-- The query is cut into its parentheses and what they stand around. -/
theorem tokenize_deepestText : (tokenize deepestText).map (·.kind) =
    List.replicate maxNesting .openParen ++ .identifier "a" :: .inWord :: .openParen ::
      .number "1" :: .closeParen :: (List.replicate maxNesting .closeParen ++ []) := by
  -- Parentheses in front and behind, and between them a text that is cut by computation.
  have closers : Cuts (List.replicate maxNesting ')' ++ []) _ :=
    Cuts.nil.marks (by decide) (fun _ => rfl) maxNesting
  have list : Cuts "a IN (1)".toList
      [.identifier "a", .inWord, .openParen, .number "1", .closeParen] :=
    .of_tokenize (by decide +kernel) (by decide)
  have apart : ∀ rest, Apart rest → Apart (List.replicate maxNesting ')' ++ [] ++ rest) :=
    fun _ _ => apart_cons (by decide) _
  have whole : Cuts (List.replicate maxNesting '(' ++ _) _ :=
    (list.append closers apart).marks (by decide) (fun _ => rfl) maxNesting
  exact Cuts.tokenize_kinds (by rwa [deepestText, String.toList_ofList])

end Deepest

section Trees

/-- The mark over what is left is a leaf. -/
theorem leftOver_within (rest : List Token) (depth : Nat) :
    ∀ tree ∈ leftOver rest, tree.Within depth := by
  -- A leaf keeps to every bound.
  cases rest with
  | nil => simp [leftOver]
  | cons first rest => exact List.forall_mem_singleton.mpr (Tree.within_leaf _ _ depth)

/-- The tree of a text puts one node over its expression and the mark over what is left. -/
theorem parse_within (text : String) : (parse text).Within (6 * maxNesting + 10) := by
  -- The root stands one level above the expression.
  have body : (expression (byteSize text) maxNesting).Within (6 * maxNesting + 9) :=
    expression_within maxNesting
  rw [parse_eq_expression]
  exact Tree.within_node (List.forall_mem_cons.mpr ⟨body _, leftOver_within _ _⟩) _ _

/-- The tree of a text reaches one further than its expression. -/
theorem parse_reaches {text : String} {depth : Nat}
    (deep : (expression (byteSize text) maxNesting (tokenize text)).1.Reaches depth) :
    (parse text).Reaches (depth + 1) := by
  -- The expression is the first child of the root.
  rw [parse_eq_expression]
  exact Tree.reaches_node deep List.mem_cons_self _ _

end Trees

/--
The nesting limit bounds the tree of every text.

No node has more than 778 ancestors: six for each of the groups that may be open at once, and ten
above the literal of a list, which is what stands deepest. There is a text with such a literal. A
reader that counts the groups it is in reads this tree with no more calls one inside another than
may be open at once and one, and its counter is back at zero in the end.
-/
theorem parse_shallow (text : String) :
    (∀ visit ∈ (parse text).visits, visit.ancestors.length ≤ 778) ∧
    (∃ visit ∈ (parse deepestText).visits, visit.ancestors.length = 778) ∧
    countedParse (maxNesting + 1) text = some (parse text, 0) := by
  -- The bound holds for every text, and the deepest text reaches it.
  refine ⟨fun visit visited => ?_, ?_, countedParse_eq text⟩
  · have bound := parse_within text [] visit visited
    simpa [maxNesting] using bound
  · have deep := parse_reaches (expression_reaches maxNesting tokenize_deepestText)
    obtain ⟨visit, visited, length⟩ := deep []
    exact ⟨visit, visited, by simpa [maxNesting] using length⟩

end FilterLang
