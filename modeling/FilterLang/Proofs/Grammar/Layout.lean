import FilterLang.Proofs.Grammar.Comparison
import FilterLang.Proofs.Token.Places
import FilterLang.Proofs.Tree.Order

/-! How trees lie over the tokens they are read off. -/

namespace FilterLang

/-- The kind of the leaf that a token is read as; some tokens have no place in the grammar. -/
def TokenKind.leafKind? : TokenKind → Option NodeKind
  | .andWord => some .andOp
  | .orWord => some .orOp
  | .notWord => some .notOp
  | .inWord => some .inOperator
  | .identifier _ => some .identifier
  | .string _ => some .string
  | .number _ => some .number
  | .trueWord | .falseWord => some .boolean
  | .openParen => some .openParen
  | .closeParen => some .closeParen
  | .comma => some .comma
  | .equal | .notEqual | .greater | .less | .greaterEqual | .lessEqual | .containsWord =>
    some .compareOperator
  | .unterminated | .illegal => none

/-- A literal is read as a leaf of its kind. -/
theorem leafKind?_of_literalKind? {token : TokenKind} {kind : NodeKind}
    (literal : literalKind? token = some kind) : token.leafKind? = some kind := by
  cases token <;> simp_all [literalKind?, TokenKind.leafKind?]

/-- No token is read as an error. -/
theorem isError_of_leafKind? {token : TokenKind} {kind : NodeKind}
    (taken : token.leafKind? = some kind) : kind.isError = false := by
  -- The leaf kinds of tokens are listed, and none of them marks an error.
  cases token <;> simp only [TokenKind.leafKind?, Option.some.injEq, reduceCtorEq] at taken <;>
    subst taken <;> rfl

/-- A comparison operator is read as one. -/
theorem leafKind?_of_comparisonSymbol? {token : TokenKind}
    (compares : token.comparisonSymbol?.isSome = true) :
    token.leafKind? = some .compareOperator := by
  cases token <;> simp_all [TokenKind.comparisonSymbol?, TokenKind.leafKind?]

/--
Sibling trees that are read off some tokens, and the tokens that are left behind them.

These are all ways in which a rule of the grammar adds to its tree.
-/
inductive Lays (textEnd : Nat) : List Tree → List Token → List Token → Prop where
  | nil {tokens : List Token} : Lays textEnd [] tokens tokens
  | token {word : TokenKind} {span : Span} {kind : NodeKind} {trees : List Tree}
      {tokens rest : List Token} (taken : word.leafKind? = some kind)
      (more : Lays textEnd trees tokens rest) :
      Lays textEnd (.leaf kind span :: trees) (⟨word, span⟩ :: tokens) rest
  | notIn {first second : Span} {trees : List Tree} {tokens rest : List Token}
      (more : Lays textEnd trees tokens rest) :
      Lays textEnd (.leaf .inOperator ⟨first.start, second.stop⟩ :: trees)
        (⟨.notWord, first⟩ :: ⟨.inWord, second⟩ :: tokens) rest
  | missing {what : String} {trees : List Tree} {tokens rest : List Token}
      (more : Lays textEnd trees tokens rest) :
      Lays textEnd (missing textEnd what tokens :: trees) tokens rest
  | inner {kind : NodeKind} {children trees : List Tree} {tokens mid rest : List Token}
      (plain : kind.isError = false) (filled : children ≠ [])
      (below : Lays textEnd children tokens mid) (more : Lays textEnd trees mid rest) :
      Lays textEnd (inner kind children :: trees) tokens rest

namespace Lays

variable {textEnd : Nat} {trees : List Tree} {tokens rest : List Token}

/-- Trees are laid over what other trees leave. -/
theorem append {front back : List Tree} {mid : List Token}
    (first : Lays textEnd front tokens mid) (second : Lays textEnd back mid rest) :
    Lays textEnd (front ++ back) tokens rest := by
  -- Induction on the first layout; where it ends, the second goes on.
  induction first with
  | nil => exact second
  | token taken _ ih => exact .token taken (ih second)
  | notIn _ ih => exact .notIn (ih second)
  | missing _ ih => exact .missing (ih second)
  | inner plain filled below _ _ ih => exact .inner plain filled below (ih second)

/-- The trees under one node lie where the node lies. -/
theorem node {kind : NodeKind} {children : List Tree} (plain : kind.isError = false)
    (filled : children ≠ []) (below : Lays textEnd children tokens rest) :
    Lays textEnd [FilterLang.inner kind children] tokens rest :=
  .inner plain filled below .nil

/-- The tokens that are left are the last of those that were given. -/
theorem suffix (laid : Lays textEnd trees tokens rest) : rest <:+ tokens := by
  -- Induction on the layout: every rule takes its tokens off the front.
  induction laid with
  | nil => exact List.suffix_rfl
  | token _ _ ih => exact ih.trans (List.suffix_cons _ _)
  | notIn _ ih => exact (ih.trans (List.suffix_cons _ _)).trans (List.suffix_cons _ _)
  | missing _ ih => exact ih
  | inner _ _ _ _ below ih => exact ih.trans below

end Lays

/-- Leaves that stand for tokens one by one, the two words of NOT IN being one leaf. -/
inductive StandFor : List Tree → List Token → Prop where
  | nil : StandFor [] []
  | token {word : TokenKind} {span : Span} {kind : NodeKind} {leaves : List Tree}
      {tokens : List Token} (taken : word.leafKind? = some kind) (more : StandFor leaves tokens) :
      StandFor (.leaf kind span :: leaves) (⟨word, span⟩ :: tokens)
  | notIn {first second : Span} {leaves : List Tree} {tokens : List Token}
      (more : StandFor leaves tokens) :
      StandFor (.leaf .inOperator ⟨first.start, second.stop⟩ :: leaves)
        (⟨.notWord, first⟩ :: ⟨.inWord, second⟩ :: tokens)

/-- Leaves that stand for two runs of tokens stand for both together. -/
theorem StandFor.append {front back : List Tree} {early late : List Token}
    (first : StandFor front early) (second : StandFor back late) :
    StandFor (front ++ back) (early ++ late) := by
  -- Induction along the leaves in front.
  induction first with
  | nil => exact second
  | token taken _ ih => exact .token taken ih
  | notIn _ ih => exact .notIn ih

namespace Lays

variable {textEnd : Nat} {trees : List Tree} {tokens rest : List Token}

/-- What is left of tokens in order is in order. -/
theorem inOrder (laid : Lays textEnd trees tokens rest) (ordered : InOrder textEnd tokens) :
    InOrder textEnd rest := by
  -- The layout took its tokens off the front.
  obtain ⟨read, rfl⟩ := laid.suffix
  exact ordered.of_append

/-- Trees come one after the other between the first token they take and the first they leave. -/
theorem successive (laid : Lays textEnd trees tokens rest) (ordered : InOrder textEnd tokens) :
    Successive (nextOffset textEnd tokens) trees (nextOffset textEnd rest) := by
  -- Induction on the layout. Each tree begins where the next token does, or is a gap without width,
  -- and the others lie behind it.
  induction laid with
  | nil => exact Nat.le_refl _
  | token _ _ ih =>
    obtain ⟨filled, before, later⟩ := ordered
    exact ⟨Nat.le_refl _, Nat.le_of_lt filled, (ih later).weaken before⟩
  | @notIn first second trees tokens rest _ ih =>
    have reach := ordered.start_lt_stop
    obtain ⟨-, -, -, apart, later⟩ := ordered
    exact ⟨Nat.le_refl _, Nat.le_of_lt reach, (ih later).weaken apart⟩
  | missing _ ih => exact ⟨Nat.le_refl _, Nat.le_refl _, ih ordered⟩
  | inner _ filled below _ ih more =>
    obtain ⟨begins, across, ends⟩ := ((ih ordered).inner filled).1
    exact ⟨begins, across, (more (below.inOrder ordered)).weaken ends⟩

/-- All nodes that are laid over tokens in order are tidy. -/
theorem isTidy (laid : Lays textEnd trees tokens rest) (ordered : InOrder textEnd tokens) :
    ∀ sub ∈ trees.flatMap Tree.subtrees, sub.IsTidy := by
  -- Induction on the layout: inner nodes are tidy because their children succeed each other, leaves
  -- because their tokens have width.
  induction laid with
  | nil => simp
  | token _ _ ih =>
    obtain ⟨filled, before, later⟩ := ordered
    rw [List.flatMap_cons, List.forall_mem_append, Tree.forall_subtrees_leaf]
    exact ⟨Tree.isTidy_leaf filled, ih later⟩
  | @notIn first second trees tokens rest _ ih =>
    have reach := ordered.start_lt_stop
    rw [List.flatMap_cons, List.forall_mem_append, Tree.forall_subtrees_leaf]
    exact ⟨Tree.isTidy_leaf reach, ih ordered.2.2.2.2⟩
  | missing _ ih =>
    rw [List.flatMap_cons, List.forall_mem_append]
    refine ⟨?_, ih ordered⟩
    rw [FilterLang.missing, Tree.expecting, Tree.forall_subtrees_leaf]
    exact ⟨Nat.le_refl _, fun _ _ => rfl⟩
  | inner _ filled below _ ih more =>
    rw [List.flatMap_cons, List.forall_mem_append, subtrees_inner, List.forall_mem_cons]
    refine ⟨⟨⟨?_, ?_⟩, ih ordered⟩, more (below.inOrder ordered)⟩
    · rw [inner_children]
      exact ((below.successive ordered).inner filled).2
    · exact fun bare => absurd (by simpa using bare) filled

/-- Spans begin and end where tokens do, or at the end of the text. -/
theorem forall_ends {holds : Nat → Prop} (laid : Lays textEnd trees tokens rest)
    (last : holds textEnd)
    (ends : ∀ token ∈ tokens, holds token.span.start ∧ holds token.span.stop) :
    ∀ sub ∈ trees.flatMap Tree.subtrees, holds sub.span.start ∧ holds sub.span.stop := by
  induction laid with
  | nil => simp
  | token _ _ ih =>
    rw [List.forall_mem_cons] at ends
    rw [List.flatMap_cons, List.forall_mem_append, Tree.forall_subtrees_leaf]
    exact ⟨ends.1, ih ends.2⟩
  | notIn _ ih =>
    simp only [List.forall_mem_cons] at ends
    obtain ⟨⟨begins, -⟩, ⟨-, stops⟩, later⟩ := ends
    rw [List.flatMap_cons, List.forall_mem_append, Tree.forall_subtrees_leaf]
    exact ⟨⟨begins, stops⟩, ih later⟩
  | @missing what trees tokens rest _ ih =>
    -- The mark stands before the next token, or at the end of the text.
    have place : holds (nextOffset textEnd tokens) := by
      cases tokens with
      | nil => exact last
      | cons token tokens => exact (ends token (by simp)).1
    rw [List.flatMap_cons, List.forall_mem_append, FilterLang.missing, Tree.expecting,
      Tree.forall_subtrees_leaf]
    exact ⟨⟨place, place⟩, ih ends⟩
  | @inner kind children trees tokens mid rest _ filled below _ ih more =>
    have read := ih ends
    have left : ∀ token ∈ mid, holds token.span.start ∧ holds token.span.stop :=
      fun token member => ends token (below.suffix.subset member)
    rw [List.flatMap_cons, List.forall_mem_append, subtrees_inner, List.forall_mem_cons]
    refine ⟨⟨inner_ends filled fun child member => ?_, read⟩, more left⟩
    exact read child (List.mem_flatMap.mpr ⟨child, member, child.self_mem_subtrees⟩)

/-- The tokens that are taken have their leaves, and no other leaf holds a byte. -/
theorem standFor (laid : Lays textEnd trees tokens rest) (ordered : InOrder textEnd tokens) :
    ∃ read, tokens = read ++ rest ∧ StandFor (trees.flatMap Tree.solidLeaves) read := by
  -- Induction on the layout; gaps have no width and so stand for nothing.
  induction laid with
  | nil => exact ⟨[], rfl, .nil⟩
  | @token word span kind trees tokens rest taken _ ih =>
    obtain ⟨filled, before, later⟩ := ordered
    obtain ⟨read, rfl, marks⟩ := ih later
    refine ⟨⟨word, span⟩ :: read, rfl, ?_⟩
    rw [List.flatMap_cons, Tree.solidLeaves_leaf filled]
    exact .token taken marks
  | @notIn first second trees tokens rest _ ih =>
    have reach := ordered.start_lt_stop
    obtain ⟨read, rfl, marks⟩ := ih ordered.2.2.2.2
    refine ⟨⟨.notWord, first⟩ :: ⟨.inWord, second⟩ :: read, rfl, ?_⟩
    rw [List.flatMap_cons, Tree.solidLeaves_leaf reach]
    exact .notIn marks
  | missing _ ih =>
    rw [List.flatMap_cons, solidLeaves_missing]
    exact ih ordered
  | @inner kind children trees tokens mid rest _ filled below _ ih more =>
    obtain ⟨early, rfl, marks⟩ := ih ordered
    obtain ⟨late, rfl, others⟩ := more (below.inOrder ordered)
    refine ⟨early ++ late, (List.append_assoc _ _ _).symm, ?_⟩
    rw [List.flatMap_cons, inner_eq_node, Tree.solidLeaves_node kind _ filled]
    exact marks.append others

end Lays

section Rules

variable (textEnd : Nat)

/-- The closing parenthesis lies over its token, or its mark over none. -/
theorem closing_lays (tokens : List Token) :
    Lays textEnd [(closing textEnd tokens).1] tokens (closing textEnd tokens).2 := by
  -- The parenthesis is there, or a gap stands for it.
  unfold closing
  split
  · exact .token rfl .nil
  · exact .missing .nil

/-- A scalar value lies over its literal, or its mark over none. -/
theorem scalar_lays (tokens : List Token) :
    Lays textEnd [(scalar textEnd tokens).1] tokens (scalar textEnd tokens).2 := by
  -- A literal stands under a node of its own; all else is a gap.
  fun_cases scalar textEnd tokens with
  | case1 => exact .missing .nil
  | case2 token rest kind literal =>
    exact .node rfl (by simp) (.token (leafKind?_of_literalKind? literal) .nil)
  | case3 token rest other => exact .missing .nil

/-- The items of a list lie over their literals and commas. -/
theorem listItems_lays (tokens : List Token) :
    Lays textEnd (listItems textEnd tokens).1 tokens (listItems textEnd tokens).2 := by
  -- An item that is there is one literal under two nodes.
  have item : ∀ {token : Token} {kind : NodeKind} {trees : List Tree} {tokens rest : List Token},
      literalKind? token.kind = some kind → Lays textEnd trees tokens rest →
      Lays textEnd (inner .listItem [scalarOf kind token.span] :: trees) (token :: tokens) rest :=
    fun literal more => .inner rfl (by simp)
      (.node rfl (by simp) (.token (leafKind?_of_literalKind? literal) .nil)) more
  fun_induction listItems textEnd tokens with
  | case1 => exact .missing .nil
  | case2 token kind literal _ span rest items left same ih =>
    rw [same] at ih
    exact item literal (.token rfl ih)
  | case3 token kind literal => exact item literal .nil
  | case4 token rest other _ divides items left same ih =>
    rw [same] at ih
    exact .missing (.token (by rw [divides]; rfl) ih)
  | case5 token rest other => exact .missing .nil

/-- A list literal lies over all its tokens, from the opening parenthesis on. -/
theorem listLiteral_lays (opening : Span) (tokens : List Token) :
    Lays textEnd [(listLiteral textEnd opening tokens).1] (⟨.openParen, opening⟩ :: tokens)
      (listLiteral textEnd opening tokens).2 := by
  -- Items and closing parenthesis follow each other, and an empty list has no items.
  fun_cases listLiteral textEnd opening tokens with
  | case1 items left listed close rest closed =>
    have laid : Lays textEnd items tokens left := by
      split at listed
      · cases listed
        exact .nil
      · simpa [listed] using listItems_lays textEnd tokens
    have ends : Lays textEnd [close] left rest := by
      simpa [closed] using closing_lays textEnd left
    exact .node rfl (by simp) (.token rfl (laid.append ends))

/-- What follows a membership operator lies over its tokens. -/
theorem membership_lays (tokens : List Token) :
    Lays textEnd [(membership textEnd tokens).1] tokens (membership textEnd tokens).2 := by
  -- A list, or a gap where it should begin.
  unfold membership
  split
  · exact listLiteral_lays textEnd _ _
  · exact .missing .nil

/-- The operator and the value of a comparison lie over their tokens. -/
theorem comparisonTail_lays (tokens : List Token) :
    Lays textEnd (comparisonTail textEnd tokens).1 tokens (comparisonTail textEnd tokens).2 := by
  -- The operators for lists come first, in one word or two; without an operator nothing is read.
  unfold comparisonTail
  split
  · exact .token rfl (membership_lays textEnd _)
  · exact .notIn (membership_lays textEnd _)
  · exact .nil
  · split
    · rename_i compares
      exact .token (leafKind?_of_comparisonSymbol? compares) (scalar_lays textEnd _)
    · exact .nil

/-- A comparison lies over its tokens, from the field name on. -/
theorem comparison_lays (name : String) (span : Span) (tokens : List Token) :
    Lays textEnd [(comparison textEnd span tokens).1] (⟨.identifier name, span⟩ :: tokens)
      (comparison textEnd span tokens).2 :=
  .node rfl (by simp) (.inner rfl (by simp) (.token rfl .nil) (comparisonTail_lays textEnd _))

/-- A call of an alias lies over its tokens, from the name on. -/
theorem aliasCall_lays (name : String) (span opening : Span) (tokens : List Token) :
    Lays textEnd [(aliasCall textEnd span opening tokens).1]
      (⟨.identifier name, span⟩ :: ⟨.openParen, opening⟩ :: tokens)
      (aliasCall textEnd span opening tokens).2 :=
  .node rfl (by simp) (.token rfl (.token rfl (closing_lays textEnd _)))

/-- A rule whose tree always lies over the tokens that the rule takes. -/
def Rule.IsLaid (rule : Rule) : Prop :=
  ∀ tokens, Lays textEnd [(rule tokens).1] tokens (rule tokens).2

variable {textEnd}

/-- A group lies over its tokens, from the opening parenthesis on. -/
theorem group_lays {inside : Option Rule} (laid : ∀ rule ∈ inside, rule.IsLaid textEnd)
    (opening : Span) (tokens : List Token) :
    Lays textEnd [(group textEnd inside opening tokens).1] (⟨.openParen, opening⟩ :: tokens)
      (group textEnd inside opening tokens).2 := by
  -- At the last level a gap stands in place of the inside.
  cases inside with
  | none => exact .node rfl (by simp) (.token rfl (.missing .nil))
  | some rule =>
    exact .node rfl (by simp) (.token rfl ((laid rule rfl tokens).append (closing_lays textEnd _)))

/-- A primary expression lies over its tokens. -/
theorem primary_isLaid {inside : Option Rule} (laid : ∀ rule ∈ inside, rule.IsLaid textEnd) :
    (primary textEnd inside).IsLaid textEnd := by
  -- The first token decides which body is read, and the body is the only child.
  intro tokens
  have body : Lays textEnd [(primaryBody textEnd inside tokens).1] tokens
      (primaryBody textEnd inside tokens).2 := by
    unfold primaryBody
    split
    · exact group_lays laid _ _
    · exact aliasCall_lays textEnd _ _ _ _
    · exact comparison_lays textEnd _ _ _
    · exact .missing .nil
  exact .node rfl (by simp) body

/-- Negations and their operand lie over their tokens. -/
theorem notExpression_isLaid {inside : Option Rule} (laid : ∀ rule ∈ inside, rule.IsLaid textEnd) :
    (notExpression textEnd inside).IsLaid textEnd := by
  intro tokens
  -- The negations are taken one by one until the operand comes.
  have flat : Lays textEnd
      ((tokens.takeWhile (·.kind == .notWord)).map (fun token => .leaf .notOp token.span) ++
        [(primary textEnd inside (tokens.dropWhile (·.kind == .notWord))).1]) tokens
      (primary textEnd inside (tokens.dropWhile (·.kind == .notWord))).2 := by
    induction tokens with
    | nil => exact primary_isLaid laid []
    | cons token tokens ih =>
      obtain ⟨kind, span⟩ := token
      by_cases negates : kind = .notWord
      · subst negates
        exact .token rfl ih
      · simpa [negates] using primary_isLaid laid (⟨kind, span⟩ :: tokens)
  exact .node rfl (by simp) flat

/-- What continues a chain lies over its tokens. -/
theorem chainTail_lays {operator : TokenKind} {mark : NodeKind} {operand : Rule}
    (marks : operator.leafKind? = some mark) (laid : operand.IsLaid textEnd) (rounds : Nat)
    (tokens : List Token) :
    Lays textEnd (chainTail operator mark operand rounds tokens).1 tokens
      (chainTail operator mark operand rounds tokens).2 := by
  -- Induction along the tail: each round takes a connective and an operand.
  fun_induction chainTail operator mark operand rounds tokens with
  | case1 => exact .nil
  | case2 => exact .nil
  | case3 rounds token rest same next left read more last continued ih =>
    have first : Lays textEnd [next] rest left := by simpa [read] using laid rest
    have behind : Lays textEnd more left last := by simpa [continued] using ih
    exact .token (same ▸ marks) (first.append behind)
  | case4 => exact .nil

/-- A chain lies over its tokens if its operands do. -/
theorem chain_isLaid {kind mark : NodeKind} {operator : TokenKind} {operand : Rule}
    (plain : kind.isError = false) (marks : operator.leafKind? = some mark)
    (laid : operand.IsLaid textEnd) : (chain kind operator mark operand).IsLaid textEnd :=
  fun tokens => .node plain (by simp) ((laid tokens).append (chainTail_lays marks laid _ _))

/-- A conjunction lies over its tokens if the insides of its groups do. -/
theorem andExpression_isLaid {inside : Option Rule}
    (laid : ∀ rule ∈ inside, rule.IsLaid textEnd) :
    (andExpression textEnd inside).IsLaid textEnd :=
  chain_isLaid rfl rfl (notExpression_isLaid laid)

/-- A disjunction lies over its tokens if the insides of its groups do. -/
theorem orExpression_isLaid {inside : Option Rule}
    (laid : ∀ rule ∈ inside, rule.IsLaid textEnd) :
    (orExpression textEnd inside).IsLaid textEnd :=
  chain_isLaid rfl rfl (andExpression_isLaid laid)

/-- A whole expression lies over its tokens if the insides of its groups do. -/
theorem expressionOver_isLaid {inside : Option Rule}
    (laid : ∀ rule ∈ inside, rule.IsLaid textEnd) :
    (expressionOver textEnd inside).IsLaid textEnd := fun tokens =>
  .node rfl (by simp) (orExpression_isLaid laid tokens)

/-- An expression lies over its tokens, however many groups may still be opened. -/
theorem expression_isLaid (levels : Nat) : (expression textEnd levels).IsLaid textEnd := by
  -- Induction on the levels; only the inside of groups differs from one to the next.
  induction levels with
  | zero => exact expressionOver_isLaid (by simp)
  | succ levels ih => exact expressionOver_isLaid (by simpa using ih)

end Rules

end FilterLang
