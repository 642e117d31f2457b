import FilterLang.Proofs.Grammar.Layout

/-! What stands below each node of a tree. -/

namespace FilterLang

/-- A tree of one of some kinds, or the mark that it is missing. -/
def Tree.IsAmong (kinds : List NodeKind) (tree : Tree) : Prop :=
  tree.kind ∈ kinds ∨ tree.kind.isError = true

/-- What can stand directly below a node of a kind. -/
inductive Formed : NodeKind → List Tree → Prop where
  | token {word : TokenKind} {kind : NodeKind} (taken : word.leafKind? = some kind) :
      Formed kind []
  | mark {kind : NodeKind} (error : kind.isError = true) : Formed kind []
  | field (name : Span) : Formed .field [.leaf .identifier name]
  | scalar {word : TokenKind} {kind : NodeKind} (literal : literalKind? word = some kind)
      (span : Span) : Formed .scalarValue [.leaf kind span]
  | item {value : Tree} (scalar : value.kind = .scalarValue) : Formed .listItem [value]
  | list (opening : Span) {items : List Tree} {close : Tree}
      (each : ∀ item ∈ items, item.IsAmong [.listItem, .comma])
      (closes : close.IsAmong [.closeParen]) :
      Formed .listLiteral (.leaf .openParen opening :: items ++ [close])
  | bare (name : Span) : Formed .comparison [fieldTree name]
  | compare (name operator : Span) {value : Tree} (valued : value.IsAmong [.scalarValue]) :
      Formed .comparison [fieldTree name, .leaf .compareOperator operator, value]
  | member (name operator : Span) {list : Tree} (listed : list.IsAmong [.listLiteral]) :
      Formed .comparison [fieldTree name, .leaf .inOperator operator, list]
  | call (name opening : Span) {close : Tree} (closes : close.IsAmong [.closeParen]) :
      Formed .aliasCall [.leaf .identifier name, .leaf .openParen opening, close]
  | group (opening : Span) {body close : Tree} (inside : body.kind = .expression)
      (closes : close.IsAmong [.closeParen]) :
      Formed .group [.leaf .openParen opening, body, close]
  -- Behind the deepest parenthesis that may be opened only a mark is put.
  | tooDeep (opening : Span) {mark : Tree} (error : mark.kind.isError = true) :
      Formed .group [.leaf .openParen opening, mark]
  | primary {body : Tree} (among : body.IsAmong [.group, .aliasCall, .comparison]) :
      Formed .primary [body]
  | negation (words : List Span) {operand : Tree} (kind : operand.kind = .primary) :
      Formed .notExpression (words.map (.leaf .notOp) ++ [operand])
  | conjunction {children : List Tree}
      (each : ∀ child ∈ children, child.kind ∈ [.notExpression, .andOp]) :
      Formed .andExpression children
  | disjunction {children : List Tree}
      (each : ∀ child ∈ children, child.kind ∈ [.andExpression, .orOp]) :
      Formed .orExpression children
  | expression {body : Tree} (kind : body.kind = .orExpression) : Formed .expression [body]
  | query {body : Tree} (kind : body.kind = .expression) (rest : List Token) :
      Formed .query (body :: leftOver rest)

/-- A tree in which every node has below it what its kind allows. -/
def Tree.IsFormed (tree : Tree) : Prop :=
  ∀ sub ∈ tree.subtrees, Formed sub.kind sub.children

section Nodes

/-- A node is formed if what it has below it is allowed and formed. -/
theorem isFormed_inner {kind : NodeKind} {children : List Tree} (allowed : Formed kind children)
    (below : ∀ child ∈ children, child.IsFormed) : (inner kind children).IsFormed := by
  -- The subtrees of an inner node are itself and those of its children.
  intro sub inside
  rw [subtrees_inner, List.mem_cons, List.mem_flatMap] at inside
  rcases inside with rfl | ⟨child, member, deeper⟩
  · rwa [inner_kind, inner_children]
  · exact below child member sub deeper

/-- The leaf of a token is formed. -/
theorem isFormed_leaf {word : TokenKind} {kind : NodeKind} (taken : word.leafKind? = some kind)
    (span : Span) : (Tree.leaf kind span).IsFormed := by
  -- Leaves over tokens are of the kinds that tokens have.
  rw [Tree.IsFormed, Tree.forall_subtrees_leaf]
  exact .token taken

/-- The mark of something missing is formed. -/
theorem isFormed_missing (textEnd : Nat) (what : String) (tokens : List Token) :
    (missing textEnd what tokens).IsFormed := by
  -- A gap is a leaf of an error kind.
  rw [Tree.IsFormed, missing, Tree.expecting, Tree.forall_subtrees_leaf]
  exact .mark rfl

/-- The mark of something missing stands for anything. -/
theorem isAmong_missing (kinds : List NodeKind) (textEnd : Nat) (what : String)
    (tokens : List Token) : (missing textEnd what tokens).IsAmong kinds :=
  .inr rfl

/-- The name of a field is formed. -/
theorem isFormed_fieldTree (name : Span) : (fieldTree name).IsFormed := by
  -- A field is an identifier under a node.
  refine isFormed_inner (.field name) ?_
  rw [List.forall_mem_singleton]
  exact @isFormed_leaf (.identifier "") _ rfl name

/-- A literal is formed. -/
theorem isFormed_scalarOf {word : TokenKind} {kind : NodeKind}
    (literal : literalKind? word = some kind) (span : Span) : (scalarOf kind span).IsFormed := by
  -- A scalar is one literal under a node.
  refine isFormed_inner (.scalar literal span) ?_
  rw [List.forall_mem_singleton]
  exact isFormed_leaf (leafKind?_of_literalKind? literal) span

end Nodes

section Rules

variable (textEnd : Nat)

/-- A closing parenthesis is one or its mark. -/
theorem closing_isFormed (tokens : List Token) :
    (closing textEnd tokens).1.IsFormed ∧ (closing textEnd tokens).1.IsAmong [.closeParen] := by
  -- The parenthesis or the gap in its place.
  unfold closing
  split
  · exact ⟨@isFormed_leaf .closeParen _ rfl _, .inl (by simp)⟩
  · exact ⟨isFormed_missing _ _ _, isAmong_missing _ _ _ _⟩

/-- The value of a comparison is one or its mark. -/
theorem scalar_isFormed (tokens : List Token) :
    (scalar textEnd tokens).1.IsFormed ∧ (scalar textEnd tokens).1.IsAmong [.scalarValue] := by
  -- A literal under its node, or a gap.
  fun_cases scalar textEnd tokens with
  | case1 => exact ⟨isFormed_missing _ _ _, isAmong_missing _ _ _ _⟩
  | case2 token rest kind literal =>
    exact ⟨isFormed_scalarOf literal token.span, .inl (by simp [scalarOf])⟩
  | case3 token rest other => exact ⟨isFormed_missing _ _ _, isAmong_missing _ _ _ _⟩

/-- The items of a list are values, commas and marks. -/
theorem listItems_isFormed (tokens : List Token) : ∀ tree ∈ (listItems textEnd tokens).1,
    tree.IsFormed ∧ tree.IsAmong [.listItem, .comma] := by
  -- A literal stands below two nodes, and a comma is a leaf.
  have item {word : TokenKind} {kind : NodeKind} (literal : literalKind? word = some kind)
      (span : Span) : (inner .listItem [scalarOf kind span]).IsFormed ∧
        (inner .listItem [scalarOf kind span]).IsAmong [.listItem, .comma] := by
    refine ⟨isFormed_inner (.item (by simp [scalarOf])) ?_, .inl (by simp)⟩
    rw [List.forall_mem_singleton]
    exact isFormed_scalarOf literal span
  have comma (span : Span) : (Tree.leaf .comma span).IsFormed ∧
      (Tree.leaf .comma span).IsAmong [.listItem, .comma] :=
    ⟨@isFormed_leaf .comma _ rfl span, .inl (by simp)⟩
  have absent (tokens : List Token) : (missing textEnd "list item" tokens).IsFormed ∧
      (missing textEnd "list item" tokens).IsAmong [.listItem, .comma] :=
    ⟨isFormed_missing _ _ _, isAmong_missing _ _ _ _⟩
  fun_induction listItems textEnd tokens with
  | case1 => simpa using absent []
  | case2 token kind literal _ span rest items left same ih =>
    rw [same] at ih
    simpa only [List.forall_mem_cons] using ⟨item literal token.span, comma span, ih⟩
  | case3 token kind literal => simpa using item literal token.span
  | case4 token rest other _ divides items left same ih =>
    rw [same] at ih
    simpa only [List.forall_mem_cons] using ⟨absent (token :: rest), comma token.span, ih⟩
  | case5 token rest other => simpa using absent (token :: rest)

/-- A list has its items between its parentheses. -/
theorem listLiteral_isFormed (opening : Span) (tokens : List Token) :
    (listLiteral textEnd opening tokens).1.IsFormed := by
  -- Items and closing parenthesis have each the kind that a list may hold.
  fun_cases listLiteral textEnd opening tokens with
  | case1 items left listed close rest closed =>
    have each : ∀ tree ∈ items, tree.IsFormed ∧ tree.IsAmong [.listItem, .comma] := by
      split at listed
      · cases listed
        simp
      · simpa [listed] using listItems_isFormed textEnd tokens
    have ends : close.IsFormed ∧ close.IsAmong [.closeParen] := by
      simpa [closed] using closing_isFormed textEnd left
    refine isFormed_inner (.list opening (fun item member => (each item member).2) ends.2) ?_
    simp only [List.cons_append, List.forall_mem_cons, List.forall_mem_append]
    exact ⟨@isFormed_leaf .openParen _ rfl opening, fun item member => (each item member).1,
      by simpa using ends.1⟩

/-- Behind a membership operator stands a list or its mark. -/
theorem membership_isFormed (tokens : List Token) :
    (membership textEnd tokens).1.IsFormed ∧
      (membership textEnd tokens).1.IsAmong [.listLiteral] := by
  -- A list or the gap in its place.
  unfold membership
  split
  · exact ⟨listLiteral_isFormed textEnd _ _, .inl (by simp [listLiteral])⟩
  · exact ⟨isFormed_missing _ _ _, isAmong_missing _ _ _ _⟩

/-- A comparison has its field first, and an operator only with a value or its mark. -/
theorem comparison_isFormed (name : Span) (tokens : List Token) :
    (comparison textEnd name tokens).1.IsFormed := by
  have field := isFormed_fieldTree name
  -- Both membership operators are leaves of one kind.
  have member (operator : Span) (rest : List Token) :
      (inner .comparison [fieldTree name, .leaf .inOperator operator,
        (membership textEnd rest).1]).IsFormed := by
    obtain ⟨formed, listed⟩ := membership_isFormed textEnd rest
    refine isFormed_inner (.member name operator listed) ?_
    simpa using ⟨field, @isFormed_leaf .inWord _ rfl operator, formed⟩
  have bare : (inner .comparison [fieldTree name]).IsFormed :=
    isFormed_inner (.bare name) (by simpa using field)
  simp only [comparison]
  fun_cases comparisonTail textEnd tokens with
  | case1 word rest list after read =>
    have formed := member word rest
    rwa [read] at formed
  | case2 negation word rest list after read =>
    have formed := member ⟨negation.start, word.stop⟩ rest
    rwa [read] at formed
  | case3 => exact bare
  | case4 token rest _ _ compares value after read =>
    have same : (scalar textEnd rest).1 = value := by rw [read]
    obtain ⟨formed, valued⟩ := scalar_isFormed textEnd rest
    rw [same] at formed valued
    refine isFormed_inner (.compare name token.span valued) ?_
    have operator := isFormed_leaf (leafKind?_of_comparisonSymbol? compares) token.span
    simpa using ⟨field, operator, formed⟩
  | case5 => exact bare

/-- A call has its name between no parentheses but its own. -/
theorem aliasCall_isFormed (name opening : Span) (tokens : List Token) :
    (aliasCall textEnd name opening tokens).1.IsFormed := by
  -- Name and parenthesis are there; the closing parenthesis may be a gap.
  obtain ⟨formed, closes⟩ := closing_isFormed textEnd tokens
  refine isFormed_inner (.call name opening closes) ?_
  simpa using ⟨@isFormed_leaf (.identifier "") _ rfl name, @isFormed_leaf .openParen _ rfl opening,
    formed⟩

/-- A rule that makes formed trees of a kind. -/
def Rule.Forms (rule : Rule) (kind : NodeKind) : Prop :=
  ∀ tokens, (rule tokens).1.IsFormed ∧ (rule tokens).1.kind = kind

variable {textEnd}

/-- A group has an expression between its parentheses, or is too deep for one. -/
theorem group_isFormed {inside : Option Rule} (forms : ∀ rule ∈ inside, rule.Forms .expression)
    (opening : Span) (tokens : List Token) :
    (group textEnd inside opening tokens).1.IsFormed := by
  -- At the last level a gap stands in place of the inside.
  have opens := @isFormed_leaf .openParen _ rfl opening
  cases inside with
  | none =>
    refine isFormed_inner (.tooDeep opening rfl) ?_
    simpa using ⟨opens, isFormed_missing textEnd "shallower nesting" tokens⟩
  | some rule =>
    obtain ⟨formed, kind⟩ := forms rule rfl tokens
    obtain ⟨ends, closes⟩ := closing_isFormed textEnd (rule tokens).2
    refine isFormed_inner (.group opening kind closes) ?_
    simpa using ⟨opens, formed, ends⟩

/-- Below a primary expression stands a group, a call or a comparison, or the mark of one. -/
theorem primary_forms {inside : Option Rule} (forms : ∀ rule ∈ inside, rule.Forms .expression) :
    (primary textEnd inside).Forms .primary := by
  -- The first token decides which body is read, and each is one that a primary may hold.
  intro tokens
  have body : (primaryBody textEnd inside tokens).1.IsFormed ∧
      (primaryBody textEnd inside tokens).1.IsAmong [.group, .aliasCall, .comparison] := by
    unfold primaryBody
    split
    · refine ⟨group_isFormed forms _ _, .inl ?_⟩
      cases inside <;> simp [group]
    · exact ⟨aliasCall_isFormed textEnd _ _ _, .inl (by simp [aliasCall])⟩
    · exact ⟨comparison_isFormed textEnd _ _, .inl (by simp [comparison])⟩
    · exact ⟨isFormed_missing _ _ _, isAmong_missing _ _ _ _⟩
  refine ⟨isFormed_inner (.primary body.2) ?_, by simp [primary]⟩
  simpa using body.1

/-- Negations stand before their one operand. -/
theorem notExpression_forms {inside : Option Rule}
    (forms : ∀ rule ∈ inside, rule.Forms .expression) :
    (notExpression textEnd inside).Forms .notExpression := by
  -- All marks come first, and the operand is the last child.
  intro tokens
  obtain ⟨formed, kind⟩ :=
    @primary_forms textEnd inside forms (tokens.dropWhile (·.kind == .notWord))
  have marks : (tokens.takeWhile (·.kind == .notWord)).map (fun token => .leaf .notOp token.span) =
      ((tokens.takeWhile (·.kind == .notWord)).map (·.span)).map (Tree.leaf .notOp) := by
    simp
  refine ⟨?_, by simp [notExpression]⟩
  simp only [notExpression]
  rw [marks]
  refine isFormed_inner (.negation _ kind) ?_
  simp only [List.forall_mem_append, List.forall_mem_map, List.forall_mem_singleton]
  exact ⟨fun token _ => @isFormed_leaf .notWord _ rfl token.span, formed⟩

/-- What continues a chain are formed operands and the words between them. -/
theorem chainTail_forms {operator : TokenKind} {mark kind : NodeKind} {operand : Rule}
    (marks : operator.leafKind? = some mark) (forms : operand.Forms kind) (rounds : Nat)
    (tokens : List Token) : ∀ tree ∈ (chainTail operator mark operand rounds tokens).1,
      tree.IsFormed ∧ tree.kind ∈ [kind, mark] := by
  -- Induction along the tail: connectives and operands alternate.
  fun_induction chainTail operator mark operand rounds tokens with
  | case1 => simp
  | case2 => simp
  | case3 rounds token rest same next left read more last continued ih =>
    have first := forms rest
    rw [read] at first
    rw [continued] at ih
    simp only [List.forall_mem_cons]
    exact ⟨⟨isFormed_leaf marks token.span, by simp⟩, ⟨first.1, by simp [first.2]⟩, ih⟩
  | case4 => simp

/-- A chain is formed if its operands are. -/
theorem chain_forms {above mark kind : NodeKind} {operator : TokenKind} {operand : Rule}
    (allowed : ∀ children : List Tree, (∀ child ∈ children, child.kind ∈ [kind, mark]) →
      Formed above children)
    (marks : operator.leafKind? = some mark) (forms : operand.Forms kind) :
    (chain above operator mark operand).Forms above := by
  -- First operand and tail hold nothing but operands and connectives.
  intro tokens
  have first := forms tokens
  have more := chainTail_forms marks forms (operand tokens).2.length (operand tokens).2
  have each : ∀ tree ∈ (operand tokens).1 ::
      (chainTail operator mark operand (operand tokens).2.length (operand tokens).2).1,
      tree.IsFormed ∧ tree.kind ∈ [kind, mark] := by
    rw [List.forall_mem_cons]
    exact ⟨⟨first.1, by simp [first.2]⟩, more⟩
  refine ⟨isFormed_inner (allowed _ fun tree member => (each tree member).2) ?_, by simp [chain]⟩
  exact fun tree member => (each tree member).1

/-- A whole expression is formed if the insides of its groups are. -/
theorem expressionOver_forms {inside : Option Rule}
    (forms : ∀ rule ∈ inside, rule.Forms .expression) :
    (expressionOver textEnd inside).Forms .expression := by
  -- Conjunctions stand over negations, disjunctions over conjunctions.
  intro tokens
  have conjunctions : (andExpression textEnd inside).Forms .andExpression :=
    chain_forms (fun _ each => .conjunction each) rfl (notExpression_forms forms)
  have disjunctions : (orExpression textEnd inside).Forms .orExpression :=
    chain_forms (fun _ each => .disjunction each) rfl conjunctions
  obtain ⟨formed, kind⟩ := disjunctions tokens
  exact ⟨isFormed_inner (.expression kind) (by simpa using formed), by simp [expressionOver]⟩

/-- An expression is formed, however many groups may still be opened. -/
theorem expression_forms (levels : Nat) : (expression textEnd levels).Forms .expression := by
  -- Induction on the levels; only the inside of groups differs from one to the next.
  induction levels with
  | zero => exact expressionOver_forms (by simp)
  | succ levels ih => exact expressionOver_forms (by simpa using ih)

end Rules

/-- What is left over is under one mark. -/
theorem isError_of_leftOver {rest : List Token} {sub : Tree}
    (inside : sub ∈ (leftOver rest).flatMap Tree.subtrees) :
    sub.children = [] ∧ sub.kind.isError = true := by
  -- What is left over is one leaf of an error kind.
  cases rest with
  | nil => simp [leftOver] at inside
  | cons first rest =>
    simp only [leftOver, Tree.expecting, Tree.leaf, List.flatMap_cons, List.flatMap_nil,
      List.append_nil, Tree.subtrees_node, List.mem_singleton] at inside
    rw [inside]
    exact ⟨rfl, rfl⟩

/-- Every node in the tree of a text has below it what its kind allows. -/
theorem parse_isFormed (text : String) : (parse text).IsFormed := by
  -- A subtree is the root, below the expression or the mark over what is left.
  obtain ⟨formed, kind⟩ :=
    @expression_forms (byteSize text) maxNesting (tokenize text)
  intro sub inside
  rw [parse, treeOf, Tree.subtrees_node, List.mem_cons, List.flatMap_cons, List.mem_append]
    at inside
  rcases inside with rfl | deeper | behind
  · exact .query kind _
  · exact formed sub deeper
  · obtain ⟨bare, error⟩ := isError_of_leftOver behind
    rw [bare]
    exact .mark error

end FilterLang
