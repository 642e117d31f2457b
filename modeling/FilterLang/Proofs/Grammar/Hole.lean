import FilterLang.Proofs.Grammar.Phrase

/-! Phrases with a primary expression cut out of them. -/

namespace FilterLang

/-- A phrase with a primary expression cut out of it. -/
inductive Hole : Category → Type where
  | here : Hole .primary
  | group (opening : Span) (inside : Hole (.chain .or)) (closing : Span) : Hole .primary
  | plain (operand : Hole .primary) : Hole .negation
  | negated (word : Span) (operand : Hole .negation) : Hole .negation
  | single {connective : Connective} (operand : Hole connective.operand) : Hole (.chain connective)
  | left {connective : Connective} (left : Hole (.chain connective)) (word : Span)
      (right : Phrase connective.operand) : Hole (.chain connective)
  | right {connective : Connective} (left : Phrase (.chain connective)) (word : Span)
      (right : Hole connective.operand) : Hole (.chain connective)

namespace Hole

/-- The phrase with an expression put where one was cut out. -/
def fill (expression : Phrase .primary) : {category : Category} → Hole category → Phrase category
  | _, here => expression
  | _, group opening inside closing => .group opening (inside.fill expression) closing
  | _, plain operand => .plain (operand.fill expression)
  | _, negated word operand => .negated word (operand.fill expression)
  | _, single operand => .single (operand.fill expression)
  | _, left first word second => .join (first.fill expression) word second
  | _, right first word second => .join first word (second.fill expression)

/-- The tokens before the place of the cut. -/
def before : {category : Category} → Hole category → List Token
  | _, here => []
  | _, group opening inside _ => ⟨.openParen, opening⟩ :: inside.before
  | _, plain operand => operand.before
  | _, negated word operand => ⟨.notWord, word⟩ :: operand.before
  | _, single operand => operand.before
  | _, left first _ _ => first.before
  | _, @right connective first word second =>
    first.tokens ++ ⟨connective.word, word⟩ :: second.before

/-- The tokens behind the place of the cut. -/
def behind : {category : Category} → Hole category → List Token
  | _, here => []
  | _, group _ inside closing => inside.behind ++ [⟨.closeParen, closing⟩]
  | _, plain operand => operand.behind
  | _, negated _ operand => operand.behind
  | _, single operand => operand.behind
  | _, @left connective first word second =>
    first.behind ++ ⟨connective.word, word⟩ :: second.tokens
  | _, right _ _ second => second.behind

/-- A filled phrase has the tokens of the expression where it was put. -/
theorem tokens_fill (expression : Phrase .primary) {category : Category} (hole : Hole category) :
    (hole.fill expression).tokens = hole.before ++ (expression.tokens ++ hole.behind) := by
  -- Induction along the way to the hole: at each step tokens are added on one side or both.
  induction hole with
  | here => simp [fill, before, behind]
  | group opening inside closing ih => simp [fill, before, behind, Phrase.tokens, ih]
  | plain operand ih => simp [fill, before, behind, Phrase.tokens, ih]
  | negated word operand ih => simp [fill, before, behind, Phrase.tokens, ih]
  | single operand ih => simp [fill, before, behind, Phrase.tokens, ih]
  | left first word second ih => simp [fill, before, behind, Phrase.tokens, ih]
  | right first word second ih => simp [fill, before, behind, Phrase.tokens, ih]

end Hole

/-- The tree of a call. -/
def callTree (name opening closing : Span) : Tree :=
  inner .aliasCall [.leaf .identifier name, .leaf .openParen opening, .leaf .closeParen closing]

/-- The nodes of some kinds in a tree, each ahead of those below it. -/
def Tree.ofKinds (among : NodeKind → Bool) (tree : Tree) : List Tree :=
  tree.subtrees.filter (among ·.kind)

section OfKinds

variable {among : NodeKind → Bool}

/-- A leaf of another kind holds no such node. -/
theorem Tree.ofKinds_leaf {kind : NodeKind} (other : among kind = false) (span : Span) :
    (Tree.leaf kind span).ofKinds among = [] := by
  simp [Tree.ofKinds, Tree.leaf, other]

/-- A node of another kind holds those of its children. -/
theorem Tree.ofKinds_node {kind : NodeKind} (other : among kind = false) (span : Span)
    (children : List Tree) :
    (Tree.node kind span children).ofKinds among = children.flatMap (Tree.ofKinds among) := by
  -- The node itself is dropped by the filter, and what is left lies below the children.
  rw [Tree.ofKinds, Tree.subtrees_node, List.filter_cons_of_neg (by simpa using other),
    List.filter_flatMap]
  rfl

/-- An inner node of another kind holds those of its children. -/
theorem ofKinds_inner {kind : NodeKind} (other : among kind = false) (children : List Tree) :
    (inner kind children).ofKinds among = children.flatMap (Tree.ofKinds among) := by
  rw [inner_eq_node, Tree.ofKinds_node other]

/-- An inner node of such a kind comes ahead of those of its children. -/
theorem ofKinds_inner_of_pos {kind : NodeKind} (own : among kind = true) (children : List Tree) :
    (inner kind children).ofKinds among =
      inner kind children :: children.flatMap (Tree.ofKinds among) := by
  -- A node that counts comes before all that is below it.
  rw [Tree.ofKinds, subtrees_inner, List.filter_cons_of_pos (by simpa using own),
    List.filter_flatMap]
  rfl

/-- The tree of a scalar holds only the node of a scalar and that of a literal. -/
theorem Scalar.ofKinds_tree (scalar : Scalar) (other : among .scalarValue = false)
    (none : ∀ literal : Literal, among literal.nodeKind = false) :
    scalar.tree.ofKinds among = [] := by
  -- Neither the node over a literal nor the literal counts.
  rw [Scalar.tree, scalarOf, ofKinds_inner other, List.flatMap_singleton]
  exact Tree.ofKinds_leaf (none _) _

/-- The trees of a list's inside hold only commas and the nodes of items and scalars. -/
theorem Listing.ofKinds_trees (listing : Listing) (item : among .listItem = false)
    (comma : among .comma = false) (other : among .scalarValue = false)
    (none : ∀ literal : Literal, among literal.nodeKind = false) :
    listing.trees.flatMap (Tree.ofKinds among) = [] := by
  -- Induction on the items; neither they nor the commas count.
  have single (scalar : Scalar) : scalar.itemTree.ofKinds among = [] := by
    rw [Scalar.itemTree, ofKinds_inner item, List.flatMap_singleton]
    exact scalar.ofKinds_tree other none
  cases listing with
  | none => rfl
  | some items =>
    simp only [Listing.trees, Option.map_some, Option.getD_some]
    induction items with
    | last scalar => simp [Items.trees, single]
    | more scalar between rest ih => simp [Items.trees, single, Tree.ofKinds_leaf comma, ih]

end OfKinds

/-- The calls in a tree. -/
def Tree.calls (tree : Tree) : List Tree :=
  tree.subtrees.filter (·.kind == .aliasCall)

/-- The calls are the nodes of one kind. -/
theorem Tree.calls_eq : Tree.calls = Tree.ofKinds (· == .aliasCall) :=
  rfl

/-- A leaf of another kind holds no call. -/
@[simp] theorem Tree.calls_leaf {kind : NodeKind} (other : kind ≠ .aliasCall) (span : Span) :
    (Tree.leaf kind span).calls = [] := by
  rw [Tree.calls_eq]
  exact Tree.ofKinds_leaf (by simpa using other) span

/-- A node of another kind holds the calls of its children. -/
@[simp] theorem Tree.calls_node {kind : NodeKind} (other : kind ≠ .aliasCall) (span : Span)
    (children : List Tree) :
    (Tree.node kind span children).calls = children.flatMap Tree.calls := by
  rw [Tree.calls_eq]
  exact Tree.ofKinds_node (by simpa using other) span children

/-- An inner node of another kind holds the calls of its children. -/
@[simp] theorem calls_inner {kind : NodeKind} (other : kind ≠ .aliasCall) (children : List Tree) :
    (inner kind children).calls = children.flatMap Tree.calls := by
  rw [inner_eq_node, Tree.calls_node other]

/-- The tree of a call holds that call alone. -/
@[simp] theorem calls_callTree (name opening closing : Span) :
    (callTree name opening closing).calls = [callTree name opening closing] := by
  simp [Tree.calls, callTree, Tree.leaf]

/-- The tree of a scalar holds no call. -/
@[simp] theorem Scalar.calls_tree (scalar : Scalar) : scalar.tree.calls = [] := by
  rw [Tree.calls_eq]
  exact scalar.ofKinds_tree rfl fun literal => by cases literal <;> rfl

/-- The trees of a list's inside hold no call. -/
@[simp] theorem Listing.calls_trees (listing : Listing) :
    listing.trees.flatMap Tree.calls = [] := by
  rw [Tree.calls_eq]
  exact listing.ofKinds_trees rfl rfl rfl fun literal => by cases literal <;> rfl

/-- No phrase's node is a call. -/
@[simp] theorem Category.nodeKind_ne_aliasCall (category : Category) :
    category.nodeKind ≠ .aliasCall := by
  -- A chain has two node kinds, none of which is a call's.
  cases category with
  | chain connective => cases connective <;> nofun
  | _ => nofun

/-- No word between operands is a call. -/
@[simp] theorem Connective.mark_ne_aliasCall (connective : Connective) :
    connective.mark ≠ .aliasCall := by
  cases connective <;> nofun

/-- Every call in the tree of a phrase is a call in the phrase. -/
theorem Phrase.exists_hole {category : Category} (phrase : Phrase category) {node : Tree}
    (member : node ∈ phrase.parts.flatMap Tree.calls) :
    ∃ (hole : Hole category) (name : String) (span opening closing : Span),
      phrase = hole.fill (.call name span opening closing) ∧
        node = callTree span opening closing := by
  -- The way down to the node passes the same parts as the way down to the cut.
  induction phrase with
  | bare name span => simp [Phrase.parts, fieldTree] at member
  | compare name span comparator operator value => simp [Phrase.parts, fieldTree] at member
  | member name span membership opening listing closing =>
    simp [Phrase.parts, fieldTree, listTree] at member
  | call name span opening closing =>
    -- The whole phrase is the call, so nothing is left around it.
    have found : node ∈ [callTree span opening closing].flatMap Tree.calls := member
    exact ⟨.here, name, span, opening, closing, rfl, by simpa using found⟩
  | group opening inside closing ih =>
    obtain ⟨hole, name, span, open', close', rfl, same⟩ := ih (by simpa [Phrase.parts] using member)
    exact ⟨.group opening hole closing, name, span, open', close', rfl, same⟩
  | plain operand ih =>
    obtain ⟨hole, name, span, opening, closing, rfl, same⟩ := ih (by
      simpa [Phrase.parts] using member)
    exact ⟨.plain hole, name, span, opening, closing, rfl, same⟩
  | negated word operand ih =>
    obtain ⟨hole, name, span, opening, closing, rfl, same⟩ := ih (by
      simpa [Phrase.parts] using member)
    exact ⟨.negated word hole, name, span, opening, closing, rfl, same⟩
  | single operand ih =>
    obtain ⟨hole, name, span, opening, closing, rfl, same⟩ := ih (by
      simpa [Phrase.parts] using member)
    exact ⟨.single hole, name, span, opening, closing, rfl, same⟩
  | join first word second ihFirst ihSecond =>
    -- The word between the operands is no call, so the node is below one of them.
    have either : (∃ tree ∈ first.parts, node ∈ tree.calls) ∨
        ∃ tree ∈ second.parts, node ∈ tree.calls := by
      simpa [Phrase.parts] using member
    rcases either with early | late
    · obtain ⟨hole, name, span, opening, closing, rfl, same⟩ := ihFirst (by simpa using early)
      exact ⟨.left hole word second, name, span, opening, closing, rfl, same⟩
    · obtain ⟨hole, name, span, opening, closing, rfl, same⟩ := ihSecond (by simpa using late)
      exact ⟨.right first word hole, name, span, opening, closing, rfl, same⟩

end FilterLang
