import FilterLang.Proofs.Grammar.Comparison

/-! The grammar reads exactly the phrases that derive its tokens. -/

namespace FilterLang

/-- The rule for the inside of a group that lies within so many further levels. -/
def insideAt (textEnd : Nat) : Nat → Option Rule
  | 0 => none
  | levels + 1 => some (expression textEnd levels)

/-- An expression is a disjunction under one more node. -/
theorem expression_eq (textEnd levels : Nat) (tokens : List Token) :
    expression textEnd levels tokens =
      (inner .expression [(orExpression textEnd (insideAt textEnd levels) tokens).1],
        (orExpression textEnd (insideAt textEnd levels) tokens).2) := by
  cases levels <;> rfl

/-- The outermost disjunction of a text, and the tokens that it leaves. -/
abbrev disjunctionOf (text : String) : Tree × List Token :=
  orExpression (byteSize text) (insideAt (byteSize text) maxNesting) (tokenize text)

/-- The tree of a text is its outermost disjunction with the mark over the tokens left behind it. -/
theorem parse_eq (text : String) : parse text = .node .query ⟨0, byteSize text⟩
    (inner .expression [(disjunctionOf text).1] :: leftOver (disjunctionOf text).2) := by
  rw [parse, treeOf, expression_eq]

/-- A group within the levels that are left holds a disjunction and a closing parenthesis. -/
theorem group_succ (textEnd below : Nat) (opening : Span) (tokens : List Token) :
    group textEnd (insideAt textEnd (below + 1)) opening tokens =
      (inner .group [.leaf .openParen opening,
        inner .expression [(orExpression textEnd (insideAt textEnd below) tokens).1],
        (closing textEnd (orExpression textEnd (insideAt textEnd below) tokens).2).1],
      (closing textEnd (orExpression textEnd (insideAt textEnd below) tokens).2).2) := by
  -- With a level left, the inside is an expression one level down.
  show group textEnd (some (expression textEnd below)) opening tokens = _
  simp only [group, expression_eq]

/--
A rule reads exactly the phrases of a category that open no more than so many groups.

It takes the tokens of such a phrase wherever the phrase ends, and it leaves an error mark unless
there was one.
-/
structure Recognizes (rule : Rule) (levels : Nat) (category : Category) : Prop where
  complete : ∀ (phrase : Phrase category) (rest : List Token), phrase.nesting ≤ levels →
    category.EndsBefore rest → rule (phrase.tokens ++ rest) = (phrase.tree, rest)
  sound : ∀ tokens, (rule tokens).1.hasError = false →
    ∃ phrase : Phrase category, phrase.nesting ≤ levels ∧
      phrase.tokens ++ (rule tokens).2 = tokens ∧ phrase.tree = (rule tokens).1

/-- A name that no parenthesis follows begins a comparison. -/
theorem primary_comparison (textEnd : Nat) (inside : Option Rule) (name : String) (span : Span)
    {tokens : List Token} (apart : ∀ opening rest, tokens ≠ ⟨.openParen, opening⟩ :: rest) :
    primary textEnd inside (⟨.identifier name, span⟩ :: tokens) =
      (inner .primary [inner .comparison (fieldTree span :: (comparisonTail textEnd tokens).1)],
        (comparisonTail textEnd tokens).2) := by
  simp only [primary, primaryBody, comparison, fieldTree]

/-- Every primary phrase is read, a group when its inside is. -/
theorem primary_complete {textEnd levels : Nat}
    (inside : ∀ below, levels = below + 1 →
      Recognizes (orExpression textEnd (insideAt textEnd below)) below (.chain .or))
    (phrase : Phrase .primary) (rest : List Token) (shallow : phrase.nesting ≤ levels)
    (ends : Category.primary.EndsBefore rest) :
    primary textEnd (insideAt textEnd levels) (phrase.tokens ++ rest) = (phrase.tree, rest) := by
  cases phrase with
  | bare name span =>
    -- A parenthesis behind the name would make it a call.
    have apart : ∀ opening after, rest ≠ ⟨.openParen, opening⟩ :: after := by
      rintro opening after rfl
      simp [Category.EndsBefore, Category.mayPrecede] at ends
    simp only [Phrase.tokens, List.cons_append, List.nil_append]
    rw [primary_comparison _ _ _ _ apart, comparisonTail_ends textEnd ends]
    rfl
  | compare name span comparator operator value =>
    have apart : ∀ opening after, ⟨comparator.kind, operator⟩ :: value.token :: rest
        ≠ ⟨.openParen, opening⟩ :: after := by
      cases comparator <;> simp [Comparator.kind]
    simp only [Phrase.tokens, List.cons_append, List.nil_append]
    rw [primary_comparison _ _ _ _ apart, comparisonTail_compare]
    rfl
  | member name span operator opening listing close =>
    have apart : ∀ first after, operator.tokens ++ ⟨.openParen, opening⟩ ::
        (listing.tokens ++ ⟨.closeParen, close⟩ :: rest) ≠ ⟨.openParen, first⟩ :: after := by
      cases operator <;> simp [Membership.tokens]
    simp only [Phrase.tokens, List.cons_append, List.append_assoc, List.nil_append]
    rw [primary_comparison _ _ _ _ apart, comparisonTail_member]
    rfl
  | call name span opening close => rfl
  | group opening body close =>
    -- A group takes one of the levels that are left.
    cases levels with
    | zero => simp [Phrase.nesting] at shallow
    | succ below =>
      have read := (inside below rfl).complete body (⟨.closeParen, close⟩ :: rest)
        (Nat.le_of_succ_le_succ shallow) rfl
      simp only [Phrase.tokens, List.cons_append, List.append_assoc, List.nil_append, primary,
        primaryBody, group_succ, read]
      rfl

/-- What is read as a primary phrase without an error is one. -/
theorem primary_sound {textEnd levels : Nat}
    (inside : ∀ below, levels = below + 1 →
      Recognizes (orExpression textEnd (insideAt textEnd below)) below (.chain .or))
    {tokens : List Token}
    (clean : (primary textEnd (insideAt textEnd levels) tokens).1.hasError = false) :
    ∃ phrase : Phrase .primary, phrase.nesting ≤ levels ∧
      phrase.tokens ++ (primary textEnd (insideAt textEnd levels) tokens).2 = tokens ∧
      phrase.tree = (primary textEnd (insideAt textEnd levels) tokens).1 := by
  revert clean
  simp only [primary, hasError_inner]
  -- One case for each way in which the first two tokens decide what is read.
  fun_cases primaryBody textEnd (insideAt textEnd levels) tokens with
  | case1 opening rest =>
    intro clean
    cases levels with
    -- On the last level an open group is marked as too deep.
    | zero => simp [insideAt, group] at clean
    | succ below =>
      simp only [group_succ] at clean ⊢
      -- Neither the inside nor the closing parenthesis left a mark.
      simp only [List.any_cons, List.any_nil, hasError_inner, Bool.or_eq_false_iff] at clean
      obtain ⟨-, ⟨-, -, ⟨-, filled, -⟩, closed, -⟩, -⟩ := clean
      obtain ⟨body, shallow, read, tree⟩ := (inside below rfl).sound rest filled
      obtain ⟨close, consumed, leaf⟩ := closing_sound closed
      refine ⟨.group opening body close, Nat.succ_le_succ shallow, ?_, ?_⟩
      · simp [Phrase.tokens, ← consumed, read]
      · rw [← tree, leaf]
        rfl
  | case2 name span opening rest =>
    intro clean
    have closed : (closing textEnd rest).1.hasError = false := by simp_all [aliasCall]
    obtain ⟨close, consumed, leaf⟩ := closing_sound closed
    refine ⟨.call name span opening close, Nat.zero_le levels, ?_, ?_⟩
    · simp [Phrase.tokens, aliasCall, ← consumed]
    · simp [Phrase.tree, Phrase.parts, aliasCall, leaf, Category.nodeKind]
  | case3 name span rest apart =>
    intro clean
    have compared : (comparison textEnd span rest).1.hasError = false := by simp_all
    obtain ⟨phrase, flat, consumed, parts⟩ := comparison_sound name compared
    exact ⟨phrase, by omega, consumed, by simp [Phrase.tree, parts, Category.nodeKind]⟩
  | case4 tokens => simp

/-- A primary phrase begins with a name or a parenthesis, never with a negation. -/
theorem primary_tokens_head (phrase : Phrase .primary) :
    ∃ token rest, phrase.tokens = token :: rest ∧ (token.kind == .notWord) = false := by
  cases phrase <;> exact ⟨_, _, rfl, rfl⟩

/-- A negation is read in front of whatever is read behind it. -/
theorem notExpression_negated (textEnd : Nat) (inside : Option Rule) (word : Span)
    (tokens : List Token) :
    notExpression textEnd inside (⟨.notWord, word⟩ :: tokens) =
      (inner .notExpression
        (.leaf .notOp word :: (notExpression textEnd inside tokens).1.children),
      (notExpression textEnd inside tokens).2) := by
  simp [notExpression]

/-- Without a negation in front, a primary phrase is read. -/
theorem notExpression_plain (textEnd : Nat) (inside : Option Rule) {tokens : List Token}
    (apart : ∀ token ∈ tokens.head?, (token.kind == .notWord) = false) :
    notExpression textEnd inside tokens =
      (inner .notExpression [(primary textEnd inside tokens).1],
        (primary textEnd inside tokens).2) := by
  -- No mark stands in front of the first token, so none is read.
  cases tokens with
  | nil => rfl
  | cons token rest =>
    have other := apart token rfl
    simp [notExpression, other]

/-- Every phrase behind negations is read, if the primary phrases are. -/
theorem notExpression_complete {textEnd levels : Nat} {inside : Option Rule}
    (operands : Recognizes (primary textEnd inside) levels .primary) :
    ∀ (phrase : Phrase .negation) (rest : List Token), phrase.nesting ≤ levels →
      Category.negation.EndsBefore rest →
      notExpression textEnd inside (phrase.tokens ++ rest) = (phrase.tree, rest)
  -- Recursion on the derivation: marks are read one by one, and then the operand.
  | .plain operand, rest, shallow, ends => by
    obtain ⟨token, more, first, other⟩ := primary_tokens_head operand
    rw [notExpression_plain _ _ (by simpa [Phrase.tokens, first] using other)]
    simp only [Phrase.tokens, operands.complete operand rest shallow ends.primary]
    rfl
  | .negated word operand, rest, shallow, ends => by
    have read := notExpression_complete operands operand rest shallow ends
    simp only [Phrase.tokens, List.cons_append, notExpression_negated, read]
    simp [Phrase.tree, Phrase.parts, Category.nodeKind]

/-- What is read without a negation in front and without an error is a phrase. -/
theorem notExpression_sound_plain {textEnd levels : Nat} {inside : Option Rule}
    (operands : Recognizes (primary textEnd inside) levels .primary) {tokens : List Token}
    (apart : ∀ token ∈ tokens.head?, (token.kind == .notWord) = false)
    (clean : (notExpression textEnd inside tokens).1.hasError = false) :
    ∃ phrase : Phrase .negation, phrase.nesting ≤ levels ∧
      phrase.tokens ++ (notExpression textEnd inside tokens).2 = tokens ∧
      phrase.tree = (notExpression textEnd inside tokens).1 := by
  -- The operand's rule gives the derivation of the operand, which is the only child.
  rw [notExpression_plain _ _ apart] at clean ⊢
  have filled : (primary textEnd inside tokens).1.hasError = false := by simp_all
  obtain ⟨phrase, shallow, read, tree⟩ := operands.sound tokens filled
  refine ⟨.plain phrase, shallow, read, ?_⟩
  simp [Phrase.tree, Phrase.parts, ← tree, Category.nodeKind]

/-- What is read behind negations without an error is a phrase. -/
theorem notExpression_sound {textEnd levels : Nat} {inside : Option Rule}
    (operands : Recognizes (primary textEnd inside) levels .primary) (tokens : List Token)
    (clean : (notExpression textEnd inside tokens).1.hasError = false) :
    ∃ phrase : Phrase .negation, phrase.nesting ≤ levels ∧
      phrase.tokens ++ (notExpression textEnd inside tokens).2 = tokens ∧
      phrase.tree = (notExpression textEnd inside tokens).1 := by
  -- The induction takes one negation off the front at a time.
  induction tokens with
  | nil => exact notExpression_sound_plain operands (by simp) clean
  | cons token rest ih =>
    by_cases negation : token.kind = .notWord
    · obtain ⟨kind, word⟩ := token
      obtain rfl : kind = .notWord := negation
      rw [notExpression_negated] at clean ⊢
      have behind : (notExpression textEnd inside rest).1.hasError = false := by
        simp [notExpression] at clean ⊢
        exact clean.2
      obtain ⟨phrase, shallow, read, tree⟩ := ih behind
      refine ⟨.negated word phrase, shallow, ?_, ?_⟩
      · simp [Phrase.tokens, read]
      · simp [Phrase.tree, Phrase.parts, ← tree, Category.nodeKind]
    · exact notExpression_sound_plain operands (by simpa using negation) clean

/-- The rule for negations reads exactly the phrases behind them. -/
theorem notExpression_recognizes {textEnd levels : Nat} {inside : Option Rule}
    (operands : Recognizes (primary textEnd inside) levels .primary) :
    Recognizes (notExpression textEnd inside) levels .negation :=
  ⟨notExpression_complete operands, notExpression_sound operands⟩

/-- The tokens of the operators and operands that continue a chain. -/
def linkTokens {connective : Connective} (links : List (Span × Phrase connective.operand)) :
    List Token :=
  links.flatMap fun link => ⟨connective.word, link.1⟩ :: link.2.tokens

/-- The trees of the operators and operands that continue a chain. -/
def linkTrees {connective : Connective} (links : List (Span × Phrase connective.operand)) :
    List Tree :=
  links.flatMap fun link => [.leaf connective.mark link.1, link.2.tree]

/-- A chain is an operand and the links that continue it. -/
theorem exists_links {connective : Connective} : ∀ phrase : Phrase (.chain connective),
    ∃ (first : Phrase connective.operand) (links : List (Span × Phrase connective.operand)),
      phrase.tokens = first.tokens ++ linkTokens links ∧
      phrase.parts = first.tree :: linkTrees links ∧
      first.nesting ≤ phrase.nesting ∧ ∀ link ∈ links, link.2.nesting ≤ phrase.nesting
  -- A chain leans to the left, and its links are gathered in the order of the text.
  | .single operand =>
    ⟨operand, [], by simp [Phrase.tokens, linkTokens], rfl, Nat.le_refl _, by simp⟩
  | .join left word right => by
    obtain ⟨first, links, tokens, parts, low, lows⟩ := exists_links left
    have fromLeft : left.nesting ≤ (left.join word right).nesting := Nat.le_max_left _ _
    have fromRight : right.nesting ≤ (left.join word right).nesting := Nat.le_max_right _ _
    refine ⟨first, links ++ [(word, right)], ?_, ?_, Nat.le_trans low fromLeft, ?_⟩
    · simp [Phrase.tokens, tokens, linkTokens]
    · simp [Phrase.parts, parts, linkTrees, Phrase.tree]
    · intro link member
      simp only [List.mem_append, List.mem_singleton] at member
      rcases member with member | rfl
      · exact Nat.le_trans (lows link member) fromLeft
      · exact fromRight

/-- A chain goes on as long as links follow it. -/
theorem exists_chain {connective : Connective} {levels : Nat}
    (links : List (Span × Phrase connective.operand))
    (lows : ∀ link ∈ links, link.2.nesting ≤ levels) (phrase : Phrase (.chain connective))
    (low : phrase.nesting ≤ levels) :
    ∃ whole : Phrase (.chain connective), whole.nesting ≤ levels ∧
      whole.tokens = phrase.tokens ++ linkTokens links ∧
      whole.parts = phrase.parts ++ linkTrees links := by
  -- Each link lengthens the chain at its end.
  induction links generalizing phrase with
  | nil => exact ⟨phrase, low, by simp [linkTokens], by simp [linkTrees]⟩
  | cons link links ih =>
    have longer : (phrase.join link.1 link.2).nesting ≤ levels :=
      Nat.max_le.mpr ⟨low, lows link (by simp)⟩
    obtain ⟨whole, shallow, tokens, parts⟩ :=
      ih (fun other member => lows other (by simp [member])) _ longer
    refine ⟨whole, shallow, ?_, ?_⟩
    · simp [tokens, Phrase.tokens, linkTokens]
    · simp [parts, Phrase.parts, linkTrees, Phrase.tree]

/-- An operand ends before the links that follow it, or where the chain ends. -/
theorem endsBefore_links {connective : Connective} {rest : List Token}
    (ends : (Category.chain connective).EndsBefore rest)
    (links : List (Span × Phrase connective.operand)) :
    connective.operand.EndsBefore (linkTokens links ++ rest) := by
  -- What comes next is the chain's own operator, or what follows the whole chain.
  cases links with
  | nil => simpa [linkTokens] using ends.operand
  | cons link links => exact Category.EndsBefore.word connective link.1 _

/-- Every link has at least the token of its operator. -/
theorem length_le_linkTokens {connective : Connective}
    (links : List (Span × Phrase connective.operand)) :
    links.length ≤ (linkTokens links).length := by
  -- Induction on the links, with one token counted for each.
  induction links with
  | nil => exact Nat.le_refl 0
  | cons link links ih =>
    simp only [linkTokens, List.flatMap_cons, List.length_append, List.length_cons] at ih ⊢
    omega

/-- The links of a chain are read up to its end, within as many rounds as there are links. -/
theorem chainTail_complete {connective : Connective} {levels : Nat} {operand : Rule}
    (operands : Recognizes operand levels connective.operand) {rest : List Token}
    (ends : (Category.chain connective).EndsBefore rest)
    (links : List (Span × Phrase connective.operand))
    (lows : ∀ link ∈ links, link.2.nesting ≤ levels) (rounds : Nat)
    (enough : links.length ≤ rounds) :
    chainTail connective.word connective.mark operand rounds (linkTokens links ++ rest)
      = (linkTrees links, rest) := by
  induction links generalizing rounds with
  | nil =>
    -- What follows is no operator of this chain, so nothing is taken.
    simp only [linkTokens, linkTrees, List.flatMap_nil, List.nil_append]
    cases rounds with
    | zero => rfl
    | succ rounds =>
      cases rest with
      | nil => rfl
      | cons token rest => simp [chainTail, ends.kind_ne]
  | cons link links ih =>
    obtain ⟨word, right⟩ := link
    cases rounds with
    | zero => simp at enough
    | succ rounds =>
      -- The operand of the first link is read up to the next link, and one round is used up.
      have read := operands.complete right _ (lows (word, right) (by simp))
        (endsBefore_links ends links)
      have others := ih (fun other member => lows other (by simp [member])) rounds
        (Nat.le_of_succ_le_succ enough)
      simp only [linkTokens, linkTrees, List.flatMap_cons, List.cons_append, List.append_assoc,
        List.nil_append, chainTail, if_true] at read others ⊢
      rw [read, others]

/-- Links read without an error are operators with their operands. -/
theorem chainTail_sound {connective : Connective} {levels : Nat} {operand : Rule}
    (operands : Recognizes operand levels connective.operand) (rounds : Nat) (tokens : List Token)
    (clean : (chainTail connective.word connective.mark operand rounds tokens).1.any Tree.hasError
      = false) :
    ∃ links : List (Span × Phrase connective.operand),
      (∀ link ∈ links, link.2.nesting ≤ levels) ∧
      linkTokens links ++ (chainTail connective.word connective.mark operand rounds tokens).2
        = tokens ∧
      linkTrees links = (chainTail connective.word connective.mark operand rounds tokens).1 := by
  -- The induction follows the reader from operator to operator.
  fun_induction chainTail connective.word connective.mark operand rounds tokens with
  | case1 tokens => exact ⟨[], by simp, by simp [linkTokens], rfl⟩
  | case2 rounds => exact ⟨[], by simp, by simp [linkTokens], rfl⟩
  | case3 rounds token rest same next after read more remaining others ih =>
    simp only [List.any_cons, Bool.or_eq_false_iff] at clean
    obtain ⟨phrase, low, consumed, tree⟩ := operands.sound rest (by simpa [read] using clean.2.1)
    obtain ⟨links, lows, tail, trees⟩ := ih (by simpa [others] using clean.2.2)
    simp only [read] at consumed tree
    simp only [others] at tail trees
    refine ⟨(token.span, phrase) :: links, ?_, ?_, ?_⟩
    · intro link member
      simp only [List.mem_cons] at member
      rcases member with rfl | member
      · exact low
      · exact lows link member
    · simp only [linkTokens, List.flatMap_cons, ← same] at tail ⊢
      simp [tail, consumed]
    · simp only [linkTrees, List.flatMap_cons] at trees ⊢
      simp [trees, tree]
  | case4 => exact ⟨[], by simp, by simp [linkTokens], rfl⟩

/-- A chain's rule reads exactly the chains of what its operand's rule reads. -/
theorem chain_recognizes {connective : Connective} {levels : Nat} {operand : Rule}
    (operands : Recognizes operand levels connective.operand) :
    Recognizes (chain (Category.chain connective).nodeKind connective.word connective.mark operand)
      levels (.chain connective) where
  complete phrase rest shallow ends := by
    obtain ⟨first, links, tokens, parts, low, lows⟩ := exists_links phrase
    have start := operands.complete first (linkTokens links ++ rest) (Nat.le_trans low shallow)
      (endsBefore_links ends links)
    -- The reader allows a round for each token left, which is a round for each link at least.
    have enough : links.length ≤ (linkTokens links ++ rest).length := by
      have each := length_le_linkTokens links
      simp only [List.length_append]
      omega
    have tail := chainTail_complete operands ends links
      (fun link member => Nat.le_trans (lows link member) shallow) _ enough
    simp only [chain, tokens, List.append_assoc, start, tail]
    simp only [Phrase.tree, parts]
  sound tokens clean := by
    simp only [chain, hasError_inner, List.any_cons, Bool.or_eq_false_iff] at clean ⊢
    -- The first operand and the links behind it are phrases, and together they make a chain.
    obtain ⟨first, low, consumed, tree⟩ := operands.sound tokens clean.2.1
    obtain ⟨links, lows, tail, trees⟩ := chainTail_sound operands _ _ clean.2.2
    obtain ⟨whole, shallow, spelled, parts⟩ := exists_chain links lows (.single first) low
    refine ⟨whole, shallow, ?_, ?_⟩
    · rw [spelled, List.append_assoc, tail]
      exact consumed
    · simp only [Phrase.tree, parts, trees, ← tree]
      rfl

/-- The rule for primary phrases reads exactly these, if the insides of groups are read so. -/
theorem primary_recognizes {textEnd levels : Nat}
    (inside : ∀ below, levels = below + 1 →
      Recognizes (orExpression textEnd (insideAt textEnd below)) below (.chain .or)) :
    Recognizes (primary textEnd (insideAt textEnd levels)) levels .primary :=
  ⟨primary_complete inside, fun _ clean => primary_sound inside clean⟩

/-- At every level the grammar reads exactly the queries that open no more groups than are left. -/
theorem orExpression_recognizes (textEnd levels : Nat) :
    Recognizes (orExpression textEnd (insideAt textEnd levels)) levels (.chain .or) := by
  -- The rules of one level rest on the whole expression of the level below.
  have level : ∀ levels, (∀ below, levels = below + 1 →
      Recognizes (orExpression textEnd (insideAt textEnd below)) below (.chain .or)) →
      Recognizes (orExpression textEnd (insideAt textEnd levels)) levels (.chain .or) := by
    intro levels inside
    have negations := notExpression_recognizes (primary_recognizes inside)
    exact @chain_recognizes .or levels _ (@chain_recognizes .and levels _ negations)
  induction levels with
  | zero => exact level 0 (by omega)
  | succ levels ih =>
    apply level
    intro below same
    obtain rfl : levels = below := by omega
    exact ih

/-- The tree of a text that a query derives is the query's tree. -/
theorem parse_of_derives {query : Query} {text : String} (derives : query.Derives text) :
    parse text = .node .query ⟨0, byteSize text⟩ [inner .expression [query.tree]] := by
  -- The whole text is read as the derivation, so nothing is left over.
  obtain ⟨tokens, shallow⟩ := derives
  have read := (orExpression_recognizes (byteSize text) maxNesting).complete query [] shallow
    trivial
  simp only [List.append_nil] at read
  simp only [parse, treeOf, ← tokens, expression_eq, read, leftOver]

/-- The tree of a scalar holds no error. -/
@[simp] theorem Scalar.hasError_tree (value : Scalar) : value.tree.hasError = false := by
  -- A literal and the node over it are no errors.
  obtain ⟨literal, span⟩ := value
  cases literal <;> simp [tree, scalarOf, Literal.nodeKind, NodeKind.isError]

/-- The trees of a list's items hold no error. -/
theorem Items.any_hasError (items : Items) : items.trees.any Tree.hasError = false := by
  -- Induction on the items; neither they nor the commas are errors.
  induction items with
  | last value => simp [trees, Scalar.itemTree, NodeKind.isError]
  | more value comma items ih =>
    simp only [trees, List.any_cons, ih]
    simp [Scalar.itemTree, NodeKind.isError]

/-- The tree of a list holds no error. -/
@[simp] theorem listTree_hasError (opening : Span) (listing : Listing) (close : Span) :
    (listTree opening listing close).hasError = false := by
  -- Parentheses and items, none of which is an error.
  cases listing with
  | none => simp [listTree, Listing.trees, NodeKind.isError]
  | some items =>
    simp only [listTree, Listing.trees, Option.map_some, Option.getD_some, hasError_inner,
      List.cons_append, List.any_cons, List.any_append, items.any_hasError]
    simp [NodeKind.isError]

/-- The node over a phrase is no error. -/
@[simp] theorem Category.isError_nodeKind (category : Category) :
    category.nodeKind.isError = false := by
  match category with
  | .primary => rfl
  | .negation => rfl
  | .chain .and => rfl
  | .chain .or => rfl

/-- The trees under a phrase's node hold no error. -/
theorem Phrase.any_hasError {category : Category} (phrase : Phrase category) :
    phrase.parts.any Tree.hasError = false := by
  -- Induction on the derivation: every node that it puts up is of a plain kind.
  induction phrase with
  | bare name span => simp [parts, fieldTree, NodeKind.isError]
  | compare name span comparator operator value => simp [parts, fieldTree, NodeKind.isError]
  | member name span operator opening listing close => simp [parts, fieldTree, NodeKind.isError]
  | call name span opening close => simp [parts, NodeKind.isError]
  | group opening inside close ih => simp [parts, ih, NodeKind.isError]
  | plain operand ih => simp [parts, ih, NodeKind.isError]
  | negated word operand ih => simp [parts, ih, NodeKind.isError]
  | single operand ih => simp [parts, ih]
  | @join connective left word right ihLeft ihRight =>
    have mark : connective.mark.isError = false := by cases connective <;> rfl
    simp [parts, ihLeft, ihRight, mark]

/-- Whether a token is one of those the language has a use for. -/
def Token.Legal (token : Token) : Prop :=
  token.kind ≠ .illegal ∧ token.kind ≠ .unterminated

/-- A scalar's token is legal. -/
theorem Scalar.token_legal (value : Scalar) : value.token.Legal := by
  -- Literals are legal tokens; the two truth values are words of their own.
  obtain ⟨literal, span⟩ := value
  cases literal with
  | boolean value => cases value <;> simp [Token.Legal, token, Literal.kind]
  | _ => simp [Token.Legal, token, Literal.kind]

/-- The tokens of a list's items are legal. -/
theorem Items.tokens_legal (items : Items) : ∀ token ∈ items.tokens, token.Legal := by
  -- Induction on the items: literals and commas are legal.
  induction items with
  | last value => simpa [tokens] using value.token_legal
  | more value comma items ih =>
    intro token member
    simp only [tokens, List.mem_cons] at member
    rcases member with rfl | rfl | member
    · exact value.token_legal
    · simp [Token.Legal]
    · exact ih token member

/-- The tokens of a membership operator are legal. -/
theorem Membership.tokens_legal (operator : Membership) :
    ∀ token ∈ operator.tokens, token.Legal := by
  cases operator <;> simp [tokens, Token.Legal]

/-- The tokens of a phrase are legal. -/
theorem Phrase.tokens_legal {category : Category} (phrase : Phrase category) :
    ∀ token ∈ phrase.tokens, token.Legal := by
  -- Every production adds legal tokens to those of its phrases.
  induction phrase with
  | bare name span => simp [tokens, Token.Legal]
  | compare name span comparator operator value =>
    have compares : Token.Legal ⟨comparator.kind, operator⟩ := by
      cases comparator <;> simp [Comparator.kind, Token.Legal]
    have valued := value.token_legal
    simp_all [tokens, Token.Legal]
  | member name span operator opening listing close =>
    have looksUp := operator.tokens_legal
    have listed : ∀ token ∈ listing.tokens, token.Legal := by
      cases listing with
      | none => simp [Listing.tokens]
      | some items => exact items.tokens_legal
    intro token member
    simp only [tokens, List.cons_append, List.append_assoc, List.mem_cons, List.mem_append,
      List.not_mem_nil, or_false] at member
    rcases member with rfl | member | rfl | member | rfl
    · simp [Token.Legal]
    · exact looksUp token member
    · simp [Token.Legal]
    · exact listed token member
    · simp [Token.Legal]
  | call name span opening close => simp [tokens, Token.Legal]
  | group opening inside close ih =>
    intro token member
    simp only [tokens, List.cons_append, List.mem_cons, List.mem_append, List.not_mem_nil,
      or_false] at member
    rcases member with rfl | member | rfl
    · simp [Token.Legal]
    · exact ih token member
    · simp [Token.Legal]
  | plain operand ih => exact ih
  | negated word operand ih =>
    intro token member
    simp only [tokens, List.mem_cons] at member
    rcases member with rfl | member
    · simp [Token.Legal]
    · exact ih token member
  | single operand ih => exact ih
  | @join connective left word right ihLeft ihRight =>
    intro token member
    simp only [tokens, List.mem_append, List.mem_cons] at member
    rcases member with member | rfl | member
    · exact ihLeft token member
    · cases connective <;> simp [Token.Legal, Connective.word]
    · exact ihRight token member

/-- A text without a fault is derived by a query. -/
theorem exists_derives {text : String} (clean : (parse text).fault? = none) :
    ∃ query : Query, query.Derives text := by
  rw [Tree.fault?_eq_none_iff] at clean
  simp only [parse, treeOf, expression_eq, Tree.hasError_node, List.any_cons, hasError_inner,
    Bool.or_eq_false_iff] at clean
  obtain ⟨-, ⟨-, body, -⟩, trailing⟩ := clean
  obtain ⟨query, shallow, consumed, -⟩ :=
    (orExpression_recognizes (byteSize text) maxNesting).sound _ body
  -- No token was left over, or the mark over those left would be an error.
  have finished : (orExpression (byteSize text) (insideAt (byteSize text) maxNesting)
      (tokenize text)).2 = [] := by
    cases rest : (orExpression (byteSize text) (insideAt (byteSize text) maxNesting)
        (tokenize text)).2 with
    | nil => rfl
    | cons token tokens => simp [rest, leftOver] at trailing
  rw [finished, List.append_nil] at consumed
  exact ⟨query, consumed, shallow⟩

/-- A text that a query derives has no fault. -/
theorem fault_of_derives {query : Query} {text : String} (derives : query.Derives text) :
    (parse text).fault? = none := by
  -- The tree of a derivation has no error in it.
  rw [Tree.fault?_eq_none_iff, parse_of_derives derives]
  simp [Phrase.tree, query.any_hasError, NodeKind.isError, Category.nodeKind]

/--
A text is read without a fault exactly when the grammar derives its tokens with no more than the
allowed number of groups open at once; in particular all of its tokens are then legal.
-/
theorem parse_accepts_iff (text : String) :
    ((parse text).fault? = none ↔ ∃ query : Query, query.Derives text) ∧
      ¬ ((parse text).fault? = none ∧
        ∃ token ∈ tokenize text, token.kind = .illegal ∨ token.kind = .unterminated) := by
  -- A text without faults has a derivation, and the tokens of a derivation are all legal.
  refine ⟨⟨exists_derives, fun ⟨_, derives⟩ => fault_of_derives derives⟩, ?_⟩
  rintro ⟨clean, token, member, outside⟩
  obtain ⟨query, tokens, -⟩ := exists_derives clean
  have legal := query.tokens_legal token (tokens ▸ member)
  rcases outside with illegal | unterminated
  · exact legal.1 illegal
  · exact legal.2 unterminated

end FilterLang
