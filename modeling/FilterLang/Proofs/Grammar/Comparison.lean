import FilterLang.Proofs.Grammar.Phrase

/-! The rules of the grammar below a primary expression read exactly what derives their tokens. -/

namespace FilterLang

/-- Whether a token may come right after a phrase inside a query. -/
def Category.mayPrecede (category : Category) : TokenKind → Bool
  | .closeParen => true
  -- A connective after its own chain would have been taken into the chain.
  | .orWord => category != .chain .or
  | .andWord => category == .negation || category == .primary
  | _ => false

/-- Whether a phrase ends where these tokens begin. -/
def Category.EndsBefore (category : Category) : List Token → Prop
  | [] => True
  | token :: _ => category.mayPrecede token.kind = true

namespace Category.EndsBefore

/-- Where negations end, their operand ends. -/
theorem primary {rest : List Token} (ends : Category.negation.EndsBefore rest) :
    Category.primary.EndsBefore rest := by
  -- Every token that the negation may precede is looked at.
  cases rest with
  | nil => trivial
  | cons token rest =>
    obtain ⟨kind, span⟩ := token
    cases kind <;> first | rfl | cases ends

/-- Where a chain ends, its last operand ends. -/
theorem operand {connective : Connective} {rest : List Token}
    (ends : (Category.chain connective).EndsBefore rest) :
    connective.operand.EndsBefore rest := by
  -- Every token that the chain may precede is looked at.
  cases rest with
  | nil => trivial
  | cons token rest =>
    obtain ⟨kind, span⟩ := token
    cases connective <;> cases kind <;> first | rfl | cases ends

/-- A connective may come after each of its operands. -/
theorem word (connective : Connective) (span : Span) (rest : List Token) :
    connective.operand.EndsBefore (⟨connective.word, span⟩ :: rest) := by
  cases connective <;> rfl

/-- A chain does not end before its own connective. -/
theorem kind_ne {connective : Connective} {token : Token} {rest : List Token}
    (ends : (Category.chain connective).EndsBefore (token :: rest)) :
    token.kind ≠ connective.word := by
  -- The connective is among the tokens that a chain may not end before.
  intro same
  cases connective <;> simp [EndsBefore, mayPrecede, same, Connective.word] at ends

end Category.EndsBefore

/-- A closing parenthesis is read only when it is there. -/
theorem closing_sound {textEnd : Nat} {tokens : List Token}
    (clean : (closing textEnd tokens).1.hasError = false) :
    ∃ span, tokens = ⟨.closeParen, span⟩ :: (closing textEnd tokens).2 ∧
      (closing textEnd tokens).1 = .leaf .closeParen span := by
  -- A parenthesis that is missing leaves an error behind.
  fun_cases closing textEnd tokens with
  | case1 span rest => exact ⟨span, rfl, rfl⟩
  | case2 tokens other => simp [closing] at clean

/-- A token that is read as a literal is a scalar's. -/
theorem exists_scalar {token : Token} {kind : NodeKind}
    (reads : literalKind? token.kind = some kind) :
    ∃ value : Scalar, value.token = token ∧ value.tree = scalarOf kind token.span := by
  -- Every literal token has a literal, with the node kind that the reader gives it.
  obtain ⟨literal, sameKind, sameLeaf⟩ := Literal.exists_of_literalKind reads
  refine ⟨⟨literal, token.span⟩, ?_, ?_⟩
  · simp [Scalar.token, sameKind]
  · simp [Scalar.tree, sameLeaf]

/-- A scalar's token is read as the scalar. -/
theorem scalar_complete (textEnd : Nat) (value : Scalar) (rest : List Token) :
    scalar textEnd (value.token :: rest) = (value.tree, rest) := by
  simp [scalar, Scalar.token, Scalar.tree]

/-- Only a literal is read as a scalar. -/
theorem scalar_sound {textEnd : Nat} {tokens : List Token}
    (clean : (scalar textEnd tokens).1.hasError = false) :
    ∃ value : Scalar, tokens = value.token :: (scalar textEnd tokens).2 ∧
      (scalar textEnd tokens).1 = value.tree := by
  -- A token that is no literal leaves an error behind, and so does the end of the text.
  fun_cases scalar textEnd tokens with
  | case1 => simp [scalar] at clean
  | case2 token rest kind reads =>
    obtain ⟨value, rfl, tree⟩ := exists_scalar reads
    exact ⟨value, rfl, tree.symm⟩
  | case3 token rest reads => simp [scalar, reads] at clean

/-- The items of a list are read as far as no other comma follows them. -/
theorem listItems_before (textEnd : Nat) (items : Items) (rest : List Token)
    (ends : ∀ comma after, rest ≠ ⟨.comma, comma⟩ :: after) :
    listItems textEnd (items.tokens ++ rest) = (items.trees, rest) := by
  -- Induction on the items: the reader goes on exactly at commas.
  induction items with
  | last value =>
    simp only [Items.tokens, List.cons_append, List.nil_append, listItems, Scalar.token,
      Literal.literalKind?_kind]
    rfl
  | more value comma items ih =>
    simp [listItems, Items.tokens, Items.trees, Scalar.token, Scalar.itemTree, Scalar.tree, ih]

/-- The items of a list are read up to the parenthesis that closes it. -/
theorem listItems_complete (textEnd : Nat) (items : Items) (close : Span) (rest : List Token) :
    listItems textEnd (items.tokens ++ ⟨.closeParen, close⟩ :: rest)
      = (items.trees, ⟨.closeParen, close⟩ :: rest) :=
  listItems_before textEnd items _ (by simp)

/-- Items read without an error are scalars with commas between them. -/
theorem listItems_sound {textEnd : Nat} {tokens : List Token}
    (clean : (listItems textEnd tokens).1.any Tree.hasError = false) :
    ∃ items : Items, tokens = items.tokens ++ (listItems textEnd tokens).2 ∧
      (listItems textEnd tokens).1 = items.trees := by
  -- The induction follows the reader from comma to comma.
  fun_induction listItems textEnd tokens with
  | case1 => simp at clean
  | case2 token kind reads item comma rest trees after read ih =>
    obtain ⟨value, rfl, tree⟩ := exists_scalar reads
    simp only [List.any_cons, Bool.or_eq_false_iff] at clean
    obtain ⟨items, consumed, same⟩ := ih (by simpa [read] using clean.2.2)
    rw [read] at consumed same
    refine ⟨.more value comma items, ?_, ?_⟩
    · simp [Items.tokens, consumed]
    · simp [Items.trees, Scalar.itemTree, tree, item, ← same]
  | case3 token kind reads item rest other =>
    obtain ⟨value, rfl, tree⟩ := exists_scalar reads
    exact ⟨.last value, rfl, by simp [Items.trees, Scalar.itemTree, tree, item]⟩
  -- In the other cases an item is missing.
  | case4 token rest _ absent => simp [absent] at clean
  | case5 token rest _ absent => simp [absent] at clean

/-- Unless a list is closed at once, its items are read before its closing parenthesis. -/
theorem listLiteral_eq (textEnd : Nat) (opening : Span) {tokens : List Token}
    (filled : ∀ span rest, tokens ≠ ⟨.closeParen, span⟩ :: rest) :
    listLiteral textEnd opening tokens =
      (inner .listLiteral (.leaf .openParen opening :: (listItems textEnd tokens).1 ++
        [(closing textEnd (listItems textEnd tokens).2).1]),
      (closing textEnd (listItems textEnd tokens).2).2) := by
  simp only [listLiteral]

/-- A list is read with its items and its closing parenthesis. -/
theorem listLiteral_complete (textEnd : Nat) (opening : Span) (listing : Listing) (close : Span)
    (rest : List Token) :
    listLiteral textEnd opening (listing.tokens ++ ⟨.closeParen, close⟩ :: rest)
      = (listTree opening listing close, rest) := by
  cases listing with
  | none => rfl
  | some items =>
    obtain ⟨value, more, first⟩ : ∃ (value : Scalar) (more : List Token),
        items.tokens = value.token :: more := by
      cases items <;> exact ⟨_, _, rfl⟩
    rw [listLiteral_eq]
    · simp only [Listing.tokens, Option.map_some, Option.getD_some, listItems_complete]
      rfl
    · -- The first token is a literal, so it does not close an empty list.
      intro span after same
      have literal := Literal.literalKind?_kind value.literal
      simp only [Listing.tokens, Option.map_some, Option.getD_some, first, List.cons_append,
        List.cons.injEq, Scalar.token, Token.mk.injEq] at same
      simp [same.1.1, literalKind?] at literal

/-- A list read without an error has its items and its closing parenthesis. -/
theorem listLiteral_sound {textEnd : Nat} {opening : Span} {tokens : List Token}
    (clean : (listLiteral textEnd opening tokens).1.hasError = false) :
    ∃ (listing : Listing) (close : Span),
      tokens = listing.tokens ++ ⟨.closeParen, close⟩ :: (listLiteral textEnd opening tokens).2 ∧
      (listLiteral textEnd opening tokens).1 = listTree opening listing close := by
  -- A list that is closed at once has no items, and one that is not has at least one.
  by_cases empty : ∃ span rest, tokens = ⟨.closeParen, span⟩ :: rest
  · obtain ⟨span, rest, rfl⟩ := empty
    exact ⟨none, span, rfl, rfl⟩
  · have filled : ∀ span rest, tokens ≠ ⟨.closeParen, span⟩ :: rest :=
      fun span rest same => empty ⟨span, rest, same⟩
    rw [listLiteral_eq textEnd opening filled] at clean ⊢
    simp only [hasError_inner, List.cons_append, List.any_cons, List.any_append, List.any_nil,
      Bool.or_eq_false_iff] at clean
    -- Both the items and the closing parenthesis are there, since neither left a mark.
    obtain ⟨items, consumed, trees⟩ := listItems_sound clean.2.2.1
    obtain ⟨close, closed, leaf⟩ := closing_sound clean.2.2.2.1
    refine ⟨some items, close, ?_, ?_⟩
    · simpa [Listing.tokens, ← closed] using consumed
    · simp [listTree, Listing.trees, trees, leaf]

/-- The list after a membership operator is read. -/
theorem membership_complete (textEnd : Nat) (opening : Span) (listing : Listing) (close : Span)
    (rest : List Token) :
    membership textEnd (⟨.openParen, opening⟩ :: (listing.tokens ++ ⟨.closeParen, close⟩ :: rest))
      = (listTree opening listing close, rest) :=
  listLiteral_complete textEnd opening listing close rest

/-- What is read without an error after a membership operator is a list. -/
theorem membership_sound {textEnd : Nat} {tokens : List Token}
    (clean : (membership textEnd tokens).1.hasError = false) :
    ∃ (opening : Span) (listing : Listing) (close : Span),
      tokens = ⟨.openParen, opening⟩ ::
        (listing.tokens ++ ⟨.closeParen, close⟩ :: (membership textEnd tokens).2) ∧
      (membership textEnd tokens).1 = listTree opening listing close := by
  -- Without an opening parenthesis there is an error.
  fun_cases membership textEnd tokens with
  | case1 opening rest =>
    obtain ⟨listing, close, consumed, tree⟩ := listLiteral_sound clean
    exact ⟨opening, listing, close, congrArg _ consumed, tree⟩
  | case2 tokens other => simp [membership] at clean

/-- A name that stands alone is followed by neither an operator nor a parenthesis. -/
theorem comparisonTail_ends (textEnd : Nat) {rest : List Token}
    (ends : Category.primary.EndsBefore rest) : comparisonTail textEnd rest = ([], rest) := by
  cases rest with
  | nil => rfl
  | cons token rest =>
    obtain ⟨kind, span⟩ := token
    -- The tokens that may come after a phrase are no operators.
    cases kind <;> first | rfl | simp [Category.EndsBefore, Category.mayPrecede] at ends

/-- The operator and the value of a comparison with a scalar are read. -/
theorem comparisonTail_compare (textEnd : Nat) (comparator : Comparator) (operator : Span)
    (value : Scalar) (rest : List Token) :
    comparisonTail textEnd (⟨comparator.kind, operator⟩ :: value.token :: rest)
      = ([.leaf .compareOperator operator, value.tree], rest) := by
  -- Every comparator is read as one, and the value is read behind it.
  cases comparator <;>
    simp [comparisonTail, Comparator.kind, TokenKind.comparisonSymbol?, scalar_complete]

/-- The operator and the list of a membership test are read. -/
theorem comparisonTail_member (textEnd : Nat) (operator : Membership) (opening : Span)
    (listing : Listing) (close : Span) (rest : List Token) :
    comparisonTail textEnd (operator.tokens ++ ⟨.openParen, opening⟩ ::
        (listing.tokens ++ ⟨.closeParen, close⟩ :: rest))
      = ([.leaf .inOperator operator.span, listTree opening listing close], rest) := by
  -- Both forms of the operator are read before the list.
  cases operator <;>
    simp [comparisonTail, Membership.tokens, Membership.span, membership_complete]

/-- A name with a membership operator and a list read without an error is a phrase. -/
theorem member_sound {textEnd : Nat} {rest : List Token} (name : String) (span : Span)
    (operator : Membership) (clean : (membership textEnd rest).1.hasError = false) :
    ∃ phrase : Phrase .primary, phrase.nesting = 0 ∧
      phrase.tokens ++ (membership textEnd rest).2
        = ⟨.identifier name, span⟩ :: (operator.tokens ++ rest) ∧
      phrase.parts = [inner .comparison [fieldTree span, .leaf .inOperator operator.span,
        (membership textEnd rest).1]] := by
  obtain ⟨opening, listing, close, consumed, tree⟩ := membership_sound clean
  refine ⟨.member name span operator opening listing close, rfl, ?_, ?_⟩
  · -- The tokens stand on the left as well, where they are not to be rewritten.
    conv =>
      rhs
      rw [consumed]
    simp [Phrase.tokens]
  · rw [tree]
    rfl

/-- A comparison read without an error is a name alone or with an operator and its value. -/
theorem comparison_sound {textEnd : Nat} {span : Span} {tokens : List Token} (name : String)
    (clean : (comparison textEnd span tokens).1.hasError = false) :
    ∃ phrase : Phrase .primary, phrase.nesting = 0 ∧
      phrase.tokens ++ (comparison textEnd span tokens).2 = ⟨.identifier name, span⟩ :: tokens ∧
      phrase.parts = [(comparison textEnd span tokens).1] := by
  revert clean
  simp only [comparison, hasError_inner]
  -- One case for each form of what follows the name.
  fun_cases comparisonTail textEnd tokens with
  | case1 word rest list after read =>
    intro clean
    have listed : (membership textEnd rest).1.hasError = false := by simp_all
    have phrase := member_sound name span (.isIn word) listed
    rw [read] at phrase
    exact phrase
  | case2 negation word rest list after read =>
    intro clean
    have listed : (membership textEnd rest).1.hasError = false := by simp_all
    have phrase := member_sound name span (.notIn negation word) listed
    rw [read] at phrase
    exact phrase
  -- The name ends the text, or something other than an operator follows it.
  | case3 => exact fun _ => ⟨.bare name span, rfl, rfl, rfl⟩
  | case4 token rest _ _ compares value after read =>
    intro clean
    obtain ⟨comparator, kind⟩ := Comparator.exists_of_symbol compares
    have valued : (scalar textEnd rest).1.hasError = false := by simp_all
    obtain ⟨operand, consumed, tree⟩ := scalar_sound valued
    simp only [read] at consumed tree
    refine ⟨.compare name span comparator token.span operand, rfl, ?_, ?_⟩
    · simp [Phrase.tokens, kind, consumed]
    · simp [Phrase.parts, fieldTree, tree]
  | case5 => exact fun _ => ⟨.bare name span, rfl, rfl, rfl⟩

end FilterLang
