import FilterLang.Proofs.Context.BreakOff
import FilterLang.Proofs.Token.Ending

/-! Complete clauses in the tree of a fragment. -/

namespace FilterLang

/-- The last token ends no earlier from a later start. -/
theorem lastStop_mono {low high : Nat} (below : low ≤ high) (tokens : List Token) :
    lastStop low tokens ≤ lastStop high tokens := by
  -- The start matters only while there are no tokens.
  cases tokens with
  | nil => exact below
  | cons token tokens => exact Nat.le_refl _

/-- No token ends behind the last one. -/
theorem InOrder.le_lastStop {textEnd : Nat} {token : Token} {tokens : List Token}
    (ordered : InOrder textEnd (token :: tokens)) :
    token.span.stop ≤ lastStop token.span.stop tokens := by
  -- Induction on the tokens behind: each ends after the one before it.
  induction tokens generalizing token with
  | nil => exact Nat.le_refl _
  | cons next tokens ih =>
    obtain ⟨-, before, later⟩ := ordered
    have behind := ih later
    have wide := later.1
    simp only [nextOffset] at before
    simp only [lastStop]
    omega

/-- The last token ends within the text. -/
theorem InOrder.lastStop_le {textEnd start : Nat} {tokens : List Token}
    (ordered : InOrder textEnd tokens) (begins : start ≤ textEnd) :
    lastStop start tokens ≤ textEnd := by
  -- Induction on the tokens; the start gives way to the end of each in turn.
  induction tokens generalizing start with
  | nil => exact begins
  | cons token tokens ih =>
    obtain ⟨-, before, later⟩ := ordered
    exact ih later (Nat.le_trans before later.nextOffset_le)

/-- A tree with an error is no complete clause. -/
theorem Tree.hasError_of_isCompleteClause {tree : Tree} (complete : tree.isCompleteClause = true) :
    tree.hasError = false := by
  -- Every rule for complete clauses asks for no gap first.
  cases broken : tree.hasError with
  | false => rfl
  | true =>
    unfold isCompleteClause at complete
    split at complete <;> simp [broken] at complete

section Operand

variable {textEnd : Nat}

/-- A fragment behind negations is some negations and an operand. -/
theorem Fragment.exists_operand : (fragment : Fragment .negation) →
    ∃ (words : List Span) (operand : Fragment .primary),
      inner .notExpression (fragment.parts textEnd) = negationTree words (operand.parts textEnd) ∧
      ∀ behindNot, ∃ begun, fragment.position behindNot = operand.position begun
  -- The marks are taken off one by one, down to what they stand in front of.
  | .plain operand => ⟨[], operand, rfl, fun behindNot => ⟨behindNot, rfl⟩⟩
  | .negated word operand => by
    obtain ⟨words, last, tree, place⟩ := Fragment.exists_operand operand
    refine ⟨word :: words, last, ?_, fun _ => place true⟩
    have parts := congrArg Tree.children tree
    simp only [inner_children, negationTree] at parts
    simp [Fragment.parts, parts, negationTree]

/-- If an operand completes a clause, it is a whole phrase and more than a name. -/
theorem position_of_isCompleteClause {words : List Span} {operand : Fragment .primary}
    (complete : (negationTree words (operand.parts textEnd)).isCompleteClause = true)
    (behindNot : Bool) : operand.position behindNot = .boundary := by
  -- A complete clause has no gap below it, so of all fragments only whole phrases are left.
  have kind : (negationTree words (operand.parts textEnd)).kind = .notExpression := inner_kind _ _
  have clean := Tree.hasError_of_isCompleteClause complete
  have completes : (inner .primary (operand.parts textEnd)).completesNegation = true := by
    simpa [Tree.isCompleteClause, kind, clean] using complete
  have sound : (operand.parts textEnd).any Tree.hasError = false := by
    simp only [negationTree, hasError_inner, List.any_append, List.any_cons, List.any_nil,
      Bool.or_false, Bool.or_eq_false_iff] at clean
    exact clean.2.2.2
  cases operand with
  | nothing => simp [Fragment.parts] at sound
  | whole phrase =>
    cases phrase with
    -- A bare name could still become a comparison, so it completes nothing.
    | bare name span =>
      simp [Fragment.parts, Phrase.parts, Tree.completesNegation, Tree.hasOperator, Tree.hasChild,
        Tree.child?] at completes
    | _ => rfl
  | _ => simp [Fragment.parts] at sound

/-- Behind a connective, a clause is complete only if the fragment breaks off behind it. -/
theorem isCompleteClause_operand {connective : Connective} {operand : Fragment connective.operand}
    {behindNot : Bool} (within : operand.position behindNot ≠ .boundary) :
    (inner connective.operand.nodeKind (operand.parts textEnd)).isCompleteClause = false := by
  -- Operands of OR are chains, which are no clauses of their own.
  cases connective with
  | and =>
    -- Operands of AND are taken apart down to what the marks stand in front of.
    obtain ⟨words, last, tree, place⟩ := @Fragment.exists_operand textEnd operand
    obtain ⟨begun, same⟩ := place behindNot
    cases complete : (inner .notExpression (operand.parts textEnd)).isCompleteClause with
    | false => exact complete
    | true =>
      have whole := (congrArg Tree.isCompleteClause tree).symm.trans complete
      exact absurd (same.trans (position_of_isCompleteClause whole begun)) within
  | or => simp [Connective.operand, Category.nodeKind, Tree.isCompleteClause]

end Operand

/-- A value is no clause. -/
theorem Scalar.isCompleteClause_eq (value : Scalar) :
    ∀ sub ∈ value.tree.subtrees, sub.isCompleteClause = false := by
  -- Literals and the node over them are no clauses.
  obtain ⟨literal, span⟩ := value
  cases literal <;>
    simp [Scalar.tree, scalarOf, Literal.nodeKind, Tree.leaf, Tree.isCompleteClause]

/-- The items of a list hold no clause. -/
theorem OpenItems.isCompleteClause_eq (textEnd : Nat) (items : OpenItems) :
    ∀ sub ∈ (items.trees textEnd).flatMap Tree.subtrees, sub.isCompleteClause = false := by
  -- Induction on the items; neither items nor commas nor gaps are clauses.
  have item (value : Scalar) : ∀ sub ∈ value.itemTree.subtrees, sub.isCompleteClause = false := by
    simpa [Scalar.itemTree, Tree.isCompleteClause] using value.isCompleteClause_eq
  induction items with
  | none => simp [OpenItems.trees, missing, Tree.expecting, Tree.leaf, Tree.isCompleteClause]
  | last value => simpa [OpenItems.trees] using item value
  | more value comma rest ih =>
    rw [OpenItems.trees, List.flatMap_cons, List.forall_mem_append, List.flatMap_cons,
      List.forall_mem_append, Tree.forall_subtrees_leaf]
    exact ⟨item value, rfl, ih⟩

section Fragments

variable {textEnd : Nat}

/-- Under a comparison with an open list there is no clause. -/
theorem isCompleteClause_list {span operator opening : Span} {items : OpenItems} :
    ∀ sub ∈ [fieldTree span, .leaf .inOperator operator,
      openListTree textEnd opening items].flatMap Tree.subtrees, sub.isCompleteClause = false := by
  -- The field, the operator and all of the list, node by node.
  have listed := items.isCompleteClause_eq textEnd
  simp only [List.flatMap_cons, List.flatMap_append, List.flatMap_nil, List.append_nil,
    List.cons_append, List.forall_mem_append, subtrees_inner, List.forall_mem_cons,
    Tree.forall_subtrees_leaf, fieldTree, openListTree]
  refine ⟨rfl, rfl, rfl, ?_, rfl, listed, ?_⟩
  · simp [Tree.isCompleteClause]
  · simp [missing, Tree.expecting, Tree.leaf, Tree.isCompleteClause]

/-- Complete clauses end before the last token, unless a fragment breaks off behind one. -/
theorem Fragment.stop_lt_lastStop {category : Category} (fragment : Fragment category)
    {behindNot : Bool} {lower upper : Nat} (within : fragment.position behindNot ≠ .boundary)
    (ordered : InOrder textEnd fragment.tokens)
    (apart : Successive lower (fragment.parts textEnd) upper)
    (tidy : ∀ sub ∈ (fragment.parts textEnd).flatMap Tree.subtrees, sub.IsTidy) :
    ∀ sub ∈ (fragment.parts textEnd).flatMap Tree.subtrees, sub.isCompleteClause = true →
      sub.span.stop < lastStop 0 fragment.tokens := by
  -- On the way down to the break, only what stands before a connective can be complete.
  induction fragment generalizing behindNot lower upper with
  | nothing => simp [Fragment.parts, missing, Tree.expecting, Tree.leaf, Tree.isCompleteClause]
  | whole phrase =>
    cases phrase with
    | bare name span =>
      simp [Fragment.parts, Phrase.parts, fieldTree, Tree.leaf, Tree.isCompleteClause,
        Tree.hasOperator, Tree.hasChild, Tree.child?]
    | _ => exact absurd rfl within
  | compare name span comparator operator =>
    simp [Fragment.parts, fieldTree, Tree.leaf, Tree.isCompleteClause, missing, Tree.expecting,
      NodeKind.isError]
  | member name span operator =>
    simp [Fragment.parts, fieldTree, Tree.leaf, Tree.isCompleteClause, missing, Tree.expecting,
      NodeKind.isError]
  | list name span operator opening items =>
    rw [Fragment.parts, forall_subtrees_inner]
    refine ⟨by simp [Tree.isCompleteClause], fun sub inside complete => ?_⟩
    rw [isCompleteClause_list sub inside] at complete
    cases complete
  | call name span opening =>
    simp [Fragment.parts, Tree.leaf, Tree.isCompleteClause, missing, Tree.expecting]
  | group opening inside ih =>
    rw [Fragment.parts, forall_subtrees_inner] at tidy ⊢
    refine ⟨by simp [Tree.isCompleteClause], ?_⟩
    simp only [List.flatMap_cons, List.flatMap_nil, List.append_nil, List.forall_mem_append,
      subtrees_inner, List.forall_mem_cons, Tree.forall_subtrees_leaf] at tidy ⊢
    obtain ⟨-, -, ⟨-, body, below⟩, -⟩ := tidy
    refine ⟨by simp [Tree.isCompleteClause], ⟨by simp [Tree.isCompleteClause],
      by simp [Tree.isCompleteClause], fun sub deeper complete => ?_⟩,
      by simp [missing, Tree.expecting, Tree.leaf, Tree.isCompleteClause]⟩
    have before := ih within ordered.2.2 (successive_of_isTidy body) below sub deeper complete
    exact Nat.lt_of_lt_of_le before (lastStop_mono (Nat.zero_le _) inside.tokens)
  | tooDeep opening =>
    simp [Fragment.parts, Tree.leaf, Tree.isCompleteClause, missing, Tree.expecting,
      NodeKind.isError]
  | plain operand ih =>
    rw [Fragment.parts, forall_subtrees_inner] at tidy ⊢
    refine ⟨by simp [Tree.isCompleteClause], ?_⟩
    exact ih within ordered (successive_of_isTidy tidy.1) tidy.2
  | negated word operand ih =>
    rw [Fragment.parts, List.flatMap_cons, List.forall_mem_append] at tidy ⊢
    rw [Tree.forall_subtrees_leaf]
    refine ⟨by simp [Tree.isCompleteClause], fun sub inside complete => ?_⟩
    have before := ih within ordered.2.2 apart.2.2 tidy.2 sub inside complete
    exact Nat.lt_of_lt_of_le before (lastStop_mono (Nat.zero_le _) operand.tokens)
  | @single connective operand ih =>
    rw [Fragment.parts, forall_subtrees_inner] at tidy ⊢
    refine ⟨by simp [isCompleteClause_operand within], ?_⟩
    exact ih within ordered (successive_of_isTidy tidy.1) tidy.2
  | @join connective left word right ih =>
    have later : InOrder textEnd (⟨connective.word, word⟩ :: right.tokens) := ordered.of_append
    have reach : word.stop ≤ lastStop word.stop right.tokens := later.le_lastStop
    rw [Fragment.parts] at apart tidy ⊢
    rw [Fragment.tokens, lastStop_append, lastStop]
    rw [List.flatMap_append, List.forall_mem_append] at tidy ⊢
    constructor
    · -- What stands before the connective ends before it.
      intro sub inside _
      obtain ⟨part, member, among⟩ := List.mem_flatMap.mp inside
      have bounds := Tree.within (fun other below => tidy.1 other
        (List.mem_flatMap.mpr ⟨part, member, below⟩)) sub among
      have before := (List.pairwise_append.mp apart.pairwise).2.2 part member
        (.leaf connective.mark word) (by simp)
      have wide : word.start < word.stop := later.1
      rw [Tree.span_leaf] at before
      show sub.span.stop < lastStop word.stop right.tokens
      omega
    · rw [List.flatMap_cons, List.forall_mem_append, Tree.forall_subtrees_leaf,
        forall_subtrees_inner] at tidy ⊢
      refine ⟨by cases connective <;> simp [Connective.mark, Tree.isCompleteClause],
        by simp [isCompleteClause_operand within], fun sub inside complete => ?_⟩
      have before := ih within later.2.2 (successive_of_isTidy tidy.2.2.1) tidy.2.2.2 sub inside
        complete
      exact Nat.lt_of_lt_of_le before (lastStop_mono (Nat.zero_le _) right.tokens)

end Fragments

end FilterLang
