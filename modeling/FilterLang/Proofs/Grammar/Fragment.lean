import FilterLang.Proofs.Grammar.Recognition
import FilterLang.Proofs.Grammar.WellFormed
import FilterLang.Proofs.Tree.FirstError

/-! Half-typed queries. -/

namespace FilterLang

/-- The items of a list that is still open, each but the last with the comma behind it. -/
inductive OpenItems where
  | none
  | last (scalar : Scalar)
  | more (scalar : Scalar) (comma : Span) (rest : OpenItems)
deriving DecidableEq, Repr

namespace OpenItems

/-- The tokens of the items and their commas. -/
def tokens : OpenItems → List Token
  | none => []
  | last scalar => [scalar.token]
  | more scalar comma rest => scalar.token :: ⟨.comma, comma⟩ :: rest.tokens

/-- The trees of the items and their commas; behind the parenthesis or a comma one is missing. -/
def trees (textEnd : Nat) : OpenItems → List Tree
  | none => [missing textEnd "list item" []]
  | last scalar => [scalar.itemTree]
  | more scalar comma rest => scalar.itemTree :: .leaf .comma comma :: rest.trees textEnd

end OpenItems

/-- The tree of a list that is still open. -/
def openListTree (textEnd : Nat) (opening : Span) (items : OpenItems) : Tree :=
  inner .listLiteral (.leaf .openParen opening :: items.trees textEnd ++ [missing textEnd "')'" []])

/-- The parenthesis is missing from a list that is still open. -/
@[simp] theorem openListTree_hasError (textEnd : Nat) (opening : Span) (items : OpenItems) :
    (openListTree textEnd opening items).hasError = true := by
  simp [openListTree]

/-- A query as far as it was typed. -/
inductive Fragment : Category → Type where
  /-- Nothing yet. -/
  | nothing : Fragment .primary
  | whole (phrase : Phrase .primary) : Fragment .primary
  /-- A field and an operator that still needs its value. -/
  | compare (name : String) (span : Span) (comparator : Comparator) (operator : Span) :
      Fragment .primary
  /-- A field and an operator that still needs its list. -/
  | member (name : String) (span : Span) (membership : Membership) : Fragment .primary
  /-- A list that is not closed. -/
  | list (name : String) (span : Span) (membership : Membership) (opening : Span)
      (items : OpenItems) : Fragment .primary
  /-- A call that is not closed. -/
  | call (name : String) (span opening : Span) : Fragment .primary
  /-- A group that is not closed. -/
  | group (opening : Span) (inside : Fragment (.chain .or)) : Fragment .primary
  /-- The parenthesis of a group that lies too deep to be filled. -/
  | tooDeep (opening : Span) : Fragment .primary
  | plain (operand : Fragment .primary) : Fragment .negation
  | negated (word : Span) (operand : Fragment .negation) : Fragment .negation
  | single {connective : Connective} (operand : Fragment connective.operand) :
      Fragment (.chain connective)
  | join {connective : Connective} (left : Phrase (.chain connective)) (word : Span)
      (right : Fragment connective.operand) : Fragment (.chain connective)

namespace Fragment

/-- The tokens that were typed. -/
def tokens : {category : Category} → Fragment category → List Token
  | _, nothing => []
  | _, whole phrase => phrase.tokens
  | _, compare name span comparator operator =>
    [⟨.identifier name, span⟩, ⟨comparator.kind, operator⟩]
  | _, member name span membership => ⟨.identifier name, span⟩ :: membership.tokens
  | _, list name span membership opening items =>
    ⟨.identifier name, span⟩ :: (membership.tokens ++ ⟨.openParen, opening⟩ :: items.tokens)
  | _, call name span opening => [⟨.identifier name, span⟩, ⟨.openParen, opening⟩]
  | _, group opening inside => ⟨.openParen, opening⟩ :: inside.tokens
  | _, tooDeep opening => [⟨.openParen, opening⟩]
  | _, plain operand => operand.tokens
  | _, negated word operand => ⟨.notWord, word⟩ :: operand.tokens
  | _, single operand => operand.tokens
  | _, @join connective left word right =>
    left.tokens ++ ⟨connective.word, word⟩ :: right.tokens

/-- The trees that stand side by side under a fragment's node, marks of what is missing included. -/
def parts (textEnd : Nat) : {category : Category} → Fragment category → List Tree
  | _, nothing => [missing textEnd "expression" []]
  | _, whole phrase => phrase.parts
  | _, compare _ span _ operator =>
    [inner .comparison [fieldTree span, .leaf .compareOperator operator,
      missing textEnd "value" []]]
  | _, member _ span membership =>
    [inner .comparison [fieldTree span, .leaf .inOperator membership.span,
      missing textEnd "'('" []]]
  | _, list _ span membership opening items =>
    [inner .comparison [fieldTree span, .leaf .inOperator membership.span,
      openListTree textEnd opening items]]
  | _, call _ span opening =>
    [inner .aliasCall [.leaf .identifier span, .leaf .openParen opening,
      missing textEnd "')'" []]]
  | _, group opening inside =>
    [inner .group [.leaf .openParen opening,
      inner .expression [inner .orExpression (inside.parts textEnd)], missing textEnd "')'" []]]
  | _, tooDeep opening =>
    [inner .group [.leaf .openParen opening, missing textEnd "shallower nesting" []]]
  | _, plain operand => [inner .primary (operand.parts textEnd)]
  | _, negated word operand => .leaf .notOp word :: operand.parts textEnd
  | _, @single connective operand =>
    [inner connective.operand.nodeKind (operand.parts textEnd)]
  | _, @join connective left word right =>
    left.parts ++
      [.leaf connective.mark word, inner connective.operand.nodeKind (right.parts textEnd)]

/-- The tree of a fragment in a text of a length. -/
def tree (textEnd : Nat) {category : Category} (fragment : Fragment category) : Tree :=
  inner category.nodeKind (fragment.parts textEnd)

end Fragment

namespace Phrase

/-- A phrase that was typed to its end. -/
def fragment : {category : Category} → Phrase category → Fragment category
  | _, plain operand => .plain (.whole operand)
  | _, negated word operand => .negated word operand.fragment
  | _, single operand => .single operand.fragment
  | _, join left word right => .join left word right.fragment
  | _, bare name span => .whole (bare name span)
  | _, compare name span comparator operator value =>
    .whole (compare name span comparator operator value)
  | _, member name span membership opening listing closing =>
    .whole (member name span membership opening listing closing)
  | _, call name span opening closing => .whole (call name span opening closing)
  | _, group opening inside closing => .whole (group opening inside closing)

/-- A phrase that was typed to its end has nothing missing. -/
theorem fragment_eq (textEnd : Nat) {category : Category} (phrase : Phrase category) :
    phrase.fragment.tokens = phrase.tokens ∧ phrase.fragment.parts textEnd = phrase.parts := by
  -- Induction on the derivation: primaries and the left sides of joins are kept whole.
  induction phrase with
  | negated word operand ih =>
    simp only [fragment, Fragment.tokens, Fragment.parts, tokens, parts, ih.1, ih.2, and_self]
  | single operand ih =>
    simp only [fragment, Fragment.tokens, Fragment.parts, tokens, parts, ih.1, ih.2, and_self]
  | join left word right _ ih =>
    simp only [fragment, Fragment.tokens, Fragment.parts, tokens, parts, ih.1, ih.2, and_self]
  | _ => exact ⟨rfl, rfl⟩

end Phrase

/-- A tree in which only the end of the text has errors. -/
def Tree.IsLate (textEnd : Nat) (tree : Tree) : Prop :=
  ∀ sub ∈ tree.subtrees, sub.kind.isError = true → sub.span = .empty textEnd

section Late

variable {textEnd : Nat}

/-- The children of an inner node have errors no earlier than the node. -/
theorem isLate_of_inner {kind : NodeKind} {children : List Tree}
    (late : (inner kind children).IsLate textEnd) : ∀ child ∈ children, child.IsLate textEnd := by
  -- The subtrees of a child are subtrees of the whole.
  intro child member sub inside
  refine late sub ?_
  rw [subtrees_inner]
  exact List.mem_cons_of_mem _ (List.mem_flatMap.mpr ⟨child, member, inside⟩)

/-- An inner node has errors no earlier than its children. -/
theorem isLate_inner {kind : NodeKind} {children : List Tree} (plain : kind.isError = false)
    (late : ∀ child ∈ children, child.IsLate textEnd) : (inner kind children).IsLate textEnd := by
  -- An error is below, since the node itself is none.
  intro sub inside error
  rw [subtrees_inner, List.mem_cons, List.mem_flatMap] at inside
  rcases inside with rfl | ⟨child, member, inside⟩
  · rw [inner_kind, plain] at error
    cases error
  · exact late child member sub inside error

/-- What is missing at the end of the text is missing behind the last token. -/
theorem eq_nil_of_missing {what : String} {tokens : List Token} (ordered : InOrder textEnd tokens)
    (late : (missing textEnd what tokens).IsLate textEnd) : tokens = [] := by
  -- A gap in front of a token would be marked at that token, before the end of the text.
  cases tokens with
  | nil => rfl
  | cons first rest =>
    have place := late _ (Tree.self_mem_subtrees _) rfl
    obtain ⟨wide, inside⟩ := ordered.reach
    have start : first.span.start = textEnd := congrArg Span.start place
    omega

/-- Behind something missing at the end of the text no token is left. -/
theorem Lays.eq_nil_of_hasError {trees : List Tree} {tokens rest : List Token}
    (laid : Lays textEnd trees tokens rest) (ordered : InOrder textEnd tokens)
    (late : ∀ tree ∈ trees, tree.IsLate textEnd) (broken : trees.any Tree.hasError = true) :
    rest = [] := by
  -- Induction on the layout. The first gap is at the end of the text, so no token is left there,
  -- and none is left behind it.
  induction laid with
  | nil => simp at broken
  | token taken _ ih =>
    rw [List.forall_mem_cons] at late
    rw [List.any_cons, Tree.hasError_leaf, isError_of_leafKind? taken, Bool.false_or] at broken
    exact ih ordered.2.2 late.2 broken
  | notIn _ ih =>
    rw [List.forall_mem_cons] at late
    rw [List.any_cons, Tree.hasError_leaf] at broken
    exact ih ordered.2.2.2.2 late.2 broken
  | missing more _ =>
    rw [List.forall_mem_cons] at late
    have none := eq_nil_of_missing ordered late.1
    exact List.eq_nil_of_suffix_nil (none ▸ more.suffix)
  | inner plain filled below more ihBelow ihMore =>
    rw [List.forall_mem_cons] at late
    rw [List.any_cons, hasError_inner, plain, Bool.false_or, Bool.or_eq_true] at broken
    rcases broken with inside | later
    · have none := ihBelow ordered (isLate_of_inner late.1) inside
      exact List.eq_nil_of_suffix_nil (none ▸ more.suffix)
    · exact ihMore (below.inOrder ordered) late.2 later

/-- A rule that has taken all tokens leaves a fragment. -/
def LeavesFragment (textEnd : Nat) (rule : Rule) (category : Category) : Prop :=
  ∀ tokens, InOrder textEnd tokens → (rule tokens).1.IsLate textEnd → (rule tokens).2 = [] →
    ∃ fragment : Fragment category, fragment.tokens = tokens ∧
      fragment.tree textEnd = (rule tokens).1

/-- A parenthesis that is missing at the end is the last thing missing. -/
theorem closing_late {tokens : List Token} (ordered : InOrder textEnd tokens)
    (late : (closing textEnd tokens).1.IsLate textEnd) :
    (closing textEnd tokens).1.hasError = false ∨ tokens = [] := by
  -- A parenthesis is there or it is missing, and then nothing follows.
  fun_cases closing textEnd tokens with
  | case1 span rest => exact .inl rfl
  | case2 tokens other => exact .inr (eq_nil_of_missing ordered (by simpa [closing] using late))

/-- A value that is missing at the end is the last thing missing. -/
theorem scalar_late {tokens : List Token} (ordered : InOrder textEnd tokens)
    (late : (scalar textEnd tokens).1.IsLate textEnd) :
    (scalar textEnd tokens).1.hasError = false ∨ tokens = [] := by
  -- Of the two ways to miss a value, both are at the end of the text.
  revert late
  fun_cases scalar textEnd tokens with
  | case1 => exact fun _ => .inr rfl
  | case2 token rest kind reads =>
    obtain ⟨value, -, tree⟩ := exists_scalar reads
    exact fun _ => .inl (tree ▸ Scalar.hasError_tree value)
  | case3 token rest other => exact fun late => .inr (eq_nil_of_missing ordered late)

/-- The items of a list that is open at the end are scalars and commas. -/
theorem listItems_fragment {tokens : List Token} (ordered : InOrder textEnd tokens)
    (late : ∀ tree ∈ (listItems textEnd tokens).1, tree.IsLate textEnd)
    (done : (listItems textEnd tokens).2 = []) : ∃ items : OpenItems,
      items.tokens = tokens ∧ items.trees textEnd = (listItems textEnd tokens).1 := by
  fun_induction listItems textEnd tokens with
  | case1 => exact ⟨.none, rfl, rfl⟩
  | case2 token kind reads item comma rest trees after read ih =>
    obtain ⟨value, rfl, tree⟩ := exists_scalar reads
    rw [read] at ih
    obtain ⟨items, consumed, same⟩ := ih ordered.2.2.2.2
      (fun tree member => late tree (by simp [member])) done
    refine ⟨.more value comma items, ?_, ?_⟩
    · simp [OpenItems.tokens, consumed]
    · simp [OpenItems.trees, Scalar.itemTree, tree, item, same]
  | case3 token kind reads item rest other =>
    obtain ⟨value, rfl, tree⟩ := exists_scalar reads
    obtain rfl : rest = [] := done
    exact ⟨.last value, rfl, by simp [OpenItems.trees, Scalar.itemTree, tree, item]⟩
  -- In the other cases an item is missing in front of a token.
  | case4 token rest _ absent =>
    exact absurd (eq_nil_of_missing ordered (late absent (by simp))) (by simp)
  | case5 token rest _ absent =>
    exact absurd (eq_nil_of_missing ordered (late absent (by simp))) (by simp)

/-- A list that is not closed has its items as far as they were typed. -/
theorem listLiteral_fragment {opening : Span} {tokens : List Token}
    (ordered : InOrder textEnd tokens)
    (late : (listLiteral textEnd opening tokens).1.IsLate textEnd)
    (broken : (listLiteral textEnd opening tokens).1.hasError = true) : ∃ items : OpenItems,
      items.tokens = tokens ∧
        (listLiteral textEnd opening tokens).1 = openListTree textEnd opening items := by
  by_cases empty : ∃ span rest, tokens = ⟨.closeParen, span⟩ :: rest
  · obtain ⟨span, rest, rfl⟩ := empty
    -- A list that is closed at once has nothing missing.
    simp [listLiteral, closing, NodeKind.isError] at broken
  · have filled : ∀ span rest, tokens ≠ ⟨.closeParen, span⟩ :: rest :=
      fun span rest same => empty ⟨span, rest, same⟩
    rw [listLiteral_eq textEnd opening filled] at late broken ⊢
    dsimp only at late broken ⊢
    have laid := listItems_lays textEnd tokens
    have below := isLate_of_inner late
    have items : ∀ tree ∈ (listItems textEnd tokens).1, tree.IsLate textEnd :=
      fun tree member => below tree (by simp [member])
    -- If the parenthesis were there, an item would be missing before it.
    have done : (listItems textEnd tokens).2 = [] := by
      rcases closing_late (laid.inOrder ordered) (below _ (by simp)) with closed | none
      · refine laid.eq_nil_of_hasError ordered items ?_
        simpa [closed, NodeKind.isError] using broken
      · exact none
    obtain ⟨typed, consumed, same⟩ := listItems_fragment ordered items done
    exact ⟨typed, consumed, by rw [openListTree, same, done]; rfl⟩

/-- A membership test without its list, or with an open one, is a fragment. -/
theorem membership_fragment (name : String) (span : Span) (operator : Membership)
    {rest : List Token} (ordered : InOrder textEnd rest)
    (late : (inner .comparison [fieldTree span, .leaf .inOperator operator.span,
      (membership textEnd rest).1]).IsLate textEnd)
    (broken : (inner .comparison [fieldTree span, .leaf .inOperator operator.span,
      (membership textEnd rest).1]).hasError = true) : ∃ fragment : Fragment .primary,
      fragment.tokens = ⟨.identifier name, span⟩ :: (operator.tokens ++ rest) ∧
      fragment.parts textEnd = [inner .comparison [fieldTree span,
        .leaf .inOperator operator.span, (membership textEnd rest).1]] := by
  -- The gap is inside of the list or stands in its place.
  have inside : (membership textEnd rest).1.hasError = true := by
    simpa [fieldTree, NodeKind.isError] using broken
  have below := isLate_of_inner late (membership textEnd rest).1 (by simp)
  clear late broken
  revert inside below
  fun_cases membership textEnd rest with
  | case1 opening rest =>
    intro broken late
    obtain ⟨items, consumed, same⟩ := listLiteral_fragment ordered.2.2 late broken
    refine ⟨.list name span operator opening items, ?_, ?_⟩
    · simp [Fragment.tokens, consumed]
    · simp [Fragment.parts, same]
  | case2 rest other =>
    intro _ late
    obtain rfl := eq_nil_of_missing ordered late
    exact ⟨.member name span operator, by simp [Fragment.tokens], rfl⟩

/-- A comparison that breaks off is a fragment. -/
theorem comparison_fragment {span : Span} {tokens : List Token} (name : String)
    (ordered : InOrder textEnd tokens) (late : (comparison textEnd span tokens).1.IsLate textEnd)
    (broken : (comparison textEnd span tokens).1.hasError = true) :
    ∃ fragment : Fragment .primary, fragment.tokens = ⟨.identifier name, span⟩ :: tokens ∧
      fragment.parts textEnd = [(comparison textEnd span tokens).1] := by
  revert late broken
  simp only [comparison]
  -- One case for each form of what follows the name.
  fun_cases comparisonTail textEnd tokens with
  | case1 word rest list after read =>
    have fragment := @membership_fragment textEnd name span (.isIn word) rest ordered.2.2
    rw [read] at fragment
    exact fragment
  | case2 negation word rest list after read =>
    have fragment := @membership_fragment textEnd name span (.notIn negation word) rest
      ordered.2.2.2.2
    rw [read] at fragment
    exact fragment
  | case3 => simp [NodeKind.isError]
  | case4 token rest _ _ compares value after read =>
    intro late broken
    obtain ⟨comparator, kind⟩ := Comparator.exists_of_symbol compares
    have same : (scalar textEnd rest).1 = value := by rw [read]
    have absent : value.hasError = true := by simpa [NodeKind.isError] using broken
    -- The value is missing, and it is so at the end of the text.
    have below := isLate_of_inner late value (by simp)
    rcases scalar_late ordered.2.2 (same ▸ below) with valued | rfl
    · rw [same, absent] at valued
      cases valued
    · cases read
      refine ⟨.compare name span comparator token.span, ?_, rfl⟩
      simp [Fragment.tokens, kind]
  | case5 => simp [NodeKind.isError]

/-- The rules for the inside of groups lie over their tokens. -/
theorem insideAt_isLaid (levels : Nat) : ∀ rule ∈ insideAt textEnd levels, rule.IsLaid textEnd := by
  -- The rule for the inside of a group is an expression one level down.
  cases levels with
  | zero => simp [insideAt]
  | succ levels => simpa [insideAt] using expression_isLaid levels

/-- A group that breaks off has its inside as far as it was typed. -/
theorem group_fragment {below : Nat} {opening : Span} {rest : List Token}
    (leaves : LeavesFragment textEnd (orExpression textEnd (insideAt textEnd below)) (.chain .or))
    (ordered : InOrder textEnd rest)
    (late : (group textEnd (insideAt textEnd (below + 1)) opening rest).1.IsLate textEnd)
    (broken : (group textEnd (insideAt textEnd (below + 1)) opening rest).1.hasError = true) :
    ∃ inside : Fragment (.chain .or), inside.tokens = rest ∧
      (group textEnd (insideAt textEnd (below + 1)) opening rest).1 =
        inner .group [.leaf .openParen opening, inner .expression [inside.tree textEnd],
          missing textEnd "')'" []] := by
  rw [group_succ] at late broken ⊢
  dsimp only at late broken ⊢
  have laid := orExpression_isLaid (@insideAt_isLaid textEnd below) rest
  have parts := isLate_of_inner late
  have body := isLate_of_inner (parts _ (.tail _ (.head _))) _ (List.mem_singleton.mpr rfl)
  -- If the parenthesis were there, something would be missing before it.
  have none : (orExpression textEnd (insideAt textEnd below) rest).2 = [] := by
    rcases closing_late (laid.inOrder ordered) (parts _ (by simp)) with closed | none
    · refine laid.eq_nil_of_hasError ordered (by simpa using body) ?_
      simpa [closed, NodeKind.isError] using broken
    · exact none
  obtain ⟨inside, consumed, tree⟩ := leaves rest ordered body none
  exact ⟨inside, consumed, by rw [tree, none]; rfl⟩

/-- A primary expression at the end of the text is a fragment, if the inside of a group is. -/
theorem primary_fragment {levels : Nat}
    (inside : ∀ below, levels = below + 1 →
      LeavesFragment textEnd (orExpression textEnd (insideAt textEnd below)) (.chain .or)) :
    LeavesFragment textEnd (primary textEnd (insideAt textEnd levels)) .primary := by
  intro tokens ordered late done
  cases broken : (primary textEnd (insideAt textEnd levels) tokens).1.hasError with
  | false =>
    -- Without an error it is a whole phrase.
    obtain ⟨phrase, -, consumed, tree⟩ :=
      (primary_recognizes fun below _ => orExpression_recognizes textEnd below).sound tokens broken
    rw [done, List.append_nil] at consumed
    exact ⟨.whole phrase, consumed, tree⟩
  | true =>
    suffices ∃ fragment : Fragment .primary, fragment.tokens = tokens ∧
        fragment.parts textEnd = [(primaryBody textEnd (insideAt textEnd levels) tokens).1] by
      obtain ⟨fragment, consumed, parts⟩ := this
      exact ⟨fragment, consumed, by rw [Fragment.tree, parts]; rfl⟩
    have below : (primaryBody textEnd (insideAt textEnd levels) tokens).1.IsLate textEnd :=
      isLate_of_inner late _ (List.mem_singleton.mpr rfl)
    have absent : (primaryBody textEnd (insideAt textEnd levels) tokens).1.hasError = true := by
      simpa [primary, NodeKind.isError] using broken
    clear late done broken
    revert below absent
    -- One case for each way in which the first two tokens decide what is read.
    fun_cases primaryBody textEnd (insideAt textEnd levels) tokens with
    | case1 opening rest =>
      intro late broken
      cases levels with
      | zero =>
        -- On the last level nothing is read behind the parenthesis.
        simp only [insideAt, group] at late
        have absent := isLate_of_inner late (missing textEnd "shallower nesting" rest) (by simp)
        obtain rfl := eq_nil_of_missing ordered.2.2 absent
        exact ⟨.tooDeep opening, rfl, rfl⟩
      | succ below =>
        obtain ⟨fragment, consumed, tree⟩ :=
          group_fragment (inside below rfl) ordered.2.2 late broken
        refine ⟨.group opening fragment, ?_, ?_⟩
        · simp [Fragment.tokens, consumed]
        · rw [tree]
          rfl
    | case2 name span opening rest =>
      intro late broken
      simp only [aliasCall] at late broken
      rcases closing_late ordered.2.2.2.2 (isLate_of_inner late _ (by simp)) with closed | rfl
      · simp [closed, NodeKind.isError] at broken
      · exact ⟨.call name span opening, rfl, rfl⟩
    | case3 name span rest apart =>
      exact fun late broken => comparison_fragment name ordered.2.2 late broken
    | case4 tokens =>
      intro late _
      obtain rfl := eq_nil_of_missing ordered late
      exact ⟨.nothing, rfl, rfl⟩

/-- What is read without a negation in front is a fragment. -/
theorem notExpression_fragment_plain {inside : Option Rule}
    (operands : LeavesFragment textEnd (primary textEnd inside) .primary) {tokens : List Token}
    (ordered : InOrder textEnd tokens)
    (apart : ∀ token ∈ tokens.head?, (token.kind == .notWord) = false)
    (late : (notExpression textEnd inside tokens).1.IsLate textEnd)
    (done : (notExpression textEnd inside tokens).2 = []) :
    ∃ fragment : Fragment .negation, fragment.tokens = tokens ∧
      fragment.tree textEnd = (notExpression textEnd inside tokens).1 := by
  -- The operand is read by the rule for operands, whose tree is the only child.
  rw [notExpression_plain _ _ apart] at late done ⊢
  obtain ⟨fragment, consumed, tree⟩ :=
    operands tokens ordered (isLate_of_inner late _ (List.mem_singleton.mpr rfl)) done
  exact ⟨.plain fragment, consumed, by rw [← tree]; rfl⟩

/-- Negations and what follows them at the end of the text are a fragment. -/
theorem notExpression_fragment {inside : Option Rule}
    (operands : LeavesFragment textEnd (primary textEnd inside) .primary) :
    LeavesFragment textEnd (notExpression textEnd inside) .negation := by
  intro tokens ordered late done
  -- The induction takes one negation off the front at a time.
  induction tokens with
  | nil => exact notExpression_fragment_plain operands ordered (by simp) late done
  | cons token rest ih =>
    by_cases negation : token.kind = .notWord
    · obtain ⟨kind, word⟩ := token
      obtain rfl : kind = .notWord := negation
      rw [notExpression_negated] at late done ⊢
      dsimp only at late
      have parts := isLate_of_inner late
      have behind : (notExpression textEnd inside rest).1 =
          inner .notExpression (notExpression textEnd inside rest).1.children := by
        simp [notExpression]
      have below : (notExpression textEnd inside rest).1.IsLate textEnd := by
        rw [behind]
        exact isLate_inner rfl fun child member => parts child (List.mem_cons_of_mem _ member)
      obtain ⟨fragment, consumed, tree⟩ := ih ordered.2.2 below done
      refine ⟨.negated word fragment, by simp [Fragment.tokens, consumed], ?_⟩
      simp [← tree, Fragment.tree, Fragment.parts, Category.nodeKind]
    · exact notExpression_fragment_plain operands ordered (by simpa using negation) late done

/-- The links that continue a chain to the end of the text make a longer fragment of it. -/
theorem chainTail_fragment {connective : Connective} {levels : Nat} {operand : Rule}
    (operands : Recognizes operand levels connective.operand) (laid : operand.IsLaid textEnd)
    (leaves : LeavesFragment textEnd operand connective.operand) (rounds : Nat)
    (tokens : List Token) (left : Phrase (.chain connective)) (ordered : InOrder textEnd tokens)
    (late : ∀ tree ∈ (chainTail connective.word connective.mark operand rounds tokens).1,
      tree.IsLate textEnd)
    (done : (chainTail connective.word connective.mark operand rounds tokens).2 = []) :
    ∃ fragment : Fragment (.chain connective), fragment.tokens = left.tokens ++ tokens ∧
      fragment.parts textEnd = left.parts ++
        (chainTail connective.word connective.mark operand rounds tokens).1 := by
  have ended (left : Phrase (.chain connective)) : ∃ fragment : Fragment (.chain connective),
      fragment.tokens = left.tokens ++ [] ∧ fragment.parts textEnd = left.parts ++ [] :=
    ⟨left.fragment, by simpa using left.fragment_eq textEnd⟩
  -- The induction follows the reader from operator to operator.
  fun_induction chainTail connective.word connective.mark operand rounds tokens generalizing left
  with
  | case1 tokens =>
    obtain rfl : tokens = [] := done
    exact ended left
  | case2 rounds => exact ended left
  | case3 rounds token rest same next after read more remaining others ih =>
    rw [List.forall_mem_cons, List.forall_mem_cons] at late
    rcases late with ⟨-, first, later⟩
    have below := laid rest
    rw [read] at below
    cases broken : next.hasError with
    | true =>
      -- The operand that breaks off is the last one.
      obtain rfl := below.eq_nil_of_hasError ordered.2.2 (by simpa using first)
        (by simpa using broken)
      have none : more = [] := by
        cases rounds <;> cases others <;> rfl
      obtain ⟨fragment, consumed, tree⟩ :=
        leaves rest ordered.2.2 (by rw [read]; exact first) (by rw [read])
      refine ⟨.join left token.span fragment, ?_, ?_⟩
      · simp [Fragment.tokens, consumed, ← same]
      · have last : fragment.tree textEnd = next := by rw [tree, read]
        rw [none, ← last]
        rfl
    | false =>
      obtain ⟨phrase, -, consumed, tree⟩ := operands.sound rest (by rw [read]; exact broken)
      rw [read] at consumed
      rw [read, Phrase.tree] at tree
      rw [others] at ih
      obtain ⟨fragment, spelled, parts⟩ := ih (left.join token.span phrase)
        (below.inOrder ordered.2.2) later done
      refine ⟨fragment, ?_, ?_⟩
      · simp [spelled, Phrase.tokens, consumed, ← same]
      · simp [parts, Phrase.parts, tree]
  | case4 => simp at done

/-- A chain at the end of the text is a fragment, if its operands are. -/
theorem chain_fragment {connective : Connective} {levels : Nat} {operand : Rule}
    (operands : Recognizes operand levels connective.operand) (laid : operand.IsLaid textEnd)
    (leaves : LeavesFragment textEnd operand connective.operand) :
    LeavesFragment textEnd
      (chain (Category.chain connective).nodeKind connective.word connective.mark operand)
      (.chain connective) := by
  intro tokens ordered late done
  simp only [chain] at late done ⊢
  have parts := isLate_of_inner late
  rw [List.forall_mem_cons] at parts
  have below := laid tokens
  cases broken : (operand tokens).1.hasError with
  | true =>
    -- The first operand breaks off, and nothing follows.
    have none := below.eq_nil_of_hasError ordered (by simpa using parts.1) (by simpa using broken)
    obtain ⟨fragment, consumed, tree⟩ := leaves tokens ordered parts.1 none
    refine ⟨.single fragment, consumed, ?_⟩
    rw [none, ← tree]
    rfl
  | false =>
    obtain ⟨phrase, -, consumed, tree⟩ := operands.sound tokens broken
    obtain ⟨fragment, spelled, same⟩ := chainTail_fragment operands laid leaves _ _
      (.single phrase) (below.inOrder ordered) parts.2 done
    refine ⟨fragment, ?_, ?_⟩
    · rw [spelled]
      exact consumed
    · rw [Fragment.tree, same, ← tree]
      rfl

/-- At every level a disjunction at the end of the text is a fragment. -/
theorem orExpression_fragment (levels : Nat) :
    LeavesFragment textEnd (orExpression textEnd (insideAt textEnd levels)) (.chain .or) := by
  -- The rules of one level rest on the whole expression of the level below.
  have level : ∀ levels, (∀ below, levels = below + 1 →
      LeavesFragment textEnd (orExpression textEnd (insideAt textEnd below)) (.chain .or)) →
      LeavesFragment textEnd (orExpression textEnd (insideAt textEnd levels)) (.chain .or) := by
    intro levels inside
    have negations := notExpression_recognizes (primary_recognizes
      fun below (_ : levels = below + 1) => orExpression_recognizes textEnd below)
    have laid := @insideAt_isLaid textEnd levels
    have conjunctions := @chain_fragment textEnd .and levels _ negations (notExpression_isLaid laid)
      (notExpression_fragment (primary_fragment inside))
    exact @chain_fragment textEnd .or levels _ (@chain_recognizes .and levels _ negations)
      (andExpression_isLaid laid) conjunctions
  induction levels with
  | zero => exact level 0 (by omega)
  | succ levels ih =>
    apply level
    intro below same
    obtain rfl : levels = below := by omega
    exact ih

end Late

/-- If the first error of a tidy tree is at the very end, then so are all others. -/
theorem Tree.isLate_of_firstError? {tree : Tree} (tidy : ∀ sub ∈ tree.subtrees, sub.IsTidy)
    (first : ∀ error ∈ tree.firstError?, error.span = .empty tree.span.stop) :
    tree.IsLate tree.span.stop := by
  intro sub inside error
  have mark := firstMark?_eq tree
  cases found : tree.firstError? with
  | none =>
    rw [found, firstMark?, List.flatMap_singleton] at mark
    exact absurd error (List.find?_eq_none.mp mark sub inside)
  | some earliest =>
    rw [found, Option.map_some] at mark
    -- No error begins before the first one, and nothing reaches behind the end of the tree.
    have later : earliest.tree.span.start ≤ sub.span.start :=
      firstMark?_start_le tidy mark sub inside error
    have bounds := within tidy sub inside
    have start : earliest.tree.span.start = tree.span.stop := congrArg Span.start (first _ found)
    have both : sub.span.start = tree.span.stop ∧ sub.span.stop = tree.span.stop := by omega
    cases span : sub.span with
    | mk left right => simpa [Span.empty, span] using both

/-- A fragment typed as a text: the text is cut into its tokens and has its tree. -/
structure Fragment.IsTyped (fragment : Fragment (.chain .or)) (text : String) : Prop where
  tokens : fragment.tokens = tokenize text
  tree : parse text =
    .node .query ⟨0, byteSize text⟩ [inner .expression [fragment.tree (byteSize text)]]
  laid : Lays (byteSize text) [fragment.tree (byteSize text)] (tokenize text) []

/-- A text that nothing but its end is missing from is a fragment of a query. -/
theorem exists_isTyped {text : String}
    (half : ∀ error ∈ (parse text).firstError?, error.span = .empty (byteSize text)) :
    ∃ fragment : Fragment (.chain .or), fragment.IsTyped text := by
  have shape := parse_eq text
  have stop : (parse text).span.stop = byteSize text := by rw [shape]; rfl
  have late := Tree.isLate_of_firstError? (parse_isTidy text) (by rwa [stop])
  have ordered := inOrder_tokenize text
  have laid := orExpression_isLaid (@insideAt_isLaid (byteSize text) maxNesting) (tokenize text)
  have leaves := orExpression_fragment maxNesting (tokenize text) ordered
  -- From here on only what was read and what was left of the tokens matters.
  rw [disjunctionOf] at shape
  generalize orExpression (byteSize text) (insideAt (byteSize text) maxNesting) (tokenize text)
    = read at laid leaves shape
  obtain ⟨body, left⟩ := read
  rw [stop, shape] at late
  have below : ∀ child ∈ inner .expression [body] :: leftOver left,
      child.IsLate (byteSize text) := by
    intro child member sub inside
    refine late sub ?_
    rw [Tree.subtrees_node]
    exact List.mem_cons_of_mem _ (List.mem_flatMap.mpr ⟨child, member, inside⟩)
  rw [List.forall_mem_cons] at below
  -- A mark over what is left would begin before the end.
  obtain rfl : left = [] := by
    have behind := laid.inOrder ordered
    cases left with
    | nil => rfl
    | cons first rest =>
      obtain ⟨wide, inside⟩ := behind.reach
      have place := below.2 _ (List.mem_singleton.mpr rfl) _ (Tree.self_mem_subtrees _) rfl
      have start : first.span.start = byteSize text := congrArg Span.start place
      omega
  obtain ⟨fragment, consumed, tree⟩ :=
    leaves (isLate_of_inner below.1 _ (List.mem_singleton.mpr rfl)) rfl
  refine ⟨fragment, consumed, ?_, ?_⟩
  · rw [shape, tree]
    rfl
  · rw [tree]
    exact laid

end FilterLang
