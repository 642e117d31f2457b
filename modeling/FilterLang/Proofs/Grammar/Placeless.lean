import FilterLang.Proofs.Grammar.Recognition

/-! The grammar reads the kinds of tokens only. -/

namespace FilterLang

/-- A token put at the start of the text. -/
def Token.unplaced (token : Token) : Token :=
  ⟨token.kind, .empty 0⟩

mutual

/-- A tree with all of its nodes put at the start of the text. -/
def Tree.unplaced : Tree → Tree
  | .node kind _ children => .node kind (.empty 0) (unplacedAll children)

/-- Trees with all of their nodes put at the start of the text. -/
def Tree.unplacedAll : List Tree → List Tree
  | [] => []
  | tree :: trees => tree.unplaced :: unplacedAll trees

end

/-- A token keeps its kind. -/
@[simp] theorem Token.unplaced_mk (kind : TokenKind) (span : Span) :
    Token.unplaced ⟨kind, span⟩ = ⟨kind, .empty 0⟩ := rfl

namespace Tree

/-- Several trees are put at the start one by one. -/
theorem unplacedAll_eq_map (trees : List Tree) : unplacedAll trees = trees.map unplaced := by
  -- Induction on the trees; lists of them are stripped by a recursion of their own.
  induction trees with
  | nil => rfl
  | cons tree trees ih => rw [unplacedAll, ih, List.map_cons]

/-- A node and what is below it are put at the start. -/
@[simp] theorem unplaced_node (kind : NodeKind) (span : Span) (children : List Tree) :
    (node kind span children).unplaced = .node kind (.empty 0) (children.map unplaced) := by
  rw [unplaced, unplacedAll_eq_map]

/-- A leaf is put at the start. -/
@[simp] theorem unplaced_leaf (kind : NodeKind) (span : Span) :
    (leaf kind span).unplaced = .leaf kind (.empty 0) := rfl

/-- A tree keeps its kind. -/
@[simp] theorem kind_unplaced (tree : Tree) : tree.unplaced.kind = tree.kind := by
  cases tree
  rfl

/-- What is at the start of the text spans nothing. -/
@[simp] theorem span_unplaced (tree : Tree) : tree.unplaced.span = .empty 0 := by
  cases tree
  rfl

end Tree

/-- A node over trees at the start of the text is itself there. -/
@[simp] theorem unplaced_inner (kind : NodeKind) (trees : List Tree) :
    (inner kind trees).unplaced = inner kind (trees.map Tree.unplaced) := by
  -- The span of an inner node is gathered from those of its children.
  have gathered : ∀ rest : List Tree,
      (rest.map Tree.unplaced).foldl (fun span tree => Span.cover span tree.span) (Span.empty 0) =
        Span.empty 0 := by
    intro rest
    induction rest with
    | nil => rfl
    | cons tree rest ih =>
      rw [List.map_cons, List.foldl_cons, Tree.span_unplaced]
      exact ih
  cases trees with
  | nil => rfl
  | cons tree trees =>
    rw [inner_eq_node, Tree.unplaced_node, inner, List.map_cons, Tree.covering, Tree.span_unplaced,
      gathered]

/-- The mark of something missing is put at the start. -/
@[simp] theorem unplaced_missing (textEnd : Nat) (what : String) (tokens : List Token) :
    (missing textEnd what tokens).unplaced = missing 0 what (tokens.map Token.unplaced) := by
  cases tokens <;> rfl

/-- A scalar is put at the start. -/
@[simp] theorem unplaced_scalarOf (kind : NodeKind) (span : Span) :
    (scalarOf kind span).unplaced = scalarOf kind (.empty 0) := by
  simp [scalarOf]

/-- What a rule has read and left, put at the start of the text. -/
abbrev unplacedRead : Tree × List Token → Tree × List Token :=
  Prod.map Tree.unplaced (List.map Token.unplaced)

/-- The trees that a rule has read and what it left, put at the start of the text. -/
abbrev unplacedReads : List Tree × List Token → List Tree × List Token :=
  Prod.map (List.map Tree.unplaced) (List.map Token.unplaced)

/-- Two rules that read the same but for the places, the second from tokens without places. -/
def Placeless (placed bare : Rule) : Prop :=
  ∀ tokens, unplacedRead (placed tokens) = bare (tokens.map Token.unplaced)

namespace Placeless

variable {placed bare : Rule}

/-- The trees agree but for the places. -/
theorem tree (same : Placeless placed bare) (tokens : List Token) :
    (placed tokens).1.unplaced = (bare (tokens.map Token.unplaced)).1 :=
  congrArg Prod.fst (same tokens)

/-- The tokens that are left agree but for the places. -/
theorem rest (same : Placeless placed bare) (tokens : List Token) :
    (placed tokens).2.map Token.unplaced = (bare (tokens.map Token.unplaced)).2 :=
  congrArg Prod.snd (same tokens)

end Placeless

section Rules

variable (textEnd : Nat)

/-- The closing parenthesis is known by its kind. -/
theorem closing_placeless : Placeless (closing textEnd) (closing 0) := by
  -- The rule looks at the kind of the first token, which both sides share.
  intro tokens
  cases tokens with
  | nil => rfl
  | cons token rest =>
    obtain ⟨kind, span⟩ := token
    cases kind <;> rfl

/-- A literal is known by its kind. -/
theorem scalar_placeless : Placeless (scalar textEnd) (scalar 0) := by
  -- The reader looks at the kind of one token.
  intro tokens
  cases tokens with
  | nil => rfl
  | cons token rest =>
    obtain ⟨kind, span⟩ := token
    cases kind <;> rfl

/-- The items of a list and their commas are known by their kinds. -/
theorem listItems_unplaced (tokens : List Token) :
    unplacedReads (listItems textEnd tokens) = listItems 0 (tokens.map Token.unplaced) := by
  -- The induction follows the reader from item to item.
  fun_induction listItems textEnd tokens with
  | case1 => rfl
  | case2 token kind literal item span rest items left read ih =>
    obtain ⟨tokenKind, place⟩ := token
    rw [read] at ih
    simp only [List.map_cons, Token.unplaced_mk, listItems, literal, ← ih, Prod.map, item,
      unplaced_inner, unplaced_scalarOf, Tree.unplaced_leaf, List.map_nil]
  | case3 token kind literal item rest apart =>
    obtain ⟨tokenKind, place⟩ := token
    simp only [List.map_cons, Token.unplaced_mk, listItems, literal, Prod.map, item,
      unplaced_inner, unplaced_scalarOf, List.map_nil]
    -- What follows is no comma, so the list ends here on both sides.
    cases rest with
    | nil => rfl
    | cons token rest =>
      obtain ⟨next, place⟩ := token
      cases next <;> first | rfl | exact (apart _ _ rfl).elim
  | case4 token rest other absent comma items left read ih =>
    obtain ⟨tokenKind, place⟩ := token
    rw [read] at ih
    simp only [List.map_cons, Token.unplaced_mk, listItems, other, ← ih, Prod.map, absent,
      unplaced_missing, if_pos comma, Tree.unplaced_leaf]
  | case5 token rest other absent apart =>
    obtain ⟨tokenKind, place⟩ := token
    simp only [List.map_cons, Token.unplaced_mk, listItems, other, Prod.map, absent,
      unplaced_missing, if_neg apart, List.map_nil]

/-- A list literal is known by the kinds between its parentheses. -/
theorem listLiteral_unplaced (opening : Span) (tokens : List Token) :
    unplacedRead (listLiteral textEnd opening tokens) =
      listLiteral 0 (.empty 0) (tokens.map Token.unplaced) := by
  -- The items and the parenthesis behind them are read alike.
  have close := closing_placeless textEnd
  have trees : (listItems textEnd tokens).1.map Tree.unplaced =
      (listItems 0 (tokens.map Token.unplaced)).1 :=
    congrArg Prod.fst (listItems_unplaced textEnd tokens)
  have left : (listItems textEnd tokens).2.map Token.unplaced =
      (listItems 0 (tokens.map Token.unplaced)).2 :=
    congrArg Prod.snd (listItems_unplaced textEnd tokens)
  cases tokens with
  | nil => rfl
  | cons token rest =>
    obtain ⟨kind, span⟩ := token
    -- Only a closing parenthesis right behind the opening one leaves no items.
    by_cases empty : kind = .closeParen
    · subst empty
      rfl
    · have inside : ∀ (textEnd : Nat) (opening span : Span) (rest : List Token),
          listLiteral textEnd opening (⟨kind, span⟩ :: rest) =
            (inner .listLiteral (.leaf .openParen opening ::
              (listItems textEnd (⟨kind, span⟩ :: rest)).1 ++
              [(closing textEnd (listItems textEnd (⟨kind, span⟩ :: rest)).2).1]),
            (closing textEnd (listItems textEnd (⟨kind, span⟩ :: rest)).2).2) := by
        intro textEnd opening span rest
        cases kind <;> first | rfl | exact absurd rfl empty
      rw [List.map_cons, Token.unplaced_mk] at trees left
      rw [List.map_cons, Token.unplaced_mk, inside, inside, ← trees, ← left]
      simp [close.tree, close.rest]

/-- The list after a membership operator is known by its kinds. -/
theorem membership_placeless : Placeless (membership textEnd) (membership 0) := by
  -- The reader looks at the kind of one token, and only a parenthesis leads further.
  intro tokens
  cases tokens with
  | nil => rfl
  | cons token rest =>
    obtain ⟨kind, span⟩ := token
    cases kind with
    | openParen => exact listLiteral_unplaced textEnd span rest
    | _ => rfl

/-- The operator and the value behind a field are known by their kinds. -/
theorem comparisonTail_unplaced (tokens : List Token) :
    unplacedReads (comparisonTail textEnd tokens) =
      comparisonTail 0 (tokens.map Token.unplaced) := by
  -- One case for each way to go on behind a field, by the first one or two kinds.
  fun_cases comparisonTail textEnd tokens with
  | case1 span rest list left read =>
    have same := membership_placeless textEnd rest
    rw [read] at same
    simp only [List.map_cons, Token.unplaced_mk, comparisonTail, ← same, Prod.map, List.map_nil,
      Tree.unplaced_leaf]
  | case2 first second rest list left read =>
    have same := membership_placeless textEnd rest
    rw [read] at same
    simp only [List.map_cons, Token.unplaced_mk, comparisonTail, ← same, Prod.map, List.map_nil,
      Tree.unplaced_leaf, Span.empty]
  | case3 => rfl
  | case4 token rest apart apart' compares value left read =>
    obtain ⟨kind, span⟩ := token
    have same := scalar_placeless textEnd rest
    rw [read] at same
    obtain ⟨comparator, rfl⟩ := Comparator.exists_of_symbol compares
    cases comparator <;>
      simp only [List.map_cons, Token.unplaced_mk, Comparator.kind, comparisonTail,
        TokenKind.comparisonSymbol?, Option.isSome_some, if_true, ← same, Prod.map, List.map_nil,
        Tree.unplaced_leaf]
  | case5 token rest apart apart' other =>
    obtain ⟨kind, span⟩ := token
    cases kind with
    | inWord => exact (apart _ rfl).elim
    | notWord =>
      -- A negation alone is no operator.
      cases rest with
      | nil => rfl
      | cons token rest =>
        obtain ⟨next, place⟩ := token
        cases next <;> first | rfl | exact (apart' _ _ _ rfl rfl).elim
    | _ => first | rfl | exact absurd rfl other

/-- A comparison is known by the kinds behind its field. -/
theorem comparison_unplaced (name : Span) (tokens : List Token) :
    unplacedRead (comparison textEnd name tokens) =
      comparison 0 (.empty 0) (tokens.map Token.unplaced) := by
  -- The tail is read alike; the field in front is the same leaf but for its place.
  have tail := comparisonTail_unplaced textEnd tokens
  simp only [comparison, ← tail, Prod.map_fst, Prod.map_snd, Prod.map_apply, unplaced_inner,
    List.map_cons, List.map_nil, Tree.unplaced_leaf]

/-- A call is known by the kind behind its opening parenthesis. -/
theorem aliasCall_unplaced (name opening : Span) (tokens : List Token) :
    unplacedRead (aliasCall textEnd name opening tokens) =
      aliasCall 0 (.empty 0) (.empty 0) (tokens.map Token.unplaced) := by
  -- The parenthesis is read alike; the two leaves in front are the same but for their places.
  have close := closing_placeless textEnd tokens
  simp only [aliasCall, ← close, Prod.map_fst, Prod.map_snd, Prod.map_apply, unplaced_inner,
    List.map_cons, List.map_nil, Tree.unplaced_leaf]

variable {inside inside' : Option Rule}

/-- A group is known by its kinds, if its inside is. -/
theorem group_unplaced (same : Option.Rel Placeless inside inside') (opening : Span)
    (tokens : List Token) :
    unplacedRead (group textEnd inside opening tokens) =
      group 0 inside' (.empty 0) (tokens.map Token.unplaced) := by
  -- Either both refuse the inside or both read it alike.
  cases same with
  | none =>
    simp only [group, Prod.map, unplaced_inner, List.map_cons, List.map_nil, Tree.unplaced_leaf,
      unplaced_missing]
  | some placeless =>
    have close := closing_placeless textEnd
    simp only [group, ← placeless.tree, ← placeless.rest, ← close.tree, ← close.rest, Prod.map,
      unplaced_inner, List.map_cons, List.map_nil, Tree.unplaced_leaf]

/-- A primary expression is known by its kinds, if the insides of groups are. -/
theorem primary_placeless (same : Option.Rel Placeless inside inside') :
    Placeless (primary textEnd inside) (primary 0 inside') := by
  have body : Placeless (primaryBody textEnd inside) (primaryBody 0 inside') := by
    intro tokens
    fun_cases primaryBody textEnd inside tokens with
    | case1 span rest => exact group_unplaced textEnd same span rest
    | case2 name span opening rest => exact aliasCall_unplaced textEnd span opening rest
    | case3 name span rest apart =>
      -- No parenthesis follows the name, with or without its place.
      rw [comparison_unplaced]
      cases rest with
      | nil => rfl
      | cons token rest =>
        obtain ⟨next, place⟩ := token
        cases next <;> first | rfl | exact (apart _ _ rfl).elim
    | case4 tokens opens calls names =>
      cases tokens with
      | nil => rfl
      | cons token rest =>
        obtain ⟨kind, span⟩ := token
        cases kind with
        | openParen => exact (opens _ _ rfl).elim
        | identifier name => exact (names _ _ _ rfl).elim
        | _ => rfl
  intro tokens
  simp only [primary, ← body.tree, ← body.rest, Prod.map, unplaced_inner, List.map_cons,
    List.map_nil]

/-- Negations are known by their kind, and so is the operand behind them. -/
theorem notExpression_placeless (same : Option.Rel Placeless inside inside') :
    Placeless (notExpression textEnd inside) (notExpression 0 inside') := by
  intro tokens
  have operand := primary_placeless textEnd same
  -- Where the negations end does not depend on where they stand.
  have kinds : ((·.kind == .notWord) ∘ Token.unplaced) = fun token => token.kind == .notWord := rfl
  simp only [notExpression, List.takeWhile_map, List.dropWhile_map, kinds, ← operand.tree,
    ← operand.rest, Prod.map_apply, unplaced_inner, List.map_append, List.map_cons, List.map_nil,
    List.map_map]
  rfl

end Rules

section Chains

variable {placed bare : Rule}

/-- The links of a chain are known by their kinds, if its operands are. -/
theorem chainTail_unplaced (same : Placeless placed bare) (operator : TokenKind) (mark : NodeKind)
    (rounds : Nat) (tokens : List Token) :
    unplacedReads (chainTail operator mark placed rounds tokens) =
      chainTail operator mark bare rounds (tokens.map Token.unplaced) := by
  -- The induction follows the reader from operator to operator.
  fun_induction chainTail operator mark placed rounds tokens with
  | case1 tokens => rfl
  | case2 rounds => rfl
  | case3 rounds token rest known next left read more remaining others ih =>
    obtain ⟨kind, span⟩ := token
    have operand := same rest
    rw [read] at operand
    rw [others] at ih
    simp only [List.map_cons, Token.unplaced_mk, chainTail, if_pos known, ← operand, ← ih,
      Prod.map_apply, Tree.unplaced_leaf]
  | case4 rounds token rest other =>
    obtain ⟨kind, span⟩ := token
    simp only [List.map_cons, Token.unplaced_mk, chainTail, if_neg other, Prod.map_apply,
      List.map_nil]

/-- A chain is known by its kinds, if its operands are. -/
theorem chain_placeless (same : Placeless placed bare) (kind : NodeKind) (operator : TokenKind)
    (mark : NodeKind) :
    Placeless (chain kind operator mark placed) (chain kind operator mark bare) := by
  intro tokens
  -- As many tokens are left on both sides, so as many rounds are allowed.
  have tail := chainTail_unplaced same operator mark (placed tokens).2.length (placed tokens).2
  simp only [chain, ← same.tree, ← same.rest, List.length_map, ← tail, Prod.map_fst, Prod.map_snd,
    Prod.map_apply, unplaced_inner, List.map_cons]

end Chains

/-- A whole expression is known by its kinds, if the insides of groups are. -/
theorem expressionOver_placeless (textEnd : Nat) {inside inside' : Option Rule}
    (same : Option.Rel Placeless inside inside') :
    Placeless (expressionOver textEnd inside) (expressionOver 0 inside') := by
  -- The two chains are built over negations that are read alike.
  intro tokens
  have body : Placeless (orExpression textEnd inside) (orExpression 0 inside') :=
    chain_placeless (chain_placeless (notExpression_placeless textEnd same) _ _ _) _ _ _
  simp only [expressionOver, ← body.tree, ← body.rest, Prod.map_apply, unplaced_inner,
    List.map_cons, List.map_nil]

/-- An expression is known by its kinds, however many groups may be opened in it. -/
theorem expression_placeless (textEnd levels : Nat) :
    Placeless (expression textEnd levels) (expression 0 levels) := by
  -- The inside of a group is an expression with one level less.
  induction levels with
  | zero => exact expressionOver_placeless textEnd .none
  | succ levels ih => exact expressionOver_placeless textEnd (.some ih)

/-- What is left over is put at the start. -/
theorem unplaced_leftOver (tokens : List Token) :
    (leftOver tokens).map Tree.unplaced = leftOver (tokens.map Token.unplaced) := by
  -- The mark over what is left spans from the first token to the last, both without places.
  cases tokens with
  | nil => rfl
  | cons first rest =>
    have last : (rest.map Token.unplaced).getLastD first.unplaced =
        (rest.getLastD first).unplaced := by
      rw [List.getLastD_eq_getLast?, List.getLastD_eq_getLast?, List.getLast?_map]
      cases rest.getLast? <;> rfl
    rw [List.map_cons, leftOver, leftOver, last]
    rfl

/-- The tree of tokens without places is their tree without places. -/
theorem unplaced_treeOf (textEnd : Nat) (tokens : List Token) :
    (treeOf textEnd tokens).unplaced = treeOf 0 (tokens.map Token.unplaced) := by
  -- Body and rest are read alike, so the mark over the rest is the same.
  have body := expression_placeless textEnd maxNesting
  simp only [treeOf, ← body.tree, ← body.rest, ← unplaced_leftOver, Tree.unplaced_node,
    List.map_cons, Span.empty]

/-- Texts whose tokens agree in kind have trees of one shape. -/
theorem unplaced_parse {first second : String}
    (same : (tokenize first).map (·.kind) = (tokenize second).map (·.kind)) :
    (parse first).unplaced = (parse second).unplaced := by
  -- Without its place a token is nothing but its kind.
  have tokens : ∀ text : String, (tokenize text).map Token.unplaced =
      ((tokenize text).map (·.kind)).map fun kind => ⟨kind, .empty 0⟩ := by
    intro text
    rw [List.map_map]
    rfl
  rw [parse, parse, unplaced_treeOf, unplaced_treeOf, tokens, tokens, same]

/-- A visited node and what is above it, put at the start of the text. -/
def Visit.unplaced (visit : Visit) : Visit :=
  ⟨visit.tree.unplaced, visit.ancestors.map Tree.unplaced⟩

namespace Tree

mutual

/-- A walk meets the same nodes wherever they are put. -/
theorem visitsUnder_unplaced (above : List Tree) : ∀ tree : Tree,
    visitsUnder (above.map unplaced) tree.unplaced = (visitsUnder above tree).map Visit.unplaced
  -- Mutual recursion with lists of trees; the path above is stripped as it grows.
  | .node kind span children => by
    have below := visitsOfAll_unplaced (.node kind span children :: above) children
    rw [List.map_cons, unplaced_node] at below
    rw [unplaced_node, visitsUnder, below, visitsUnder, List.map_cons, Visit.unplaced,
      unplaced_node]

/-- A walk over siblings meets the same nodes wherever they are put. -/
theorem visitsOfAll_unplaced (above : List Tree) : ∀ trees : List Tree,
    visitsOfAll (above.map unplaced) (trees.map unplaced) =
      (visitsOfAll above trees).map Visit.unplaced
  | [] => rfl
  | tree :: trees => by
    rw [List.map_cons, visitsOfAll, visitsUnder_unplaced above tree,
      visitsOfAll_unplaced above trees, visitsOfAll, List.map_append]

end

/-- The code of the report on a tree does not depend on where its nodes are. -/
theorem code_fault?_unplaced (tree : Tree) :
    tree.unplaced.fault?.map (·.code) = tree.fault?.map (·.code) := by
  have visits : tree.unplaced.visits = tree.visits.map Visit.unplaced :=
    visitsUnder_unplaced [] tree
  -- The first error is the same, and so are its kind and the number of nodes above it.
  have kinds : ((·.kind.isError) ∘ Visit.unplaced) = fun visit : Visit => visit.kind.isError := by
    funext visit
    simp [Visit.unplaced, Visit.kind]
  have found : tree.unplaced.firstError? = tree.firstError?.map Visit.unplaced := by
    rw [firstError?, visits, List.find?_map, kinds, firstError?]
  rw [fault?, found, fault?, Option.map_map, Option.map_map, Option.map_map]
  congr 1
  funext visit
  simp only [Function.comp_apply, Visit.unplaced, List.length_map]
  split <;> rfl

end Tree

end FilterLang
