import FilterLang.Proofs.Ast.Meaning
import FilterLang.Proofs.Context.Position
import FilterLang.Proofs.Tree.LastLeaf

/-! What the rules for contexts see where a fragment breaks off. -/

namespace FilterLang

/-- Whether a leaf of a kind is a value. -/
def NodeKind.isLiteral : NodeKind → Bool
  | string => true
  | number => true
  | boolean => true
  | _ => false

/-- The last leaf before a place: the rule for the place answers there. -/
def Position.Behind (source : List Char) (visit : Visit) : Position → Prop
  | clause => visit.opensClause = true
  | negation => visit.afterNot? = some .afterNot
  | field name negated =>
    visit.fieldName? source = some name ∧
      visit.partialClause? source visit.span.stop =
        some (if negated then .partialAfterNot name else .partialClauseStart name)
  | comparator name => visit.afterOperator? source = some (.afterCompareOperator (some name))
  | membership name => visit.afterOperator? source = some (.afterInOperator (some name))
  | listOpening name => visit.listValueStart? source = some (.inListValueStart (some name))
  | listComma name => visit.listValueStart? source = some (.inListValueStart (some name))
  -- No rule is for these two places.
  | listValue _ => visit.kind.isLiteral = true
  | callOpening => visit.kind = .openParen ∧ visit.isUnder .aliasCall = true
  | boundary =>
    (visit.kind.isLiteral = true ∨ visit.kind = .closeParen) ∧
      ∃ clause ∈ visit.ancestors, clause.isCompleteClause = true ∧
        ∃ above, Tree.lastLeaf? above [clause] = some visit

/-- Either tokens lead to a place and their last leaf stands before it, or there are none. -/
def Position.IsFound (source : List Char) (position before : Position) (tokens : List Token) :
    Option Visit → Prop
  | none => tokens = [] ∧ position = before
  | some visit => position.Behind source visit

/-- Where nothing follows a mark, the place is the one behind the mark. -/
theorem Position.IsFound.or {source : List Char} {position before start : Position}
    {tokens all : List Token} {last : Option Visit} {mark : Visit}
    (found : position.IsFound source before tokens last)
    (behind : tokens = [] → before.Behind source mark) :
    position.IsFound source start all (last.or (some mark)) := by
  -- Without a last leaf nothing has been read since, so the position before is still the one.
  cases last with
  | none =>
    obtain ⟨none, rfl⟩ := found
    exact behind none
  | some visit => exact found

/-- The tree of an operand behind negations. -/
def negationTree (words : List Span) (parts : List Tree) : Tree :=
  inner .notExpression (words.map (.leaf .notOp) ++ [inner .primary parts])

/-- The ancestors of a fragment's parts, as far as the rules look at them. -/
def Surrounds (textEnd : Nat) (behindNot : Bool) (tokens : List Token) (parts : List Tree) :
    Category → List Tree → Prop
  | .primary, above => ∃ (words : List Span) (more : List Tree),
    above = inner .primary parts :: negationTree words parts :: more ∧ behindNot = !words.isEmpty
  | .negation, above => ∃ (words : List Span) (more : List Tree),
    above = inner .notExpression (words.map (.leaf .notOp) ++ parts) :: more ∧
      behindNot = !words.isEmpty ∧ InOrder textEnd (words.map (⟨.notWord, ·⟩) ++ tokens)
  -- Under a connective no negation stands before the operand.
  | .chain _, _ => behindNot = false

/-- A membership operator holds at least one byte. -/
theorem Membership.filled {textEnd : Nat} {operator : Membership} {rest : List Token}
    (ordered : InOrder textEnd (operator.tokens ++ rest)) :
    operator.span.start < operator.span.stop := by
  -- A membership operator begins with a word of its own.
  cases operator with
  | isIn word => exact ordered.1
  | notIn negation word => exact ordered.start_lt_stop

/-- The leaf of a literal is a value. -/
theorem Literal.isLiteral_nodeKind (literal : Literal) : literal.nodeKind.isLiteral = true := by
  cases literal <;> rfl

section Primary

variable {textEnd : Nat} {source : List Char} {words : List Span} {more : List Tree}

/-- A field's tree is a field. -/
@[simp] theorem kind_fieldTree (span : Span) : (fieldTree span).kind = .field := rfl

/-- A mark of something missing is an error. -/
@[simp] theorem kind_missing (textEnd : Nat) (what : String) (tokens : List Token) :
    (missing textEnd what tokens).kind = .error (some what) := rfl

/-- Behind negations stands one operand. -/
@[simp] theorem child?_negationTree (words : List Span) (parts : List Tree) :
    (negationTree words parts).child? .primary = some (inner .primary parts) := by
  -- Induction on the marks in front of the operand.
  induction words with
  | nil => simp [negationTree, Tree.child?]
  | cons word words ih =>
    simp only [negationTree, Tree.child?, inner_children] at ih ⊢
    rw [List.map_cons, List.cons_append, List.find?_cons_of_neg (by simp), ih]

/-- An operand is negated exactly when there are negations. -/
@[simp] theorem hasChild_negationTree (words : List Span) (parts : List Tree) :
    (negationTree words parts).hasChild .notOp = !words.isEmpty := by
  -- The first mark, if there is one, is the first child.
  cases words with
  | nil => simp [negationTree, Tree.hasChild, Tree.child?]
  | cons word words => simp [negationTree, Tree.hasChild, Tree.child?]

/-- The names of a comparison's field can be read off the text. -/
theorem fieldName?_comparison {name : String} {span : Span}
    (spelled : Token.SpelledIn source ⟨.identifier name, span⟩) (tail : List Tree) :
    (inner .comparison (fieldTree span :: tail)).fieldName? source = some name := by
  simp [Tree.fieldName?, Tree.child?, fieldTree, identifier_text spelled]

/-- A name that stands alone is seen as one that is being typed. -/
theorem behind_bare {name : String} {span : Span} {parts : List Tree}
    (spelled : Token.SpelledIn source ⟨.identifier name, span⟩) :
    (Position.field name (!words.isEmpty)).Behind source
      ⟨.leaf .identifier span, fieldTree span :: inner .comparison [fieldTree span] ::
        inner .primary parts :: negationTree words parts :: more⟩ := by
  -- The name is found by way of the field's node.
  have text := identifier_text spelled
  have named : (⟨.leaf .identifier span, fieldTree span :: inner .comparison [fieldTree span] ::
      inner .primary parts :: negationTree words parts :: more⟩ : Visit).fieldName? source
        = some name := by
    simp [Visit.fieldName?, Visit.kind, Visit.isUnder, Visit.parent?, fieldTree, text]
  refine ⟨named, ?_⟩
  -- Nothing has been typed behind the name, so the comparison has no operator.
  have plain : (inner .comparison [fieldTree span]).hasOperator = false := by
    simp [Tree.hasOperator, Tree.hasChild, Tree.child?]
  have kind : (negationTree words parts).kind = .notExpression := inner_kind _ _
  have typed : String.ofList ((sliceBytes span.start span.stop source).getD []) = name := text
  simp only [Visit.partialClause?, named, Visit.ancestor?, Visit.span]
  cases words <;> simp [kind, typed, plain]

/-- An operator without a value is seen as one. -/
theorem behind_comparator {name : String} {span operator : Span} {above : List Tree}
    (spelled : Token.SpelledIn source ⟨.identifier name, span⟩) :
    (Position.comparator name).Behind source
      ⟨.leaf .compareOperator operator, inner .comparison [fieldTree span,
        .leaf .compareOperator operator, missing textEnd "value" []] :: above⟩ := by
  -- The operator is there and its value is missing.
  simp [Position.Behind, Visit.afterOperator?, Visit.kind, fieldName?_comparison spelled,
    Tree.hasChild, Tree.child?]

/-- An operator without a list is seen as one. -/
theorem behind_membership {name : String} {span operator : Span} {above : List Tree}
    (spelled : Token.SpelledIn source ⟨.identifier name, span⟩) :
    (Position.membership name).Behind source
      ⟨.leaf .inOperator operator, inner .comparison [fieldTree span,
        .leaf .inOperator operator, missing textEnd "'('" []] :: above⟩ := by
  -- The operator is there and its parenthesis is missing.
  simp [Position.Behind, Visit.afterOperator?, Visit.kind, fieldName?_comparison spelled,
    Tree.hasChild, Tree.child?]

/-- A parenthesis or a comma of a list is seen as one behind which a value may begin. -/
theorem listValueStart?_list {name : String} {span operator mark opening : Span} {kind : NodeKind}
    {items : OpenItems} {above : List Tree} (divides : kind = .openParen ∨ kind = .comma)
    (spelled : Token.SpelledIn source ⟨.identifier name, span⟩) :
    (⟨.leaf kind mark, openListTree textEnd opening items :: inner .comparison [fieldTree span,
      .leaf .inOperator operator, openListTree textEnd opening items] :: above⟩
        : Visit).listValueStart? source = some (.inListValueStart (some name)) := by
  -- Both the opening parenthesis and a comma wait for an item,
  -- and the comparison above the list names the field.
  have either : (kind == .openParen || kind == .comma) = true := by simpa using divides
  have list : (openListTree textEnd opening items).kind = .listLiteral := inner_kind _ _
  simp [Visit.listValueStart?, Visit.kind, fieldName?_comparison spelled, Tree.hasChild,
    Tree.child?, either, list]

/-- A phrase that is more than a name is a complete clause behind any negations. -/
theorem isCompleteClause_negationTree {phrase : Phrase .primary} {behindNot : Bool}
    (whole : phrase.position behindNot = .boundary) (words : List Span) :
    (negationTree words phrase.parts).isCompleteClause = true := by
  -- A clause is complete when it has no gap and ends with more than a bare name.
  have kind : (negationTree words phrase.parts).kind = .notExpression := inner_kind _ _
  have clean : (negationTree words phrase.parts).hasError = false := by
    simp [negationTree, phrase.any_hasError, NodeKind.isError]
  have completes : (inner .primary phrase.parts).completesNegation = true := by
    cases phrase with
    | bare name span => cases whole
    | compare => simp [Tree.completesNegation, Phrase.parts, Tree.hasOperator, Tree.hasChild,
        Tree.child?]
    | member => simp [Tree.completesNegation, Phrase.parts, Tree.hasOperator, Tree.hasChild,
        Tree.child?]
    | call => simp [Tree.completesNegation, Phrase.parts]
    | group => simp [Tree.completesNegation, Phrase.parts]
  simp [Tree.isCompleteClause, kind, clean, completes]

/-- The last leaf of a phrase that is more than a name is a value or a closing parenthesis. -/
theorem lastLeaf?_phrase {phrase : Phrase .primary} {behindNot : Bool}
    (whole : phrase.position behindNot = .boundary) (ordered : InOrder textEnd phrase.tokens)
    (above : List Tree) : ∃ visit, Tree.lastLeaf? above phrase.parts = some visit ∧
      (visit.kind.isLiteral = true ∨ visit.kind = .closeParen) := by
  -- One production a case: each but the bare name ends with a literal or a closing parenthesis.
  have filled := ordered.filled
  cases phrase with
  | bare name span => cases whole
  | compare name span comparator operator value =>
    have wide : value.span.start < value.span.stop := filled value.token (by simp [Phrase.tokens])
    refine ⟨_, lastLeaf?_of_inner (lastLeaf?_of_last
      [fieldTree span, .leaf .compareOperator operator]
      (lastLeaf?_of_inner (Tree.lastLeaf?_leaf wide _))), ?_⟩
    exact .inl value.literal.isLiteral_nodeKind
  | member name span operator opening listing close =>
    have wide := filled ⟨.closeParen, close⟩ (by simp [Phrase.tokens])
    refine ⟨_, lastLeaf?_of_inner (lastLeaf?_of_last
      [fieldTree span, .leaf .inOperator operator.span]
      (lastLeaf?_of_inner (lastLeaf?_of_last _ (Tree.lastLeaf?_leaf wide _)))), ?_⟩
    exact .inr rfl
  | call name span opening close =>
    have wide := filled ⟨.closeParen, close⟩ (by simp [Phrase.tokens])
    refine ⟨_, lastLeaf?_of_inner (lastLeaf?_of_last
      [.leaf .identifier span, .leaf .openParen opening] (Tree.lastLeaf?_leaf wide _)), ?_⟩
    exact .inr rfl
  | group opening inside close =>
    have wide := filled ⟨.closeParen, close⟩ (by simp [Phrase.tokens])
    refine ⟨_, lastLeaf?_of_inner (lastLeaf?_of_last
      [.leaf .openParen opening, inner .expression [inner .orExpression inside.parts]]
      (Tree.lastLeaf?_leaf wide _)), ?_⟩
    exact .inr rfl

/-- Behind a phrase the rules see a name or the end of a clause. -/
theorem isFound_phrase (phrase : Phrase .primary) (ordered : InOrder textEnd phrase.tokens)
    (spelled : ∀ token ∈ phrase.tokens, token.SpelledIn source) :
    (phrase.position (!words.isEmpty)).IsFound source (.start (!words.isEmpty)) phrase.tokens
      (Tree.lastLeaf? (inner .primary phrase.parts :: negationTree words phrase.parts :: more)
        phrase.parts) := by
  -- Whole clauses end alike, so only a bare name is left to look at.
  have clause (whole : phrase.position (!words.isEmpty) = .boundary) :
      (phrase.position (!words.isEmpty)).IsFound source (.start (!words.isEmpty)) phrase.tokens
        (Tree.lastLeaf? (inner .primary phrase.parts :: negationTree words phrase.parts :: more)
          phrase.parts) := by
    obtain ⟨visit, found, kind⟩ := lastLeaf?_phrase whole ordered
      (inner .primary phrase.parts :: negationTree words phrase.parts :: more)
    rw [found, whole]
    refine ⟨kind, negationTree words phrase.parts, Tree.above_lastLeaf? found _ (by simp),
      isCompleteClause_negationTree whole words, more, ?_⟩
    exact lastLeaf?_of_inner (lastLeaf?_of_last _ (lastLeaf?_of_inner found))
  cases phrase with
  | bare name span =>
    have wide := ordered.filled ⟨.identifier name, span⟩ (by simp [Phrase.tokens])
    have found : Tree.lastLeaf? (inner .primary (Phrase.bare name span).parts ::
        negationTree words (Phrase.bare name span).parts :: more) (Phrase.bare name span).parts
          = some _ :=
      lastLeaf?_of_inner (lastLeaf?_of_inner (Tree.lastLeaf?_leaf wide _))
    rw [found]
    exact behind_bare (spelled _ (by simp [Phrase.tokens]))
  | _ => exact clause rfl

end Primary

section Items

variable {textEnd : Nat} {source : List Char} {above : List Tree} {name : String}

/-- In an open list the rules see its parenthesis, its last comma or its last value. -/
theorem exists_behind_items
    (commas : ∀ comma, (Position.listComma name).Behind source ⟨.leaf .comma comma, above⟩)
    (items : OpenItems) {kind : NodeKind} {mark : Span} {before : Position}
    (wide : mark.start < mark.stop) (first : before.Behind source ⟨.leaf kind mark, above⟩)
    (filled : ∀ token ∈ items.tokens, token.span.start < token.span.stop) :
    ∃ visit, Tree.lastLeaf? above (.leaf kind mark :: items.trees textEnd) = some visit ∧
      (items.position name before).Behind source visit := by
  -- The induction moves from comma to comma: each is the mark that the rest of the list follows.
  induction items generalizing kind mark before with
  | none =>
    exact ⟨_, lastLeaf?_of_missing [.leaf kind mark] (Tree.lastLeaf?_leaf wide above), first⟩
  | last value =>
    have broad : value.span.start < value.span.stop :=
      filled value.token (by simp [OpenItems.tokens])
    refine ⟨_, lastLeaf?_of_last [.leaf kind mark] (lastLeaf?_of_inner
      (lastLeaf?_of_inner (Tree.lastLeaf?_leaf broad _))), ?_⟩
    exact value.literal.isLiteral_nodeKind
  | more value comma rest ih =>
    simp only [OpenItems.tokens, List.forall_mem_cons] at filled
    obtain ⟨visit, found, behind⟩ := ih filled.2.1 (commas comma) filled.2.2
    refine ⟨visit, ?_, behind⟩
    show Tree.lastLeaf? above
      ([.leaf kind mark, value.itemTree] ++ .leaf .comma comma :: rest.trees textEnd) = some visit
    rw [Tree.lastLeaf?_append, found, Option.some_or]

/-- Where a list breaks off, the rules see its place. -/
theorem exists_behind_list {span opening : Span} {operator : Membership} {items : OpenItems}
    (ordered : InOrder textEnd (Fragment.list name span operator opening items).tokens)
    (spelled : Token.SpelledIn source ⟨.identifier name, span⟩) :
    ∃ visit, Tree.lastLeaf? above ((Fragment.list name span operator opening items).parts textEnd)
        = some visit ∧
      (items.position name (.listOpening name)).Behind source visit := by
  -- Behind the opening parenthesis the items decide; each of them is looked up in the same list.
  have filled := ordered.filled
  obtain ⟨visit, last, behind⟩ := @exists_behind_items textEnd source
    (openListTree textEnd opening items :: inner .comparison [fieldTree span,
      .leaf .inOperator operator.span, openListTree textEnd opening items] :: above)
    name (fun _ => listValueStart?_list (.inr rfl) spelled) items .openParen opening
    (.listOpening name) (filled ⟨.openParen, opening⟩ (by simp [Fragment.tokens]))
    (listValueStart?_list (.inl rfl) spelled)
    (fun token member => filled token (by simp [Fragment.tokens, member]))
  refine ⟨visit, ?_, behind⟩
  exact lastLeaf?_of_inner (lastLeaf?_of_last [fieldTree span, .leaf .inOperator operator.span]
    (lastLeaf?_of_inner (lastLeaf?_of_missing _ last)))

end Items

section Fragments

variable {textEnd : Nat} {source : List Char}

/-- Something stands under every fragment's node, if only a mark of what is missing. -/
theorem Fragment.parts_ne_nil {category : Category} (fragment : Fragment category) :
    fragment.parts textEnd ≠ [] := by
  -- Each form is looked at, and none of their lists is empty.
  cases fragment with
  | whole phrase => cases phrase <;> simp [Fragment.parts, Phrase.parts]
  | join => simp [Fragment.parts]
  | _ => simp [Fragment.parts]

/-- Behind negations nothing was typed only if the operand is missing. -/
theorem Fragment.parts_of_tokens {fragment : Fragment .negation} (none : fragment.tokens = []) :
    fragment.parts textEnd = [inner .primary [missing textEnd "expression" []]] := by
  -- A fragment without tokens has not even a word for a negation.
  cases fragment with
  | plain operand =>
    cases operand with
    | nothing => rfl
    | whole phrase =>
      obtain ⟨token, rest, first, -⟩ := primary_tokens_head phrase
      rw [Fragment.tokens, Fragment.tokens, first] at none
      cases none
    | _ => cases none
  | negated word operand => cases none

/-- A negation that nothing follows has no operand. -/
theorem behind_not {words : List Span} {word : Span} {more : List Tree}
    (ordered : InOrder textEnd (words.map (⟨.notWord, ·⟩) ++ [⟨.notWord, word⟩])) :
    Position.negation.Behind source ⟨.leaf .notOp word, inner .notExpression
      (words.map (.leaf .notOp) ++
        [.leaf .notOp word, inner .primary [missing textEnd "expression" []]]) :: more⟩ := by
  -- All negations begin before the last one ends, and the operand is empty.
  have before : ∀ earlier ∈ words, earlier.start < word.stop := by
    intro earlier member
    obtain ⟨front, back, rfl⟩ := List.append_of_mem member
    rw [List.map_append, List.append_assoc] at ordered
    simpa using ordered.of_append.reach.1
  have wide : word.start < word.stop := ordered.of_append.1
  have bare : (⟨.leaf .notOp word, inner .notExpression (words.map (.leaf .notOp) ++
      [.leaf .notOp word, inner .primary [missing textEnd "expression" []]]) :: more⟩
        : Visit).hasOperand = false := by
    have empty : (inner .primary [missing textEnd "expression" []]).span.isEmpty = true := by
      simp [inner, Tree.covering, missing, Tree.expecting, Tree.leaf, Tree.span, Span.empty,
        Span.isEmpty]
    simp only [Visit.hasOperand, Visit.parent?, Option.any_some, inner_children]
    rw [List.any_eq_false]
    intro child member counted
    rw [Bool.and_eq_true, Bool.and_eq_true] at counted
    simp only [List.mem_append, List.mem_map, List.mem_cons, List.not_mem_nil, or_false] at member
    rcases member with ⟨earlier, listed, rfl⟩ | rfl | rfl
    · exact absurd (of_decide_eq_true counted.1.2) (Nat.not_le.mpr (before earlier listed))
    · exact absurd (of_decide_eq_true counted.1.2) (Nat.not_le.mpr wide)
    · simp [empty] at counted
  simp [Position.Behind, Visit.afterNot?, Visit.kind, bare]

/-- The operands of a connective have no negation before them. -/
theorem surrounds_operand {tokens : List Token} {parts above : List Tree} (connective : Connective)
    (ordered : InOrder textEnd tokens) :
    Surrounds textEnd false tokens parts connective.operand
      (inner connective.operand.nodeKind parts :: above) := by
  -- Only operands of AND stand right under the marks of a negation.
  cases connective with
  | and => exact ⟨[], above, rfl, rfl, ordered⟩
  | or => rfl

/-- Where a fragment breaks off, the rules see its place. -/
theorem isFound_fragment {category : Category} (fragment : Fragment category) {behindNot : Bool}
    {above : List Tree} (ordered : InOrder textEnd fragment.tokens)
    (spelled : ∀ token ∈ fragment.tokens, token.SpelledIn source)
    (around : Surrounds textEnd behindNot fragment.tokens (fragment.parts textEnd) category above) :
    (fragment.position behindNot).IsFound source (.start behindNot) fragment.tokens
      (Tree.lastLeaf? above (fragment.parts textEnd)) := by
  -- The ancestors grow on the way down, and negations before an operand are remembered in them.
  induction fragment generalizing behindNot above with
  | nothing =>
    rw [Fragment.parts, lastLeaf?_missing]
    exact ⟨rfl, rfl⟩
  | whole phrase =>
    obtain ⟨words, more, rfl, rfl⟩ := around
    exact isFound_phrase phrase ordered spelled
  | compare name span comparator operator =>
    have wide := ordered.filled ⟨comparator.kind, operator⟩ (by simp [Fragment.tokens])
    have found : Tree.lastLeaf? above
        ((Fragment.compare name span comparator operator).parts textEnd) = some _ :=
      lastLeaf?_of_inner (lastLeaf?_of_missing [fieldTree span, .leaf .compareOperator operator]
        (lastLeaf?_of_last [fieldTree span] (Tree.lastLeaf?_leaf wide _)))
    rw [found]
    exact behind_comparator (spelled _ (by simp [Fragment.tokens]))
  | member name span operator =>
    have wide : operator.span.start < operator.span.stop :=
      @Membership.filled textEnd operator [] (by simpa using ordered.2.2)
    have found : Tree.lastLeaf? above ((Fragment.member name span operator).parts textEnd)
        = some _ :=
      lastLeaf?_of_inner (lastLeaf?_of_missing [fieldTree span, .leaf .inOperator operator.span]
        (lastLeaf?_of_last [fieldTree span] (Tree.lastLeaf?_leaf wide _)))
    rw [found]
    exact behind_membership (spelled _ (by simp [Fragment.tokens]))
  | list name span operator opening items =>
    obtain ⟨visit, found, behind⟩ := @exists_behind_list textEnd source above name span opening
      operator items ordered (spelled _ (by simp [Fragment.tokens]))
    rw [found]
    exact behind
  | call name span opening =>
    have wide := ordered.filled ⟨.openParen, opening⟩ (by simp [Fragment.tokens])
    have found : Tree.lastLeaf? above ((Fragment.call name span opening).parts textEnd) = some _ :=
      lastLeaf?_of_inner (lastLeaf?_of_missing [.leaf .identifier span, .leaf .openParen opening]
        (lastLeaf?_of_last [.leaf .identifier span] (Tree.lastLeaf?_leaf wide _)))
    rw [found]
    exact ⟨rfl, rfl⟩
  | group opening inside ih =>
    have last : ∀ above, Tree.lastLeaf? above [.leaf .openParen opening] = some _ :=
      Tree.lastLeaf?_leaf ordered.1
    rw [Fragment.parts, lastLeaf?_inner (by simp), Tree.lastLeaf?_cons_cons,
      Tree.lastLeaf?_cons_cons, lastLeaf?_missing, Option.none_or, last, lastLeaf?_inner (by simp),
      lastLeaf?_inner inside.parts_ne_nil]
    -- The parenthesis is the last leaf unless something follows it.
    exact (ih ordered.2.2 (fun token member => spelled token (by simp [Fragment.tokens, member]))
      rfl).or fun _ => rfl
  | tooDeep opening =>
    have found : Tree.lastLeaf? above ((Fragment.tooDeep opening).parts textEnd) = some _ :=
      lastLeaf?_of_inner (lastLeaf?_of_missing [.leaf .openParen opening]
        (Tree.lastLeaf?_leaf ordered.1 _))
    rw [found]
    rfl
  | plain operand ih =>
    obtain ⟨words, more, rfl, rfl, -⟩ := around
    have below := @ih (!words.isEmpty) (inner .primary (operand.parts textEnd) ::
      negationTree words (operand.parts textEnd) :: more) ordered spelled ⟨words, more, rfl, rfl⟩
    rw [Fragment.parts, lastLeaf?_inner operand.parts_ne_nil]
    exact below
  | negated word operand ih =>
    obtain ⟨words, more, rfl, rfl, listed⟩ := around
    have below := @ih true (inner .notExpression
      (words.map (.leaf .notOp) ++ .leaf .notOp word :: operand.parts textEnd) :: more)
      ordered.2.2 (fun token member => spelled token (by simp [Fragment.tokens, member]))
      ⟨words ++ [word], more, by simp, by simp, by simpa [Fragment.tokens] using listed⟩
    have last : ∀ above, Tree.lastLeaf? above [.leaf .notOp word] = some _ :=
      Tree.lastLeaf?_leaf ordered.1
    rw [Fragment.parts, Tree.lastLeaf?_cons, last]
    -- The negation is the last leaf unless something follows it.
    refine below.or fun none => ?_
    rw [Fragment.parts_of_tokens none]
    rw [Fragment.tokens, none] at listed
    exact behind_not listed
  | @single connective operand ih =>
    obtain rfl : behindNot = false := around
    rw [Fragment.parts, lastLeaf?_inner operand.parts_ne_nil]
    exact ih ordered spelled (surrounds_operand connective ordered)
  | @join connective left word right ih =>
    have later : InOrder textEnd (⟨connective.word, word⟩ :: right.tokens) := ordered.of_append
    have last : Tree.lastLeaf? above [.leaf connective.mark word] = some _ :=
      Tree.lastLeaf?_leaf later.1 above
    rw [Fragment.parts, Tree.lastLeaf?_append, Tree.lastLeaf?_cons_cons, last, Option.or_assoc,
      Option.some_or, lastLeaf?_inner right.parts_ne_nil]
    -- The connective is the last leaf unless something follows it.
    exact (ih later.2.2 (fun token member => spelled token (by simp [Fragment.tokens, member]))
      (surrounds_operand connective later.2.2)).or fun _ => by cases connective <;> rfl

end Fragments

end FilterLang
