import FilterLang.Proofs.Context.Clauses

/-! The context at the end of a half-typed query. -/

namespace FilterLang

section Leaves

variable {leaves : List Tree} {tokens : List Token}

/-- Tokens that leaves stand for have a place in the grammar. -/
theorem StandFor.ne_unterminated (marks : StandFor leaves tokens) :
    ∀ token ∈ tokens, token.kind ≠ .unterminated := by
  -- A leaf stands for tokens that the grammar has taken, and it never takes an unterminated one.
  induction marks with
  | nil => simp
  | token taken _ ih =>
    rw [List.forall_mem_cons]
    refine ⟨?_, ih⟩
    rintro rfl
    cases taken
  | notIn _ ih =>
    rw [List.forall_mem_cons, List.forall_mem_cons]
    exact ⟨TokenKind.noConfusion, TokenKind.noConfusion, ih⟩

/-- The last leaf ends where the last token does. -/
theorem StandFor.lastStop_eq (marks : StandFor leaves tokens) (start : Nat) :
    lastStop start tokens = (leaves.getLast?.map (·.span.stop)).getD start := by
  -- Induction along the leaves; a leaf over two words ends with the second.
  induction marks generalizing start with
  | nil => rfl
  | @token word span kind leaves tokens taken _ ih =>
    rw [lastStop, ih, List.getLast?_cons]
    cases leaves.getLast? <;> rfl
  | @notIn first second leaves tokens _ ih =>
    rw [lastStop, lastStop, ih, List.getLast?_cons]
    cases leaves.getLast? <;> rfl

/-- No leaf ends behind the last token. -/
theorem StandFor.le_lastStop {textEnd : Nat} (marks : StandFor leaves tokens)
    (ordered : InOrder textEnd tokens) (start : Nat) :
    ∀ leaf ∈ leaves, leaf.span.stop ≤ lastStop start tokens := by
  -- Induction along the leaves: each ends no later than the tokens it stands for.
  induction marks generalizing start with
  | nil => simp
  | token taken _ ih =>
    rw [List.forall_mem_cons]
    exact ⟨ordered.le_lastStop, ih ordered.2.2 _⟩
  | notIn _ ih =>
    rw [List.forall_mem_cons]
    exact ⟨ordered.2.2.le_lastStop, ih ordered.2.2.2.2 _⟩

end Leaves

/-- All inner nodes that are laid over tokens in order end where their last child does. -/
theorem Lays.isFlush {textEnd : Nat} {trees : List Tree} {tokens rest : List Token}
    (laid : Lays textEnd trees tokens rest) (ordered : InOrder textEnd tokens) :
    ∀ sub ∈ trees.flatMap Tree.subtrees, sub.IsFlush := by
  -- Induction on the layout; leaves and gaps are flush by
  -- themselves, and inner nodes cover exactly their children.
  have leaf (kind : NodeKind) (span : Span) : (Tree.leaf kind span).IsFlush := by
    simp [Tree.IsFlush, Tree.leaf]
  induction laid with
  | nil => simp
  | token _ _ ih =>
    rw [List.flatMap_cons, List.forall_mem_append, Tree.forall_subtrees_leaf]
    exact ⟨leaf _ _, ih ordered.2.2⟩
  | notIn _ ih =>
    rw [List.flatMap_cons, List.forall_mem_append, Tree.forall_subtrees_leaf]
    exact ⟨leaf _ _, ih ordered.2.2.2.2⟩
  | missing _ ih =>
    rw [List.flatMap_cons, List.forall_mem_append, FilterLang.missing, Tree.expecting,
      Tree.forall_subtrees_leaf]
    exact ⟨leaf _ _, ih ordered⟩
  | @inner kind children trees tokens mid rest _ filled below _ ih more =>
    rw [List.flatMap_cons, List.forall_mem_append, subtrees_inner, List.forall_mem_cons]
    exact ⟨⟨isFlush_inner kind (below.successive ordered), ih ordered⟩,
      more (below.inOrder ordered)⟩

/-- The end of a text is a boundary of characters. -/
theorem floorBoundary_byteLength (source : List Char) :
    floorBoundary (byteLength source) source = byteLength source := by
  -- Induction on the source: no character is cut off by its own length.
  induction source with
  | nil => rfl
  | cons c cs ih => simp [floorBoundary, byteLength, ih]

section Rules

variable {visit : Visit} {source : List Char} {language : Language}

/-- Only an identifier is the name of a field. -/
theorem kind_of_fieldName? {name : String} (answers : visit.fieldName? source = some name) :
    visit.kind = .identifier := by
  -- Only identifiers under a field are names.
  simp only [Visit.fieldName?, Option.ite_none_right_eq_some, Bool.and_eq_true, beq_iff_eq]
    at answers
  exact answers.1.1

/-- The rule for negations answers behind negations only. -/
theorem kind_of_afterNot? {context : Context} (answers : visit.afterNot? = some context) :
    visit.kind = .notOp := by
  -- Only a mark of negation can wait for an operand.
  simp only [Visit.afterNot?, Option.ite_none_right_eq_some, Bool.and_eq_true, beq_iff_eq]
    at answers
  exact answers.1.1

/-- The rule for lists answers behind parentheses and commas of lists only. -/
theorem kind_of_listValueStart? {context : Context}
    (answers : visit.listValueStart? source = some context) :
    (visit.kind = .openParen ∨ visit.kind = .comma) ∧ visit.isUnder .listLiteral = true := by
  -- Only a parenthesis or a comma in a list can wait for an item.
  unfold Visit.listValueStart? at answers
  split at answers
  · rename_i list comparison above same
    simp only [Option.ite_none_right_eq_some, Bool.and_eq_true, Bool.or_eq_true, beq_iff_eq]
      at answers
    refine ⟨answers.1.1.1.1, ?_⟩
    simp [Visit.isUnder, Visit.parent?, same, Visit.kind, answers.1.1.1.2]
  · cases answers

/-- The rule for operators answers behind operators only. -/
theorem kind_of_afterOperator? {context : Context}
    (answers : visit.afterOperator? source = some context) :
    visit.kind = .inOperator ∨ visit.kind = .compareOperator := by
  -- Membership operators are asked for first, comparisons after them.
  unfold Visit.afterOperator? at answers
  obtain ⟨comparison, -, answers⟩ := Option.bind_eq_some_iff.mp answers
  split at answers
  · split at answers
    · rename_i list
      simp only [Bool.and_eq_true, beq_iff_eq] at list
      exact .inl list.1
    · simp only [Option.ite_none_right_eq_some, Bool.and_eq_true, beq_iff_eq] at answers
      exact .inr answers.1.1
  · cases answers

/-- A rule that answers only under a condition is silent without it. -/
theorem eq_none_of_imp {answer : Option α} {condition : Prop}
    (only : ∀ value, answer = some value → condition) (absent : ¬ condition) : answer = none :=
  Option.eq_none_iff_forall_ne_some.mpr fun value found => absent (only value found)

/-- A leaf stands under a node of one kind only. -/
theorem isUnder_eq_false {kind other : NodeKind} (under : visit.isUnder kind = true)
    (apart : kind ≠ other) : visit.isUnder other = false := by
  -- A visit has one parent, and that has one kind.
  unfold Visit.isUnder at under ⊢
  cases above : visit.parent? with
  | none => rfl
  | some parent =>
    rw [above, Option.any_some, beq_iff_eq] at under
    simpa [under] using apart

/-- Behind the parenthesis of anything but a list the rule for lists is silent. -/
theorem listValueStart?_eq_none {kind : NodeKind} (under : visit.isUnder kind = true)
    (other : kind ≠ .listLiteral) : visit.listValueStart? source = none :=
  eq_none_of_imp (fun _ answers => (kind_of_listValueStart? answers).2)
    (by simp [isUnder_eq_false under other])

/-- Behind anything but an operator the rule for operators is silent. -/
theorem afterOperator?_eq_none (noIn : visit.kind ≠ .inOperator)
    (noCompare : visit.kind ≠ .compareOperator) : visit.afterOperator? source = none :=
  eq_none_of_imp (fun _ => kind_of_afterOperator?) fun operator => operator.elim noIn noCompare

/-- Behind other leaves the rules for the beginning of a clause and of a value are silent. -/
theorem opening_silent (noParen : visit.kind ≠ .openParen) (noComma : visit.kind ≠ .comma)
    (noAnd : visit.kind ≠ .andOp) (noOr : visit.kind ≠ .orOp) :
    visit.listValueStart? source = none ∧ visit.opensClause = false := by
  -- The first two rules look at dividers and connectives only.
  constructor
  · refine eq_none_of_imp (fun _ answers => (kind_of_listValueStart? answers).1) fun opens => ?_
    exact opens.elim noParen noComma
  · simp [Visit.opensClause, noParen, noAnd, noOr]

/-- Behind any other leaf the rules for negations and names are silent as well. -/
theorem naming_silent {tree : Tree} {cursor : Nat} (noNot : visit.kind ≠ .notOp)
    (noName : visit.kind ≠ .identifier) (plain : visit.kind.isError = false) :
    visit.afterNot? = none ∧ visit.afterField? language source = none ∧
      visit.pendingNotIn? tree language source = none ∧
      visit.partialClause? source cursor = none := by
  -- The rules in the middle look at marks of negation, names and gaps.
  have unnamed : visit.fieldName? source = none :=
    eq_none_of_imp (fun _ => kind_of_fieldName?) noName
  have single : visit.afterNot? = none := eq_none_of_imp (fun _ => kind_of_afterNot?) noNot
  simp [single, Visit.afterField?, Visit.pendingNotIn?, Visit.partialClause?, unnamed, plain]

section Last

variable {tree : Tree} {cursor : Nat} {spaced : Bool} {position : Position}
  (placed : floorBoundary cursor source = cursor)
  (last : tree.leafEndingAt? (solidLength source cursor) = some visit)
  (filled : solidLength source cursor ≠ 0)
  (under : tree.leafAt? cursor = if spaced then none else some visit)
  (clauses : (tree.nodesEndingAt (solidLength source cursor)).any (·.tree.isCompleteClause)
    = decide (position = .boundary))

include placed last filled under clauses

/-- Where all other rules are silent, operators and the ends of clauses decide. -/
theorem classifyIn_of_silent (list : visit.listValueStart? source = none)
    (opens : visit.opensClause = false) (noNot : visit.kind ≠ .notOp)
    (noName : visit.kind ≠ .identifier) (plain : visit.kind.isError = false) :
    classifyIn language tree source cursor = (visit.afterOperator? source).getD
      (if position = .boundary then .clauseBoundary else .fallback) := by
  -- With all earlier rules silent the operator decides, and then the boundary.
  have silent := @naming_silent visit source language tree cursor noNot noName plain
  simp only [classifyIn, placed, last, under, clauses, Option.bind_some, Option.any_some, filled,
    decide_false, Bool.false_or, list, opens, silent]
  cases visit.afterOperator? source <;> cases spaced <;> by_cases whole : position = .boundary <;>
    simp [whole, silent]

/-- Behind operators, values and closing parentheses all other rules are silent. -/
theorem classifyIn_of_kind (kind : visit.kind ∈
      [.inOperator, .compareOperator, .string, .number, .boolean, .closeParen]) :
    classifyIn language tree source cursor = (visit.afterOperator? source).getD
      (if position = .boundary then .clauseBoundary else .fallback) := by
  -- None of these kinds is looked at by an earlier rule.
  have silent (other : visit.kind ∉ [.openParen, .comma, .andOp, .orOp, .notOp, .identifier])
      (plain : visit.kind.isError = false) :
      classifyIn language tree source cursor = (visit.afterOperator? source).getD
        (if position = .boundary then .clauseBoundary else .fallback) := by
    simp only [List.mem_cons, List.not_mem_nil, or_false, not_or] at other
    obtain ⟨noParen, noComma, noAnd, noOr, noNot, noName⟩ := other
    obtain ⟨list, opens⟩ := @opening_silent visit source noParen noComma noAnd noOr
    exact classifyIn_of_silent placed last filled under clauses list opens noNot noName plain
  simp only [List.mem_cons, List.not_mem_nil, or_false] at kind
  rcases kind with kind | kind | kind | kind | kind | kind <;>
    exact silent (by simp [kind]) (by simp [kind, NodeKind.isError])

/-- Behind an operator the rule for operators decides. -/
theorem classifyIn_of_operator {context : Context}
    (answers : visit.afterOperator? source = some context) :
    classifyIn language tree source cursor = context := by
  -- A rule about operators answers operators only.
  have kind := kind_of_afterOperator? answers
  rw [classifyIn_of_kind placed last filled under clauses
    (by rcases kind with kind | kind <;> simp [kind]), answers, Option.getD_some]

/-- Behind a value or a closing parenthesis only the end of a clause is seen. -/
theorem classifyIn_of_end (kind : visit.kind.isLiteral = true ∨ visit.kind = .closeParen) :
    classifyIn language tree source cursor
      = if position = .boundary then .clauseBoundary else .fallback := by
  -- Literals and closing parentheses are no operators, so the boundary decides.
  have ends : visit.kind ∈ [.string, .number, .boolean, .closeParen] := by
    rcases kind with literal | close
    · cases same : visit.kind <;> simp [same, NodeKind.isLiteral] at literal ⊢
    · simp [close]
  have operator : visit.afterOperator? source = none := by
    apply afterOperator?_eq_none <;> intro other <;> simp [other] at ends
  rw [classifyIn_of_kind placed last filled under clauses
    (List.mem_cons_of_mem _ (List.mem_cons_of_mem _ ends)), operator, Option.getD_none]

/-- The rules give the context of the place that the last leaf stands before. -/
theorem classifyIn_of_behind (ends : spaced = false → visit.span.stop = cursor)
    (behind : position.Behind source visit) :
    classifyIn language tree source cursor = position.context language spaced := by
  cases position with
  | clause =>
    have opens : visit.opensClause = true := behind
    have silent : visit.listValueStart? source = none := by
      simp only [Visit.opensClause, Bool.or_eq_true, Bool.and_eq_true, beq_iff_eq] at opens
      rcases opens with (kind | kind) | ⟨-, group⟩
      · exact eq_none_of_imp (fun _ answers => (kind_of_listValueStart? answers).1) (by simp [kind])
      · exact eq_none_of_imp (fun _ answers => (kind_of_listValueStart? answers).1) (by simp [kind])
      · exact listValueStart?_eq_none group (by simp)
    simp [classifyIn, placed, last, silent, opens, Position.context]
  | negation =>
    have answers : visit.afterNot? = some .afterNot := behind
    have kind := kind_of_afterNot? answers
    have opening := @opening_silent visit source (by simp [kind]) (by simp [kind]) (by simp [kind])
      (by simp [kind])
    simp [classifyIn, placed, last, filled, opening, answers, Position.context]
  | field name negated =>
    obtain ⟨named, typed⟩ := behind
    have kind := kind_of_fieldName? named
    obtain ⟨list, opens⟩ := @opening_silent visit source (by simp [kind]) (by simp [kind])
      (by simp [kind]) (by simp [kind])
    have single : visit.afterNot? = none :=
      eq_none_of_imp (fun _ => kind_of_afterNot?) (by simp [kind])
    have pending : visit.pendingNotIn? tree language source = none := by
      simp [Visit.pendingNotIn?, kind, NodeKind.isError]
    have operator := @afterOperator?_eq_none visit source (by simp [kind]) (by simp [kind])
    simp only [classifyIn, placed, last, filled, under, clauses, list, opens, single, pending,
      operator, Option.bind_some, Option.any_some, Visit.afterField?, named, Position.context]
    -- A declared name is offered its operators; another one may still be typed.
    by_cases declared : (language.field? name).isSome = true
    · simp [declared]
    · cases spaced with
      | true => simp [declared]
      | false =>
        rw [ends rfl] at typed
        simp [declared, typed]
  | comparator name => exact classifyIn_of_operator placed last filled under clauses behind
  | membership name => exact classifyIn_of_operator placed last filled under clauses behind
  | listOpening name =>
    have answers : visit.listValueStart? source = some (.inListValueStart (some name)) := behind
    simp [classifyIn, placed, last, answers, Position.context]
  | listComma name =>
    have answers : visit.listValueStart? source = some (.inListValueStart (some name)) := behind
    simp [classifyIn, placed, last, answers, Position.context]
  | listValue name =>
    exact classifyIn_of_end placed last filled under clauses (.inl behind)
  | callOpening =>
    obtain ⟨kind, call⟩ := behind
    have operator := @afterOperator?_eq_none visit source (by simp [kind]) (by simp [kind])
    rw [classifyIn_of_silent placed last filled under clauses
      (listValueStart?_eq_none call (by simp))
      (by simp [Visit.opensClause, kind, isUnder_eq_false call]) (by simp [kind]) (by simp [kind])
      (by simp [kind, NodeKind.isError]), operator]
    rfl
  | boundary => exact classifyIn_of_end placed last filled under clauses behind.1

end Last

end Rules

section Typed

variable {text : String} {fragment : Fragment (.chain .or)}

/-- The leaves of a fragment's tree stand for all tokens of the text. -/
theorem Fragment.IsTyped.standFor (typed : fragment.IsTyped text) :
    StandFor (parse text).solidLeaves (tokenize text) := by
  -- Nothing is left over, so the layout covers the whole token sequence.
  have body : Lays (byteSize text) [inner .expression [fragment.tree (byteSize text)]]
      (tokenize text) [] := typed.laid.node rfl (by simp)
  obtain ⟨read, split, marks⟩ := body.standFor (inOrder_tokenize text)
  rw [List.append_nil] at split
  rw [typed.tree, Tree.solidLeaves_node _ _ (by simp), split]
  exact marks

/-- The last leaf of the tree is the last one of the fragment's parts. -/
theorem Fragment.IsTyped.lastLeaf? (typed : fragment.IsTyped text) :
    ∃ above, Tree.lastLeaf? [] [parse text]
      = Tree.lastLeaf? above (fragment.parts (byteSize text)) := by
  -- Three nodes with one child each stand above the fragment.
  rw [typed.tree, lastLeaf?_node (by simp), lastLeaf?_inner (by simp), Fragment.tree,
    lastLeaf?_inner fragment.parts_ne_nil]
  exact ⟨_, rfl⟩

/-- A complete clause is some node below the fragment's own. -/
theorem Fragment.IsTyped.mem_parts (typed : fragment.IsTyped text) {sub : Tree}
    (inside : sub ∈ (parse text).subtrees) (complete : sub.isCompleteClause = true) :
    sub ∈ (fragment.parts (byteSize text)).flatMap Tree.subtrees := by
  -- None of the three nodes above the fragment is a clause.
  rw [typed.tree] at inside
  simp only [Tree.subtrees_node, subtrees_inner, Fragment.tree, List.flatMap_cons, List.flatMap_nil,
    List.append_nil, List.mem_cons] at inside
  rcases inside with rfl | rfl | rfl | below
  · simp [Tree.isCompleteClause] at complete
  · simp [Tree.isCompleteClause] at complete
  · simp [Tree.isCompleteClause, Category.nodeKind] at complete
  · exact below

/-- A complete clause ends with the last token exactly when the fragment breaks off behind it. -/
theorem Fragment.IsTyped.clauses (typed : fragment.IsTyped text) {visit : Visit}
    (last : Tree.lastLeaf? [] [parse text] = some visit)
    (behind : (fragment.position false).Behind text.toList visit)
    (ends : visit.span.stop = lastStop 0 (tokenize text)) :
    ((parse text).nodesEndingAt visit.span.stop).any (·.tree.isCompleteClause)
      = decide (fragment.position false = .boundary) := by
  have ordered := inOrder_tokenize text
  obtain ⟨whole, tidy⟩ := forall_subtrees_inner.mp (typed.laid.isTidy ordered)
  have flush := (forall_subtrees_inner.mp (typed.laid.isFlush ordered)).2
  rw [Bool.eq_iff_iff, List.any_eq_true, decide_eq_true_eq]
  constructor
  · rintro ⟨found, ending, complete⟩
    obtain ⟨visited, stops⟩ := List.mem_filter.mp ending
    have below := typed.mem_parts (List.mem_map_of_mem visited) complete
    have stop : found.tree.span.stop = visit.span.stop := beq_iff_eq.mp stops
    apply Decidable.byContradiction
    intro within
    have before := fragment.stop_lt_lastStop within (typed.tokens ▸ ordered)
      (successive_of_isTidy whole) tidy found.tree below complete
    rw [typed.tokens] at before
    omega
  · intro boundary
    rw [boundary] at behind
    obtain ⟨-, clause, ancestor, complete, above, found⟩ := behind
    have visited : visit ∈ (parse text).visitsUnder [] := by
      rw [Tree.lastLeaf?_eq] at last
      exact (List.mem_filter.mp (List.mem_of_getLast? last)).1
    have inside : clause ∈ (parse text).subtrees := by
      simpa using Tree.ancestors_subtrees visited clause ancestor
    -- Nothing is missing from the clause, so it ends with its last leaf.
    have below : ∀ sub ∈ clause.subtrees,
        sub ∈ (fragment.parts (byteSize text)).flatMap Tree.subtrees := by
      obtain ⟨part, member, among⟩ := List.mem_flatMap.mp (typed.mem_parts inside complete)
      intro sub deeper
      exact List.mem_flatMap.mpr ⟨part, member, Tree.mem_subtrees_trans among deeper⟩
    obtain ⟨other, same, stop⟩ := Tree.exists_lastLeaf?
      (fun sub deeper => tidy sub (below sub deeper))
      (fun sub deeper => flush sub (below sub deeper))
      (Tree.hasError_of_isCompleteClause complete) above
    rw [found] at same
    cases same
    obtain ⟨node, member, rfl⟩ := List.mem_map.mp inside
    exact ⟨node, List.mem_filter.mpr ⟨member, beq_iff_eq.mpr stop.symm⟩, complete⟩

/-- The leaf at the end of the text is the last one, unless white space follows it. -/
theorem Fragment.IsTyped.leafAt? (typed : fragment.IsTyped text) {visit : Visit}
    (last : Tree.lastLeaf? [] [parse text] = some visit)
    (ends : visit.span.stop = lastStop 0 (tokenize text)) :
    (parse text).leafAt? (byteSize text)
      = (if text.toList.getLast?.any isBlank then none else some visit) ∧
    (text.toList.getLast?.any isBlank = false → visit.span.stop = byteSize text) := by
  -- A cursor behind white space is at no leaf; else the last leaf ends at the cursor.
  have ordered := inOrder_tokenize text
  have marks := typed.standFor
  have spacing := lastStop_lt_iff marks.ne_unterminated
  cases spaced : text.toList.getLast?.any isBlank with
  | true =>
    have before := spacing.mpr spaced
    refine ⟨Tree.leafAt?_eq_none fun leaf member => ?_, by simp⟩
    have reach := marks.le_lastStop ordered 0 leaf member
    omega
  | false =>
    have inside := ordered.lastStop_le (Nat.zero_le (byteSize text))
    have stop : visit.span.stop = byteSize text := by
      have apart : ¬ lastStop 0 (tokenize text) < byteSize text := by simp [spacing, spaced]
      omega
    refine ⟨?_, fun _ => stop⟩
    rw [← stop]
    exact Tree.leafAt?_eq last

/-- The rules see where a fragment breaks off. -/
theorem Fragment.IsTyped.classify_eq (typed : fragment.IsTyped text) (language : Language) :
    classify language text (byteSize text)
      = (fragment.position false).context language (text.toList.getLast?.any isBlank) := by
  have ordered := inOrder_tokenize text
  have marks := typed.standFor
  have solid := solidLength_eq marks.ne_unterminated
  have placed : floorBoundary (byteSize text) text.toList = byteSize text :=
    floorBoundary_byteLength text.toList
  have stops := marks.lastStop_eq 0
  rw [Tree.solidLeaves, List.getLast?_map, ← Tree.lastLeaf?_eq] at stops
  obtain ⟨above, same⟩ := typed.lastLeaf?
  have found := @isFound_fragment (byteSize text) text.toList _ fragment false above
    (typed.tokens ▸ ordered) (typed.tokens ▸ (legible_tokenize text).spelled) rfl
  rw [← same] at found
  cases last : Tree.lastLeaf? [] [parse text] with
  | none =>
    -- Nothing was typed but white space.
    rw [last] at found stops
    obtain ⟨-, place⟩ := found
    have empty : solidLength text.toList (byteSize text) = 0 := solid.trans stops
    rw [place]
    simp [classify, classifyIn, placed, empty, Tree.leafEndingAt?_eq_none last, Position.start,
      Position.context]
  | some visit =>
    rw [last] at found stops
    have ends : visit.span.stop = lastStop 0 (tokenize text) := stops.symm
    have filled := Tree.filled_of_lastLeaf? last
    obtain ⟨under, stop⟩ := typed.leafAt? last ends
    have clauses := typed.clauses last found ends
    have ending := Tree.leafEndingAt?_eq last
    rw [ends, ← solid] at clauses ending
    exact classifyIn_of_behind placed ending (by omega) under clauses stop found

end Typed

/--
The context at the end of a half-typed query follows the place where the query breaks off.

If a text has no error, or its first error is a mark of something missing at its very end, then its
tokens lead from the beginning of a clause to a place in the grammar, and this place and the white
space behind the last token determine the context.
-/
theorem classify_halfTyped (language : Language) {text : String}
    (half : ∀ error ∈ (parse text).firstError?, error.span = .empty (byteSize text)) :
    ∃ position, positionAfter 0 .clause (tokenize text) = some position ∧
      classify language text (byteSize text)
        = position.context language (text.toList.getLast?.any isBlank) := by
  -- What has been typed is a fragment of a query. Its position is what the tokens lead to, and its
  -- last leaf is what the rules look at.
  obtain ⟨fragment, typed⟩ := exists_isTyped half
  refine ⟨fragment.position false, ?_, typed.classify_eq language⟩
  rw [← typed.tokens]
  exact positionAfter_fragment fragment false 0

/-- A negated group with a whole clause in it and a list that breaks off behind a comma. -/
def openList : String :=
  "NOT (owner = \"me\" AND level NOT IN (1, "

/-- Behind the comma, values of the field that the list belongs to are wanted. -/
theorem openList_wantsValues :
    (∀ error ∈ (parse openList).firstError?, error.span = .empty (byteSize openList)) ∧
      classify (.new "1") openList (byteSize openList) = .inListValueStart (some "level") := by
  -- That the text is half typed and where its tokens
  -- lead is computed; what the rules answer is not.
  have half : ∀ error ∈ (parse openList).firstError?,
      error.span = .empty (byteSize openList) := by
    decide +kernel
  have reads : positionAfter 0 .clause (tokenize openList) = some (.listComma "level") := by
    decide +kernel
  obtain ⟨position, read, context⟩ := classify_halfTyped (.new "1") half
  obtain rfl : .listComma "level" = position := Option.some.inj (reads.symm.trans read)
  exact ⟨half, context⟩

end FilterLang
