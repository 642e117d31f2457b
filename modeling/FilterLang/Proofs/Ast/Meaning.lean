import FilterLang.Ast.Build
import FilterLang.Proofs.Grammar.Recognition
import FilterLang.Proofs.Token.Spelling

/-! The AST of a derivation, in which no place is recorded. -/

namespace FilterLang

mutual

/-- Of two moves of a value only the last one shows. -/
theorem Value.relocate_relocate (later earlier : Option Span) :
    ∀ value : Value, (value.relocate earlier).relocate later = value.relocate later
  -- Mutual recursion with the lists of values that a value holds.
  | .string _ _ => rfl
  | .number _ _ _ => rfl
  | .boolean _ _ => rfl
  | .list items _ => by
    simp only [Value.relocate, Value.relocateAll_relocateAll later earlier items]

/-- Of two moves of several values only the last one shows. -/
theorem Value.relocateAll_relocateAll (later earlier : Option Span) :
    ∀ values : List Value,
      Value.relocateAll later (Value.relocateAll earlier values) = Value.relocateAll later values
  | [] => rfl
  | value :: values => by
    simp only [Value.relocateAll, Value.relocate_relocate later earlier value,
      Value.relocateAll_relocateAll later earlier values]

end

/-- Several values move one by one. -/
theorem Value.relocateAll_eq_map (span : Option Span) (values : List Value) :
    Value.relocateAll span values = values.map (Value.relocate span) := by
  -- Induction on the values; lists are moved by a recursion of their own.
  induction values with
  | nil => rfl
  | cons value values ih => simp only [Value.relocateAll, ih, List.map_cons]

/-- Of two moves of an expression only the last one shows. -/
theorem Node.relocate_relocate (later earlier : Option Span) (node : Node) :
    (node.relocate earlier).relocate later = node.relocate later := by
  -- Induction on the expression: every part takes the later place, whatever the earlier was.
  induction node with
  | comparison field operator value span =>
    simp only [Node.relocate, Value.relocate_relocate]
  | logical operator left right span ihLeft ihRight => simp only [Node.relocate, ihLeft, ihRight]
  | negation expression span ih => simp only [Node.relocate, ih]

/-- Of two moves of an error only the last one shows. -/
theorem BuildError.relocate_relocate (later earlier : Span) (error : BuildError) :
    (error.relocate earlier).relocate later = error.relocate later := by
  cases error <;> rfl

/-- A move keeps the code of an error. -/
@[simp] theorem BuildError.code_relocate (span : Span) (error : BuildError) :
    (error.relocate span).code = error.code := by
  cases error <;> rfl

/-- A sequence of two steps succeeds when both do. -/
theorem bind_eq_ok {α β : Type} {outcome : Except BuildError α} {next : α → Except BuildError β}
    {result : β} : outcome >>= next = .ok result ↔ ∃ first, outcome = .ok first ∧
      next first = .ok result := by
  -- An error ends the computation at once.
  cases outcome with
  | ok first => simp [bind, Except.bind]
  | error error => simp [bind, Except.bind]

/-- A sequence of two steps fails when one of them does. -/
theorem bind_eq_error {α β : Type} {outcome : Except BuildError α} {next : α → Except BuildError β}
    {error : BuildError} : outcome >>= next = .error error ↔
      outcome = .error error ∨ ∃ first, outcome = .ok first ∧ next first = .error error := by
  -- Either the first step fails, or it gives a result and the next one does.
  cases outcome with
  | ok first => simp [bind, Except.bind]
  | error error => simp [bind, Except.bind]

/-- What comes of a build without the places in it; errors are put at the start of the text. -/
def unplaced {α : Type} (erase : α → α) : Except BuildError α → Except BuildError α
  | .ok result => .ok (erase result)
  | .error error => .error (error.relocate (.empty 0))

/-- An AST or error without the places in it. -/
abbrev Built.unplaced (built : Built) : Built :=
  FilterLang.unplaced Node.eraseSpans built

/-- Places can be dropped step by step where a step does not look at those before it. -/
theorem unplaced_bind {α β : Type} {erase : α → α} {eraseNext : β → β}
    {next next' : α → Except BuildError β}
    (agree : ∀ result, unplaced eraseNext (next result) = next' (erase result))
    (outcome : Except BuildError α) :
    unplaced eraseNext (outcome >>= next) = unplaced erase outcome >>= next' := by
  -- An error is kept by both sides, with its place forgotten.
  cases outcome with
  | ok result => exact agree result
  | error error => rfl

/-- Places can be dropped from each of several results. -/
theorem unplaced_mapM {α β : Type} {erase : β → β} {step step' : α → Except BuildError β}
    (inputs : List α) (agree : ∀ input ∈ inputs, unplaced erase (step input) = step' input) :
    unplaced (List.map erase) (inputs.mapM step) = inputs.mapM step' := by
  -- Induction on the inputs, one step of the sequence at a time.
  induction inputs with
  | nil => rfl
  | cons input inputs ih =>
    simp only [List.forall_mem_cons] at agree
    rw [List.mapM_cons, List.mapM_cons, ← agree.1, ← ih agree.2]
    refine unplaced_bind (fun first => ?_) _
    refine unplaced_bind (fun rest => ?_) _
    rfl

/-- The value that a literal stands for. -/
def Literal.value : Literal → Except BuildError Value
  | string raw => .ok (.string (unquote raw) none)
  | number raw =>
    match readNumberText raw.toList with
    | .ok (.finite value) => .ok (.number value raw none)
    | .ok .outOfRange => .error (.numberOutOfRange raw (.empty 0))
    | .error fault => .error (.malformed (.invalidNumber raw fault))
  | boolean value => .ok (.boolean value none)

/-- A number has a value exactly when its text reads as a finite one. -/
theorem Literal.value_number {raw : String} {value : Value} :
    (Literal.number raw).value = .ok value ↔
      ∃ number, readNumberText raw.toList = .ok (.finite number) ∧
        value = .number number raw none := by
  -- Three outcomes of reading a numeral, of which only a finite one is a value.
  rw [Literal.value]
  cases readNumberText raw.toList with
  | error fault => simp
  | ok reading =>
    cases reading with
    | outOfRange => simp
    | finite number => simp [eq_comm]

/-- The value that a literal stands for at its place. -/
def Scalar.value (scalar : Scalar) : Except BuildError Value :=
  match scalar.literal with
  | .string raw => .ok (.string (unquote raw) (some scalar.span))
  | .number raw =>
    match readNumberText raw.toList with
    | .ok (.finite value) => .ok (.number value raw (some scalar.span))
    | .ok .outOfRange => .error (.numberOutOfRange raw scalar.span)
    | .error fault => .error (.malformed (.invalidNumber raw fault))
  | .boolean value => .ok (.boolean value (some scalar.span))

/-- Apart from its place, a literal stands for the same value everywhere. -/
theorem Scalar.unplaced_value (scalar : Scalar) :
    unplaced (Value.relocate none) scalar.value = scalar.literal.value := by
  obtain ⟨literal, span⟩ := scalar
  cases literal with
  | string raw => rfl
  | number raw =>
    simp only [Scalar.value, Literal.value]
    -- The three outcomes of reading the number are passed on alike.
    cases readNumberText raw.toList with
    | error fault => rfl
    | ok reading => cases reading <;> rfl
  | boolean value => rfl

/-- The value of a list. -/
def Listing.value (listing : Listing) : Except BuildError Value := do
  return .list (← listing.scalars.mapM (·.literal.value)) none

/-- The value of a list at a place. -/
def Listing.valueAt (listing : Listing) (place : Span) : Except BuildError Value := do
  return .list (← listing.scalars.mapM Scalar.value) (some place)

/-- Apart from its places, a list has the same value everywhere. -/
theorem Listing.unplaced_valueAt (listing : Listing) (place : Span) :
    unplaced (Value.relocate none) (listing.valueAt place) = listing.value := by
  -- The items are read the same way with places and without; the list's own place is dropped last.
  rw [Listing.value, ← unplaced_mapM listing.scalars fun scalar _ => scalar.unplaced_value]
  refine unplaced_bind (fun values => ?_) _
  simp only [pure, Except.pure, unplaced, Value.relocate, Value.relocateAll_eq_map]

/-- The AST of a phrase, given what each call stands for. -/
def Phrase.ast (language : Language) (expand : String → Built) :
    {category : Category} → Phrase category → Built
  | _, bare name _ =>
    match language.field? name with
    | some ⟨_, .boolean, _, _⟩ => .ok (.comparison ⟨name, none⟩ "=" (.boolean true none) none)
    | _ => .error (.invalidShorthand name (.empty 0))
  | _, compare name _ comparator _ scalar => do
    return .comparison ⟨name, none⟩ comparator.symbol (← scalar.literal.value) none
  | _, member name _ membership _ listing _ => do
    return .comparison ⟨name, none⟩ membership.symbol (← listing.value) none
  | _, call name _ _ _ => expand name
  | _, group _ inside _ => inside.ast language expand
  | _, plain operand => operand.ast language expand
  | _, negated _ operand => do return .negation (← operand.ast language expand) none
  | _, single operand => operand.ast language expand
  | _, @join connective left _ right => do
    let left ← left.ast language expand
    let right ← right.ast language expand
    return .logical connective left right none

/-- The characters under a token's leaf spell the token. -/
theorem spells_chars {source : List Char} {token : Token} (spelled : token.SpelledIn source)
    (leaf : NodeKind) : token.kind.Spells ((Tree.leaf leaf token.span).chars source) := by
  -- The span of a leaf is the span of its token, so the same characters stand under both.
  obtain ⟨cs, slice, spells⟩ := spelled
  have chars : (Tree.leaf leaf token.span).chars source = cs := by
    rw [Tree.chars, show (Tree.leaf leaf token.span).span = token.span from rfl, slice]
    rfl
  rwa [chars]

/-- The leaf of a token that keeps its text has this text under it. -/
theorem text_leaf {source : List Char} {kind : TokenKind} {span : Span} {raw : String}
    (spelled : Token.SpelledIn source ⟨kind, span⟩) (leaf : NodeKind)
    (kept : kind.raw? = some raw) : (Tree.leaf leaf span).chars source = raw.toList :=
  (spells_chars spelled leaf).1 raw kept

/-- The leaf of a literal has the literal's value. -/
theorem literalValue_leaf {source : List Char} {scalar : Scalar}
    (spelled : scalar.token.SpelledIn source) :
    literalValue source (.leaf scalar.literal.nodeKind scalar.span) = scalar.value := by
  obtain ⟨literal, span⟩ := scalar
  -- Strings and numbers are read off the raw text, which the token keeps.
  cases literal with
  | string raw =>
    have chars := text_leaf spelled .string rfl
    simp only [literalValue, Literal.nodeKind, Tree.kind_leaf, chars, String.ofList_toList]
    rfl
  | number raw =>
    have chars := text_leaf spelled .number rfl
    simp only [literalValue, Literal.nodeKind, Tree.kind_leaf, Scalar.value, chars,
      String.ofList_toList]
    rfl
  | boolean value =>
    -- The token of a truth value keeps no text, but its letters are known up to capitals.
    have spells := spells_chars spelled .boolean
    have word : lowerCase ((Tree.leaf .boolean span).chars source) =
        (if value then "true" else "false").toList := by
      cases value <;> exact spells.2 _ rfl
    have truth : sameLetters ((Tree.leaf .boolean span).chars source) "true".toList = value := by
      rw [sameLetters, word]
      cases value <;> decide
    simp only [literalValue, Literal.nodeKind, Tree.kind_leaf, truth]
    rfl

/-- A child that comes first among those of its kind is the one required. -/
theorem required_eq {tree child : Tree} {kind : NodeKind}
    (found : tree.children.find? (·.kind == kind) = some child) :
    tree.required kind = .ok child := by
  rw [Tree.required, Tree.child?, found]

/-- The tree of a scalar has the scalar's value. -/
theorem scalarValue_tree {source : List Char} {scalar : Scalar}
    (spelled : scalar.token.SpelledIn source) :
    scalarValue source scalar.tree = scalar.value := by
  rw [← literalValue_leaf spelled, scalarValue, Scalar.tree, scalarOf, inner_children]

/-- The tree of an item has the item's value. -/
theorem itemValue_tree {source : List Char} {scalar : Scalar}
    (spelled : scalar.token.SpelledIn source) :
    itemValue source scalar.itemTree = scalar.value := by
  -- An item holds one scalar and nothing else, so the search for a scalar finds it.
  have found : scalar.itemTree.required .scalarValue = .ok scalar.tree :=
    required_eq (by simp [Scalar.itemTree, Scalar.tree, scalarOf])
  rw [← scalarValue_tree spelled, itemValue, found]
  rfl

/-- Among the trees of a list's inside the items are those of the scalars. -/
theorem Listing.filter_trees (listing : Listing) :
    listing.trees.filter (·.kind == .listItem) = listing.scalars.map Scalar.itemTree := by
  -- Induction on the items: commas are filtered out and the items keep their order.
  cases listing with
  | none => rfl
  | some items =>
    simp only [Listing.trees, Listing.scalars, Option.map_some, Option.getD_some]
    induction items with
    | last scalar => simp [Items.trees, Items.scalars, Scalar.itemTree]
    | more scalar comma rest ih => simp [Items.trees, Items.scalars, Scalar.itemTree, ih]

/-- The tokens of a list's inside hold those of its scalars. -/
theorem Listing.token_mem {listing : Listing} {scalar : Scalar}
    (member : scalar ∈ listing.scalars) : scalar.token ∈ listing.tokens := by
  -- Induction on the items, as they alternate with commas.
  cases listing with
  | none => cases member
  | some items =>
    simp only [Listing.tokens, Listing.scalars, Option.map_some, Option.getD_some] at member ⊢
    induction items with
    | last other =>
      obtain rfl := List.mem_singleton.mp member
      simp [Items.tokens]
    | more other comma rest ih =>
      simp only [Items.scalars, List.mem_cons] at member
      rcases member with rfl | member
      · simp [Items.tokens]
      · simp [Items.tokens, ih member]

/-- Steps that agree on all inputs agree one after the other. -/
theorem mapM_congr {α β : Type} {step step' : α → Except BuildError β} {inputs : List α}
    (agree : ∀ input ∈ inputs, step input = step' input) :
    inputs.mapM step = inputs.mapM step' := by
  -- Induction on the inputs; the steps only have to agree on these.
  induction inputs with
  | nil => rfl
  | cons input inputs ih =>
    rw [List.forall_mem_cons] at agree
    rw [List.mapM_cons, List.mapM_cons, agree.1, ih agree.2]

/-- The tree of a list has the values of its scalars, in their order. -/
theorem listValue_tree {source : List Char} {opening closing : Span} {listing : Listing}
    (spelled : ∀ scalar ∈ listing.scalars, scalar.token.SpelledIn source) :
    listValue source (listTree opening listing closing) =
      listing.valueAt (listTree opening listing closing).span := by
  -- Commas and parentheses are passed over.
  have items : (listTree opening listing closing).children.filter (·.kind == .listItem) =
      listing.scalars.map Scalar.itemTree := by
    simp [listTree, Listing.filter_trees]
  -- Each item is read from its own tree, which is spelled out in the source.
  have values : listing.scalars.mapM (itemValue source ∘ Scalar.itemTree) =
      listing.scalars.mapM Scalar.value :=
    mapM_congr fun scalar member => itemValue_tree (spelled scalar member)
  rw [listValue, items, List.mapM_map, values]
  rfl

/-- The characters under an operator spell it in one way once they are made capitals. -/
theorem comparator_spelling {source : List Char} {comparator : Comparator} {span : Span}
    (spelled : Token.SpelledIn source ⟨comparator.kind, span⟩) :
    String.ofList (upperCase ((Tree.leaf .compareOperator span).chars source)) =
      comparator.symbol := by
  have spells := spells_chars spelled .compareOperator
  -- Only the small letters are known, but making them small first changes no capital.
  rw [← upperCase_lowerCase]
  cases comparator <;> · rw [spells.2 _ rfl]; decide

/-- The characters under a membership operator are two words when it is negated, else one. -/
theorem membership_spelling {source : List Char} {membership : Membership}
    (legible : Legible source membership.tokens) :
    membershipOperator ((Tree.leaf .inOperator membership.span).chars source) =
      membership.symbol := by
  cases membership with
  | isIn word =>
    have spells := spells_chars (legible.spelled ⟨.inWord, word⟩ (List.mem_singleton.mpr rfl))
      .inOperator
    have letters := spells.2 "in" rfl
    have filled : (Tree.leaf .inOperator word).chars source ≠ [] := by
      intro empty
      simp [empty, lowerCase] at letters
    -- The letters of the word hold no white space, so they are counted once.
    have count := wordsFrom_word filled (solid_of_lowerCase letters (by decide)) []
    rw [List.append_nil] at count
    have single : ¬ 1 < wordCount ((Tree.leaf .inOperator word).chars source) := by
      rw [wordCount, count]
      decide
    exact if_neg single
  | notIn negation word =>
    obtain ⟨cs, slice, count⟩ := legible.twoWords ⟨.notWord, negation⟩ ⟨.inWord, word⟩
      (List.infix_refl _) rfl rfl
    have chars : (Tree.leaf .inOperator ⟨negation.start, word.stop⟩).chars source = cs := by
      rw [Tree.chars, Tree.span_leaf, slice]
      rfl
    rw [Membership.span, chars]
    exact if_pos count

section Comparison

variable {around : Surroundings} {name : String} {span place : Span}

/-- Every comparison begins with its field, and the field with its name. -/
theorem comparison_field (rest : List Tree) :
    (Tree.node .comparison place (fieldTree span :: rest)).required .field = .ok (fieldTree span) ∧
      (fieldTree span).required .identifier = .ok (.leaf .identifier span) :=
  ⟨required_eq (by simp [fieldTree]), required_eq (by simp [fieldTree])⟩

/-- The text of an identifier's leaf is the name. -/
theorem identifier_text {source : List Char}
    (spelled : Token.SpelledIn source ⟨.identifier name, span⟩) :
    (Tree.leaf .identifier span).text source = name := by
  rw [Tree.text, text_leaf spelled .identifier rfl, String.ofList_toList]

/-- What comes of a comparison with one value, at its place. -/
theorem comparisonNode_compare_placed {comparator : Comparator} {operator : Span} {value : Scalar}
    (legible : Legible around.source (Phrase.compare name span comparator operator value).tokens) :
    comparisonNode around (.node .comparison place
      [fieldTree span, .leaf .compareOperator operator, value.tree]) = do
      return .comparison ⟨name, some span⟩ comparator.symbol (← value.value) (some place) := by
  -- Name, operator and literal are read back from the text under their leaves.
  have valueOf := scalarValue_tree (legible.spelled value.token (by simp [Phrase.tokens]))
  have text := identifier_text (legible.spelled ⟨.identifier name, span⟩ (by simp [Phrase.tokens]))
  have spelling := comparator_spelling
    (legible.spelled ⟨comparator.kind, operator⟩ (by simp [Phrase.tokens]))
  rw [comparisonNode, (comparison_field _).1, ← text, ← spelling, ← valueOf]
  simp [Tree.child?, Tree.required, fieldTree, Scalar.tree, scalarOf]
  rfl

/-- The tree of a comparison with one value. -/
theorem comparisonNode_compare {comparator : Comparator} {operator : Span} {value : Scalar}
    (legible : Legible around.source (Phrase.compare name span comparator operator value).tokens)
    (expand : String → Built) :
    (comparisonNode around (.node .comparison place
      [fieldTree span, .leaf .compareOperator operator, value.tree])).unplaced =
      (Phrase.compare name span comparator operator value).ast around.language expand := by
  -- The literal is the only part that can fail and the only one with a place of its own.
  rw [comparisonNode_compare_placed legible, Phrase.ast, ← value.unplaced_value]
  refine unplaced_bind (fun value => ?_) _
  rfl

/-- What comes of a comparison with a list, at its place. -/
theorem comparisonNode_member_placed {membership : Membership} {opening closing : Span}
    {listing : Listing}
    (legible : Legible around.source
      (Phrase.member name span membership opening listing closing).tokens) :
    comparisonNode around (.node .comparison place
      [fieldTree span, .leaf .inOperator membership.span, listTree opening listing closing]) = do
      let value ← listing.valueAt (listTree opening listing closing).span
      return .comparison ⟨name, some span⟩ membership.symbol value (some place) := by
  -- A membership operator is one or two words; both lie in the source as the tokens say.
  have spelled : ∀ scalar ∈ listing.scalars, scalar.token.SpelledIn around.source :=
    fun scalar member =>
      legible.spelled scalar.token (by simp [Phrase.tokens, Listing.token_mem member])
  have text := identifier_text (legible.spelled ⟨.identifier name, span⟩ (by simp [Phrase.tokens]))
  have within : membership.tokens <:+:
      (Phrase.member name span membership opening listing closing).tokens :=
    ⟨[⟨.identifier name, span⟩],
      ⟨.openParen, opening⟩ :: listing.tokens ++ [⟨.closeParen, closing⟩], by simp [Phrase.tokens]⟩
  have spelling := membership_spelling (legible.part within)
  rw [comparisonNode, (comparison_field _).1, ← text, ← spelling, ← listValue_tree spelled]
  simp [Tree.child?, Tree.required, fieldTree, listTree]
  rfl

/-- The tree of a comparison with a list. -/
theorem comparisonNode_member {membership : Membership} {opening closing : Span} {listing : Listing}
    (legible : Legible around.source
      (Phrase.member name span membership opening listing closing).tokens)
    (expand : String → Built) :
    (comparisonNode around (.node .comparison place
      [fieldTree span, .leaf .inOperator membership.span,
        listTree opening listing closing])).unplaced =
      (Phrase.member name span membership opening listing closing).ast around.language expand := by
  -- The list is the only part that can fail.
  rw [comparisonNode_member_placed legible, Phrase.ast, ← listing.unplaced_valueAt]
  refine unplaced_bind (fun value => ?_) _
  rfl

/-- What comes of a field that stands alone, at its place. -/
theorem comparisonNode_bare_placed
    (spelled : Token.SpelledIn around.source ⟨.identifier name, span⟩) :
    comparisonNode around (.node .comparison place [fieldTree span]) =
      match around.language.field? name with
      | some ⟨_, .boolean, _, _⟩ =>
        .ok (.comparison ⟨name, some span⟩ "=" (.boolean true (some span)) (some place))
      | _ => .error (.invalidShorthand name span) := by
  -- The field is the only child, so neither an operator nor a list is found.
  have text := identifier_text spelled
  rw [comparisonNode, (comparison_field _).1, ← text]
  simp [Tree.child?, Tree.required, fieldTree]
  rfl

/-- The tree of a field that stands alone. -/
theorem comparisonNode_bare
    (spelled : Token.SpelledIn around.source ⟨.identifier name, span⟩) (expand : String → Built) :
    (comparisonNode around (.node .comparison place [fieldTree span])).unplaced =
      (Phrase.bare name span).ast around.language expand := by
  -- What a name alone means depends on the field's type and on nothing else.
  rw [comparisonNode_bare_placed spelled, Phrase.ast]
  split <;> rfl

end Comparison

/-- Sibling trees are paired with their meanings one by one. -/
theorem meanings_eq_map (around : Surroundings) (trees : List Tree) :
    meanings around trees = trees.map fun tree => (tree, fun _ => meaning around tree) := by
  -- Induction on the trees; the meanings are held back as functions.
  induction trees with
  | nil => rfl
  | cons tree trees ih => rw [meanings, ih, List.map_cons]

/-- The meaning of a part is that of the first tree of the kind. -/
theorem partMeaning_meanings {around : Surroundings} {trees : List Tree} {kind : NodeKind}
    {child : Tree} (parent : NodeKind) (found : trees.find? (·.kind == kind) = some child) :
    partMeaning parent kind (meanings around trees) = meaning around child := by
  -- A part is of the kind of its tree, so the same tree is found first.
  rw [partMeaning, meanings_eq_map, List.find?_map]
  have same : trees.find? ((fun part : Tree × (Unit → Except BuildError Node) =>
      part.1.kind == kind) ∘ fun tree => (tree, fun _ => meaning around tree)) = some child := found
  rw [same]
  rfl

/-- The meaning of a negation: its primary expression under the negations before it. -/
theorem meaning_notExpression (around : Surroundings) (place : Span) (parts : List Tree) :
    meaning around (.node .notExpression place parts) = do
      let operand ← partMeaning .notExpression .primary (meanings around parts)
      return negate place.stop (parts.filter (·.kind == .notOp)) operand := by
  -- The node kind selects the rule for negations.
  rw [meaning]
  rfl

/-- One more negation in front negates what comes of the others, from its word on. -/
theorem meaning_negated (around : Surroundings) (place word : Span) (parts : List Tree) :
    meaning around (.node .notExpression place (.leaf .notOp word :: parts)) = do
      return .negation (← meaning around (.node .notExpression place parts))
        (some ⟨word.start, place.stop⟩) := by
  -- The new leaf is not the operand, and it comes before all other negations.
  have operand :
      partMeaning .notExpression .primary (meanings around (.leaf .notOp word :: parts)) =
        partMeaning .notExpression .primary (meanings around parts) := by
    simp [partMeaning, meanings]
  have negations : (.leaf .notOp word :: parts).filter (·.kind == .notOp) =
      .leaf .notOp word :: parts.filter (·.kind == .notOp) := by
    simp
  rw [meaning_notExpression, meaning_notExpression, operand, negations]
  cases partMeaning .notExpression .primary (meanings around parts) with
  | error error => rfl
  | ok node => rfl

/-- An operand without negations is the meaning of its primary expression. -/
theorem meaning_plain (around : Surroundings) (place : Span) (parts : List Tree) :
    (meaning around (.node .notExpression place [inner .primary parts])) =
      meaning around (inner .primary parts) := by
  -- Without a mark the operand's meaning is passed on.
  have found : [inner .primary parts].find? (·.kind == .primary) = some (inner .primary parts) := by
    simp
  rw [meaning_notExpression, partMeaning_meanings _ found]
  simp [negate]

/-- One more operand at the end of a chain is joined to the others, up to its own end. -/
theorem chainMeaning_snoc {kind operand : NodeKind} {connective : Connective} {place : Span}
    {parts : List Part} {mark last : Part} (filled : parts.filter (·.1.kind == operand) ≠ [])
    (marks : (mark.1.kind == operand) = false) (ends : (last.1.kind == operand) = true) :
    chainMeaning kind operand connective place (parts ++ [mark, last]) = do
      let left ← chainMeaning kind operand connective place parts
      let right ← last.2 ()
      return .logical connective left right (some ⟨place.start, last.1.span.stop⟩) := by
  have operands : (parts ++ [mark, last]).filter (·.1.kind == operand) =
      parts.filter (·.1.kind == operand) ++ [last] := by
    simp [marks, ends]
  obtain ⟨first, rest, split⟩ := List.exists_cons_of_ne_nil filled
  -- Joining from left to right makes the last operand the right side of the outermost join.
  rw [chainMeaning, operands, split]
  simp [chainMeaning, split, joinOperands]

/-- A chain has at least one operand. -/
theorem Phrase.filter_parts_ne_nil {connective : Connective} (phrase : Phrase (.chain connective)) :
    phrase.parts.filter (·.kind == connective.operand.nodeKind) ≠ [] := by
  -- A chain always has an operand, whichever production it is.
  cases phrase with
  | single operand => simp [Phrase.parts]
  | join left word right => simp [Phrase.parts]

/-- The meaning of a chain joins its operands by its connective. -/
theorem meaning_chain (around : Surroundings) (connective : Connective) (place : Span)
    (parts : List Tree) :
    meaning around (.node (Category.chain connective).nodeKind place parts) =
      chainMeaning (Category.chain connective).nodeKind connective.operand.nodeKind connective place
        (meanings around parts) := by
  -- The rule is chosen by node kind, which the connective fixes.
  rw [meaning]
  cases connective <;> rfl

/-- A single operand is handed on as it is. -/
theorem meaning_single (around : Surroundings) {connective : Connective}
    (operand : Phrase connective.operand) (place : Span) :
    meaning around (.node (Category.chain connective).nodeKind place
      (Phrase.single operand).parts) = meaning around operand.tree := by
  -- A chain of one operand has nothing to join.
  rw [meaning_chain]
  simp [chainMeaning, Phrase.parts, Phrase.tree, meanings, joinOperands]

/-- The last operand of a chain is joined to the chain before it. -/
theorem meaning_join (around : Surroundings) {connective : Connective}
    (left : Phrase (.chain connective)) (word : Span) (right : Phrase connective.operand)
    (place : Span) :
    meaning around (.node (Category.chain connective).nodeKind place
      (Phrase.join left word right).parts) = do
      let first ← meaning around (.node (Category.chain connective).nodeKind place left.parts)
      let second ← meaning around right.tree
      return .logical connective first second (some ⟨place.start, right.tree.span.stop⟩) := by
  -- The left side is a chain of its own, so the new operand is not the first.
  have filled : (meanings around left.parts).filter
      (·.1.kind == connective.operand.nodeKind) ≠ [] := by
    have operands := left.filter_parts_ne_nil
    simpa [meanings_eq_map, List.filter_map, Function.comp_def] using operands
  have marks : (connective.mark == connective.operand.nodeKind) = false := by
    cases connective <;> rfl
  rw [meaning_chain, meaning_chain]
  simp only [Phrase.parts, meanings_eq_map, List.map_append, List.map_cons, List.map_nil]
    at filled ⊢
  exact chainMeaning_snoc filled (by simpa using marks) (by simp)

/-- The meaning of a primary expression is that of the tree below it. -/
theorem meaning_primary (around : Surroundings) (place : Span) {kind : NodeKind}
    (body : kind = .group ∨ kind = .aliasCall ∨ kind = .comparison) (children : List Tree) :
    meaning around (.node .primary place [inner kind children]) =
      meaning around (.node kind (inner kind children).span children) := by
  -- Each of the three bodies is the first of its kind under the node.
  rw [← inner_eq_node, meaning]
  rcases body with rfl | rfl | rfl <;> simp [combine, meanings, primaryMeaning]

/-- The meaning of a group is that of the chain inside it. -/
theorem meaning_group (around : Surroundings) (place opening closing : Span) (parts : List Tree) :
    meaning around (.node .group place [.leaf .openParen opening,
      inner .expression [inner .orExpression parts], .leaf .closeParen closing]) =
      meaning around (inner .orExpression parts) := by
  -- Two look-ups, one for the expression between the parentheses and one for the chain below it.
  have expression : [.leaf .openParen opening, inner .expression [inner .orExpression parts],
      .leaf .closeParen closing].find? (·.kind == .expression) =
      some (inner .expression [inner .orExpression parts]) := by
    simp
  have chain : [inner .orExpression parts].find? (·.kind == .orExpression) =
      some (inner .orExpression parts) := by
    simp
  rw [meaning, combine, Tree.kind_node]
  rw [partMeaning_meanings _ expression, inner_eq_node .expression, meaning, combine,
    Tree.kind_node]
  exact partMeaning_meanings _ chain

/-- The meaning of a call is what the surroundings say of its name. -/
theorem meaning_call {around : Surroundings} {name : String} {span : Span}
    (place opening closing : Span)
    (spelled : Token.SpelledIn around.source ⟨.identifier name, span⟩) :
    meaning around (.node .aliasCall place [.leaf .identifier span, .leaf .openParen opening,
      .leaf .closeParen closing]) = around.call name place := by
  -- The name is the only identifier among the three leaves.
  have found : (Tree.node .aliasCall place [.leaf .identifier span, .leaf .openParen opening,
      .leaf .closeParen closing]).required .identifier = .ok (.leaf .identifier span) :=
    required_eq (by simp)
  rw [meaning, combine, Tree.kind_node, ← identifier_text spelled]
  simp only [found]
  rfl

/-- The meaning of a comparison is what its tree says of it. -/
theorem meaning_comparison (around : Surroundings) (place : Span) (parts : List Tree) :
    meaning around (.node .comparison place parts) =
      comparisonNode around (.node .comparison place parts) := by
  -- The node kind selects the rule for comparisons.
  rw [meaning]
  rfl

/-- The tree of a phrase means the phrase's AST, up to the places in it. -/
theorem meaning_phrase {around : Surroundings} {expand : String → Built}
    (calls : ∀ name span, (around.call name span).unplaced = expand name) {category : Category}
    (phrase : Phrase category) (legible : Legible around.source phrase.tokens) (place : Span) :
    (meaning around (.node category.nodeKind place phrase.parts)).unplaced =
      phrase.ast around.language expand := by
  -- The place of the top node is left open, as an operand's node lies within that of its chain.
  induction phrase generalizing place with
  | bare name span =>
    rw [Category.nodeKind, Phrase.parts, meaning_primary _ _ (by simp), meaning_comparison]
    exact comparisonNode_bare (legible.spelled _ (List.mem_singleton.mpr rfl)) expand
  | compare name span comparator operator value =>
    rw [Category.nodeKind, Phrase.parts, meaning_primary _ _ (by simp), meaning_comparison]
    exact comparisonNode_compare legible expand
  | member name span membership opening listing closing =>
    rw [Category.nodeKind, Phrase.parts, meaning_primary _ _ (by simp), meaning_comparison]
    exact comparisonNode_member legible expand
  | call name span opening closing =>
    rw [Category.nodeKind, Phrase.parts, meaning_primary _ _ (by simp),
      meaning_call _ _ _ (legible.spelled ⟨.identifier name, span⟩ (by simp [Phrase.tokens]))]
    exact calls name _
  | group opening inside closing ih =>
    have within : inside.tokens <:+: (Phrase.group opening inside closing).tokens :=
      ⟨[⟨.openParen, opening⟩], [⟨.closeParen, closing⟩], by simp [Phrase.tokens]⟩
    rw [Category.nodeKind, Phrase.parts, meaning_primary _ _ (by simp), meaning_group,
      inner_eq_node]
    exact ih (legible.part within) _
  | plain operand ih =>
    rw [Category.nodeKind, Phrase.parts, meaning_plain, inner_eq_node]
    exact ih legible _
  | negated word operand ih =>
    have within : operand.tokens <:+: (Phrase.negated word operand).tokens :=
      (List.suffix_cons _ _).isInfix
    rw [Category.nodeKind, Phrase.parts, meaning_negated, Phrase.ast,
      ← ih (legible.part within) place]
    refine unplaced_bind (fun node => ?_) _
    rfl
  | single operand ih =>
    rw [meaning_single, Phrase.tree, inner_eq_node]
    exact ih legible _
  | join left word right ihLeft ihRight =>
    have before : left.tokens <:+: (Phrase.join left word right).tokens :=
      (List.prefix_append _ _).isInfix
    have behind : right.tokens <:+: (Phrase.join left word right).tokens :=
      ((List.suffix_cons _ _).trans (List.suffix_append _ _)).isInfix
    rw [meaning_join, Phrase.ast, ← ihLeft (legible.part before) place]
    refine unplaced_bind (fun left => ?_) _
    rw [Phrase.tree, inner_eq_node, ← ihRight (legible.part behind)]
    refine unplaced_bind (fun right => ?_) _
    rfl

end FilterLang
