import FilterLang.Proofs.Ast.Expansion
import FilterLang.Proofs.Grammar.Hole
import FilterLang.Proofs.Token.Splice

/-! A call means its expansion in parentheses. -/

namespace FilterLang

/-- A token of a known kind at the head of tokens of known kinds. -/
theorem exists_head {tokens : List Token} {kind : TokenKind} {kinds : List TokenKind}
    (same : tokens.map (·.kind) = kind :: kinds) :
    ∃ span rest, tokens = ⟨kind, span⟩ :: rest ∧ rest.map (·.kind) = kinds := by
  -- The first kind belongs to a token, and the token adds a span.
  obtain ⟨token, rest, rfl, rfl, others⟩ := List.map_eq_cons_iff.mp same
  exact ⟨token.span, rest, rfl, others⟩

/-- The items of a list at other places. -/
theorem Items.exists_replaced (items : Items) {tokens : List Token}
    (same : tokens.map (·.kind) = items.tokens.map (·.kind)) :
    ∃ other : Items, other.tokens = tokens ∧
      other.scalars.map (·.literal) = items.scalars.map (·.literal) := by
  -- Induction on the items. Each token of the other text gives its span to the literal or comma
  -- that stands in the same place.
  induction items generalizing tokens with
  | last scalar =>
    obtain ⟨span, tail, rfl, ended⟩ := exists_head same
    obtain rfl := List.map_eq_nil_iff.mp ended
    exact ⟨.last ⟨scalar.literal, span⟩, rfl, rfl⟩
  | more scalar _ rest ih =>
    obtain ⟨span, tail, rfl, afterItem⟩ := exists_head same
    obtain ⟨comma, tail, rfl, afterComma⟩ := exists_head afterItem
    obtain ⟨other, rfl, literals⟩ := ih afterComma
    exact ⟨.more ⟨scalar.literal, span⟩ comma other, rfl, by simp [Items.scalars, literals]⟩

/-- The inside of a list at other places. -/
theorem Listing.exists_replaced (listing : Listing) {tokens : List Token}
    (same : tokens.map (·.kind) = listing.tokens.map (·.kind)) :
    ∃ other : Listing, other.tokens = tokens ∧
      other.scalars.map (·.literal) = listing.scalars.map (·.literal) := by
  -- An empty list has no tokens to replace.
  cases listing with
  | none =>
    obtain rfl := List.map_eq_nil_iff.mp same
    exact ⟨none, rfl, rfl⟩
  | some items =>
    obtain ⟨other, rfl, literals⟩ := items.exists_replaced same
    exact ⟨some other, rfl, literals⟩

/-- The value of a list depends on its literals alone. -/
theorem Listing.value_congr {listing other : Listing}
    (literals : other.scalars.map (·.literal) = listing.scalars.map (·.literal)) :
    other.value = listing.value := by
  -- Values are read from literals, without a look at their spans.
  have values : ∀ scalars : List Scalar,
      scalars.mapM (·.literal.value) = (scalars.map (·.literal)).mapM Literal.value := by
    intro scalars
    rw [List.mapM_map]
    rfl
  rw [Listing.value, Listing.value, values, values, literals]

/-- A membership operator at other places. -/
theorem Membership.exists_replaced (membership : Membership) {tokens : List Token}
    (same : tokens.map (·.kind) = membership.tokens.map (·.kind)) :
    ∃ other : Membership, other.tokens = tokens ∧ other.symbol = membership.symbol := by
  -- One or two words, each with its new span.
  cases membership with
  | isIn _ =>
    obtain ⟨word, tail, rfl, ended⟩ := exists_head same
    obtain rfl := List.map_eq_nil_iff.mp ended
    exact ⟨.isIn word, rfl, rfl⟩
  | notIn _ _ =>
    obtain ⟨negation, tail, rfl, afterNot⟩ := exists_head same
    obtain ⟨word, tail, rfl, ended⟩ := exists_head afterNot
    obtain rfl := List.map_eq_nil_iff.mp ended
    exact ⟨.notIn negation word, rfl, rfl⟩

/--
Tokens of the same kinds as those of a phrase are those of a phrase with the same AST.

The two phrases open their groups in the same places.
-/
theorem Phrase.exists_replaced {category : Category} (phrase : Phrase category)
    {tokens : List Token} (same : tokens.map (·.kind) = phrase.tokens.map (·.kind)) :
    ∃ other : Phrase category, other.tokens = tokens ∧ other.nesting = phrase.nesting ∧
      ∀ language expand, other.ast language expand = phrase.ast language expand := by
  -- A token's kind says everything of it but its place, so the kinds give the phrase back.
  induction phrase generalizing tokens with
  | bare name _ =>
    obtain ⟨span, tail, rfl, ended⟩ := exists_head same
    obtain rfl := List.map_eq_nil_iff.mp ended
    exact ⟨.bare name span, rfl, rfl, fun _ _ => rfl⟩
  | compare name _ comparator _ scalar =>
    obtain ⟨span, tail, rfl, afterName⟩ := exists_head same
    obtain ⟨operator, tail, rfl, afterOperator⟩ := exists_head afterName
    obtain ⟨place, tail, rfl, ended⟩ := exists_head afterOperator
    obtain rfl := List.map_eq_nil_iff.mp ended
    exact ⟨.compare name span comparator operator ⟨scalar.literal, place⟩, rfl, rfl,
      fun _ _ => rfl⟩
  | member name _ membership _ listing _ =>
    simp only [Phrase.tokens, List.cons_append, List.append_assoc, List.map_cons, List.map_append]
      at same
    -- The operator and the items are cut out by their lengths, all else is a single token.
    obtain ⟨span, tail, rfl, afterName⟩ := exists_head same
    obtain ⟨words, tail, rfl, operator, afterOperator⟩ := List.map_eq_append_iff.mp afterName
    obtain ⟨opening, tail, rfl, afterOpening⟩ := exists_head afterOperator
    obtain ⟨inside, tail, rfl, list, afterList⟩ := List.map_eq_append_iff.mp afterOpening
    obtain ⟨closing, tail, rfl, ended⟩ := exists_head afterList
    obtain rfl := List.map_eq_nil_iff.mp ended
    obtain ⟨spelling, rfl, symbol⟩ := membership.exists_replaced operator
    obtain ⟨items, rfl, literals⟩ := listing.exists_replaced list
    refine ⟨.member name span spelling opening items closing, by simp [Phrase.tokens], rfl,
      fun language expand => ?_⟩
    simp only [Phrase.ast, symbol, Listing.value_congr literals]
  | call name _ _ _ =>
    obtain ⟨span, tail, rfl, afterName⟩ := exists_head same
    obtain ⟨opening, tail, rfl, afterOpening⟩ := exists_head afterName
    obtain ⟨closing, tail, rfl, ended⟩ := exists_head afterOpening
    obtain rfl := List.map_eq_nil_iff.mp ended
    exact ⟨.call name span opening closing, rfl, rfl, fun _ _ => rfl⟩
  | group _ inside _ ih =>
    simp only [Phrase.tokens, List.cons_append, List.map_cons, List.map_append] at same
    obtain ⟨opening, tail, rfl, afterOpening⟩ := exists_head same
    obtain ⟨body, tail, rfl, bodyKinds, afterBody⟩ := List.map_eq_append_iff.mp afterOpening
    obtain ⟨closing, tail, rfl, ended⟩ := exists_head afterBody
    obtain rfl := List.map_eq_nil_iff.mp ended
    obtain ⟨other, rfl, groups, agree⟩ := ih bodyKinds
    exact ⟨.group opening other closing, rfl, by simp only [Phrase.nesting, groups], agree⟩
  | plain operand ih =>
    obtain ⟨other, rfl, groups, agree⟩ := ih same
    exact ⟨.plain other, rfl, groups, agree⟩
  | negated _ operand ih =>
    obtain ⟨word, tail, rfl, afterWord⟩ := exists_head same
    obtain ⟨other, rfl, groups, agree⟩ := ih afterWord
    exact ⟨.negated word other, rfl, groups, fun language expand => by
      simp only [Phrase.ast, agree]⟩
  | single operand ih =>
    obtain ⟨other, rfl, groups, agree⟩ := ih same
    exact ⟨.single other, rfl, groups, agree⟩
  | join left _ right ihLeft ihRight =>
    simp only [Phrase.tokens, List.map_append, List.map_cons] at same
    obtain ⟨before, behind, rfl, early, late⟩ := List.map_eq_append_iff.mp same
    obtain ⟨word, tail, rfl, afterWord⟩ := exists_head late
    obtain ⟨first, rfl, groupsLeft, agreeLeft⟩ := ihLeft early
    obtain ⟨second, rfl, groupsRight, agreeRight⟩ := ihRight afterWord
    exact ⟨.join first word second, rfl, by simp only [Phrase.nesting, groupsLeft, groupsRight],
      fun language expand => by simp only [Phrase.ast, agreeLeft, agreeRight]⟩

/-- Calls that stand for more leave every AST as it is. -/
theorem Phrase.ast_mono {language : Language} {expand wider : String → Built}
    (more : ∀ name node, expand name = .ok node → wider name = .ok node) {category : Category}
    (phrase : Phrase category) {node : Node} (built : phrase.ast language expand = .ok node) :
    phrase.ast language wider = .ok node := by
  -- Induction on the derivation: only calls look at expansions, and these keep their results.
  induction phrase generalizing node with
  | bare name span => exact built
  | compare name span comparator operator scalar => exact built
  | member name span membership opening listing closing => exact built
  | call name span opening closing => exact more name node built
  | group opening inside closing ih => exact ih built
  | plain operand ih => exact ih built
  | negated word operand ih =>
    simp only [Phrase.ast, bind_eq_ok] at built ⊢
    obtain ⟨inside, first, made⟩ := built
    exact ⟨inside, ih first, made⟩
  | single operand ih => exact ih built
  | join left word right ihLeft ihRight =>
    simp only [Phrase.ast, bind_eq_ok] at built ⊢
    obtain ⟨before, first, behind, second, made⟩ := built
    exact ⟨before, ihLeft first, behind, ihRight second, made⟩

section Chains

variable {language : Language} {limit rounds wider : Nat} {chain shorter : List String}

/-- An alias that a call opens can be opened in a shorter chain of the same names. -/
theorem Opens.mono {name : String} {declared : Alias}
    (opens : Opens language limit chain name declared) (kept : shorter ⊆ chain)
    (length : shorter.length ≤ chain.length) : Opens language limit shorter name declared where
  fresh := fun repeated => opens.fresh (kept repeated)
  -- A shorter chain forbids fewer names and leaves more room.
  room := Nat.lt_of_le_of_lt length opens.room
  found := opens.found
  readable := opens.readable

/-- A call with an AST has the same one in a shorter chain, with no fewer rounds. -/
theorem callAst_mono (enough : rounds ≤ wider) (kept : shorter ⊆ chain)
    (length : shorter.length ≤ chain.length) {name : String} {node : Node}
    (built : callAst language limit rounds chain name = .ok node) :
    callAst language limit wider shorter name = .ok node := by
  -- Inside the expansion both chains are longer by the same name, so they are left open.
  induction rounds generalizing wider chain shorter name node with
  | zero =>
    -- Without a round no call has an AST.
    obtain ⟨fewer, declared, impossible, -⟩ := callAst_ok built
    cases impossible
  | succ rounds ih =>
    obtain ⟨fewer, declared, same, opens, inside⟩ := callAst_ok built
    obtain rfl := Nat.succ.inj same
    obtain ⟨wider, rfl⟩ : ∃ less, wider = less + 1 := ⟨wider - 1, by omega⟩
    obtain ⟨body, derives⟩ := exists_derives opens.readable
    rw [callAst_of_opens (opens.mono kept length), textAst_of_derives derives]
    rw [textAst_of_derives derives] at inside
    -- The same expansion is read on both sides, with calls that stand for no less.
    refine body.ast_mono (fun name node => ih (by omega) ?_ ?_) inside
    · exact List.append_subset.mpr
        ⟨List.subset_append_of_subset_left _ kept, List.subset_append_right _ _⟩
    · simpa using length

end Chains

namespace Hole

variable {language : Language} {expand : String → Built} {category : Category}

/-- Expressions with the same AST can take each other's place. -/
theorem ast_fill_congr {first second : Phrase .primary}
    (same : first.ast language expand = second.ast language expand) (hole : Hole category) :
    (hole.fill first).ast language expand = (hole.fill second).ast language expand := by
  -- Induction along the way to the hole; the rest of the phrase is the same on both sides.
  induction hole with
  | here => exact same
  | group opening inside closing ih => exact ih
  | plain operand ih => exact ih
  | negated word operand ih => simp only [fill, Phrase.ast, ih]
  | single operand ih => exact ih
  | left left word right ih => simp only [fill, Phrase.ast, ih]
  | right left word right ih => simp only [fill, Phrase.ast, ih]

/-- Where a whole phrase has an AST, so has each expression in it. -/
theorem ok_of_fill {expression : Phrase .primary} (hole : Hole category) {node : Node}
    (built : (hole.fill expression).ast language expand = .ok node) :
    ∃ inner, expression.ast language expand = .ok inner := by
  -- Induction along the way to the hole: what is built is built of its parts.
  induction hole generalizing node with
  | here => exact ⟨node, built⟩
  | group opening inside closing ih => exact ih built
  | plain operand ih => exact ih built
  | negated word operand ih =>
    simp only [fill, Phrase.ast, bind_eq_ok] at built
    obtain ⟨inside, first, -⟩ := built
    exact ih first
  | single operand ih => exact ih built
  | left left word right ih =>
    simp only [fill, Phrase.ast, bind_eq_ok] at built
    obtain ⟨before, first, -⟩ := built
    exact ih first
  | right left word right ih =>
    simp only [fill, Phrase.ast, bind_eq_ok] at built
    obtain ⟨-, -, behind, second, -⟩ := built
    exact ih second

end Hole

/-- A call of a name begins at an offset of a text. -/
def CallsAt (text : String) (offset : Nat) (name : String) : Prop :=
  ∃ visit ∈ (parse text).visits, visit.kind = .aliasCall ∧ visit.span.start = offset ∧
    (visit.tree.child? .identifier).map (·.text text.toList) = some name

instance (text : String) (offset : Nat) (name : String) : Decidable (CallsAt text offset name) :=
  inferInstanceAs (Decidable (∃ visit ∈ (parse text).visits, visit.kind = .aliasCall ∧
    visit.span.start = offset ∧
    (visit.tree.child? .identifier).map (·.text text.toList) = some name))

/-- The tree of a call begins where its name begins. -/
theorem callTree_start {span opening closing : Span} (first : span.start < opening.start)
    (second : opening.start < closing.start) :
    (callTree span opening closing).span.start = span.start := by
  -- A node spans its children, so it begins with the first of them.
  show min (min span.start opening.start) closing.start = span.start
  omega

/-- A call in the tree of a text is a call in the query that derives the text. -/
theorem CallsAt.exists_hole {text name : String} {offset : Nat} (called : CallsAt text offset name)
    {query : Query} (derives : query.Derives text) :
    ∃ (hole : Hole (.chain .or)) (span opening closing : Span),
      query = hole.fill (.call name span opening closing) ∧ span.start = offset := by
  obtain ⟨visit, visited, kind, start, named⟩ := called
  have member : visit.tree ∈ (parse text).calls :=
    List.mem_filter.mpr ⟨List.mem_map_of_mem visited, beq_iff_eq.mpr kind⟩
  rw [parse_of_derives derives] at member
  obtain ⟨hole, name', span, opening, closing, rfl, same⟩ :=
    query.exists_hole (by simpa [Phrase.tree, Category.nodeKind] using member)
  -- The tokens of the call are among those of the text: they stand in order and spell the name.
  have tokens := derives.1
  rw [Hole.tokens_fill] at tokens
  have order := (scans_tokenize text).pairwise_start
  have spelled := (legible_tokenize text).spelled ⟨.identifier name', span⟩
  rw [← tokens] at order spelled
  have ordered : span.start < opening.start ∧ opening.start < closing.start := by
    have own := (List.pairwise_append.mp (List.pairwise_append.mp order).2.1).1
    simp only [Phrase.tokens, List.pairwise_cons, List.mem_cons, List.not_mem_nil, or_false,
      forall_eq_or_imp, forall_eq] at own
    exact ⟨own.1.1, own.2.1⟩
  have leaf : visit.tree.child? .identifier = some (.leaf .identifier span) := by
    simp [same, callTree, Tree.child?]
  rw [leaf, Option.map_some, identifier_text (spelled (by simp [Phrase.tokens]))] at named
  refine ⟨hole, span, opening, closing, by rw [Option.some.inj named], ?_⟩
  rw [← start, Visit.span, same, callTree_start ordered.1 ordered.2]

/-- With a call's expansion written out, a text is that of the query with a group in its place. -/
theorem exists_substituted {pre name post inside : String} {hole : Hole (.chain .or)}
    {span opening closing : Span}
    (derives : Phrase.Derives (hole.fill (.call name span opening closing))
      (pre ++ (name ++ "()") ++ post))
    (begins : span.start = byteSize pre) {body : Query} (derivesBody : body.Derives inside) :
    ∃ other : Query, other.tokens = tokenize (pre ++ ("(" ++ inside ++ ")") ++ post) ∧
      ∀ language expand, other.ast language expand =
        (hole.fill (.group opening body closing)).ast language expand := by
  have cut := derives.1
  have legal := (hole.fill (.call name span opening closing)).tokens_legal
  rw [Hole.tokens_fill] at cut legal
  -- A string left open would be no legal token, in the text or in the expansion.
  have kinds := tokenize_splice cut.symm begins
    (fun token member => (legal token (List.mem_append_left _ member)).2)
    (fun token member => (body.tokens_legal token (derivesBody.1 ▸ member)).2)
  -- Only the places differ from those of the query with a group in the place of the call.
  have same : (tokenize (pre ++ ("(" ++ inside ++ ")") ++ post)).map (·.kind) =
      (hole.fill (.group opening body closing)).tokens.map (·.kind) := by
    rw [kinds, Hole.tokens_fill, ← derivesBody.1]
    simp [Phrase.tokens]
  obtain ⟨other, tokens, -, agree⟩ := Phrase.exists_replaced _ same
  exact ⟨other, tokens, agree⟩

/-- An alias written out has the AST that a call of it has. -/
theorem group_ast_of_call {language : Language} {limit : Nat} {declared : Alias} {node : Node}
    (distinct : (language.aliases.map (·.name)).Nodup) (declares : declared ∈ language.aliases)
    (built : callAst language limit language.aliases.length [] declared.name = .ok node) :
    ∃ body : Query, body.Derives declared.expansion ∧
      body.ast language (callAst language limit language.aliases.length []) = .ok node := by
  obtain ⟨fewer, opened, rounds, opens, inside⟩ := callAst_ok built
  obtain rfl := opens.eq_declared distinct declares
  obtain ⟨body, derives⟩ := exists_derives opens.readable
  rw [textAst_of_derives derives] at inside
  -- Written out, the expansion stands outside of the call, so its own calls start a chain.
  refine ⟨body, derives, body.ast_mono (fun name node => ?_) inside⟩
  exact callAst_mono (by omega) (by simp) (by simp)

/--
A call of an alias means the alias's expansion in parentheses.

Where a query with the call has an AST, the query with the expansion written out has the same one,
places aside, provided that it does not open too many groups at once.
-/
theorem call_means_expansion {language : Language}
    (distinct : (language.aliases.map (·.name)).Nodup) {declared : Alias}
    (declares : declared ∈ language.aliases) (limit : Nat) (pre post : String)
    (called : CallsAt (pre ++ (declared.name ++ "()") ++ post) (byteSize pre) declared.name)
    (shallow : ∀ query : Query,
      query.tokens = tokenize (pre ++ ("(" ++ declared.expansion ++ ")") ++ post) →
      query.nesting ≤ maxNesting) {envelope : Envelope}
    (built : buildEnvelope .standard language limit
      (parse (pre ++ (declared.name ++ "()") ++ post)) (pre ++ (declared.name ++ "()") ++ post) =
      .ok envelope) :
    ∃ written, buildEnvelope .standard language limit
      (parse (pre ++ ("(" ++ declared.expansion ++ ")") ++ post))
      (pre ++ ("(" ++ declared.expansion ++ ")") ++ post) = .ok written ∧
      written.root.eraseSpans = envelope.root.eraseSpans := by
  have root := buildEnvelope_ok built
  obtain ⟨-, readable⟩ := buildRoot_ok root
  obtain ⟨query, derives⟩ := exists_derives readable
  -- The query is what is left around the call, filled with the call.
  obtain ⟨hole, span, opening, closing, rfl, begins⟩ := called.exists_hole derives
  have made := textAst_of_buildRoot root
  rw [textAst_of_derives derives] at made
  -- As the query has an AST, so has the call, and the alias written out has the same one.
  obtain ⟨inner, expanded⟩ := hole.ok_of_fill made
  obtain ⟨body, derivesBody, same⟩ := group_ast_of_call distinct declares expanded
  obtain ⟨other, tokens, agree⟩ := exists_substituted derives begins derivesBody
  have derivesOther : other.Derives (pre ++ ("(" ++ declared.expansion ++ ")") ++ post) :=
    ⟨tokens, shallow other tokens⟩
  have replaced : textAst language limit language.aliases.length []
      (pre ++ ("(" ++ declared.expansion ++ ")") ++ post) = .ok envelope.root.eraseSpans := by
    rw [textAst_of_derives derivesOther, agree, ← made]
    refine hole.ast_fill_congr ?_
    rw [expanded, Phrase.ast, same]
  obtain ⟨_, rebuilt, erased⟩ :=
    buildRoot_of_textAst distinct (fault_of_derives derivesOther) replaced
  obtain ⟨written, carried, rfl⟩ := exists_buildEnvelope rebuilt
  exact ⟨written, carried, erased⟩

/-- A language in which the name of an alias is that of another with a blank behind it. -/
def paddedLanguage : Language :=
  { Language.new "1" with
    fields := [⟨"archived", .boolean, none, none⟩]
    aliases := [⟨"x ", "archived"⟩, ⟨"x", "NOT archived"⟩, ⟨"y", "x() OR archived"⟩] }

/-- An outcome whose AST has a size is an envelope with an AST of that size. -/
theorem exists_of_size {outcome : Except BuildError Envelope} {size : Nat}
    (sized : outcome.toOption.map (·.root.eraseSpans.size) = some size) :
    ∃ envelope, outcome = .ok envelope ∧ envelope.root.eraseSpans.size = size := by
  -- An error has no size.
  cases outcome with
  | ok envelope => exact ⟨envelope, rfl, Option.some.inj sized⟩
  | error error => cases sized

/-- Tokens that are few enough cannot open too many groups. -/
theorem nesting_le_of_tokens {tokens : List Token} (few : tokens.length ≤ maxNesting)
    {query : Query} (same : query.tokens = tokens) : query.nesting ≤ maxNesting :=
  Nat.le_trans query.nesting_le_length (same ▸ few)

/--
Where the name of an alias ends in a blank, the call that begins there is one of another alias.

So it is not enough that some call begins where the name of the alias stands.
-/
theorem paddedLanguage_call_differs :
    (paddedLanguage.aliases.map (·.name)).Nodup ∧
    ⟨"x ", "archived"⟩ ∈ paddedLanguage.aliases ∧
    (∃ visit ∈ (parse ("" ++ ("x " ++ "()") ++ "")).visits,
      visit.kind = .aliasCall ∧ visit.span.start = byteSize "") ∧
    (∀ query : Query, query.tokens = tokenize ("" ++ ("(" ++ "archived" ++ ")") ++ "") →
      query.nesting ≤ maxNesting) ∧
    ∃ envelope, buildEnvelope .standard paddedLanguage 2 (parse ("" ++ ("x " ++ "()") ++ ""))
      ("" ++ ("x " ++ "()") ++ "") = .ok envelope ∧
    ∃ written, buildEnvelope .standard paddedLanguage 2
      (parse ("" ++ ("(" ++ "archived" ++ ")") ++ "")) ("" ++ ("(" ++ "archived" ++ ")") ++ "") =
        .ok written ∧ written.root.eraseSpans ≠ envelope.root.eraseSpans := by
  have few : (tokenize ("" ++ ("(" ++ "archived" ++ ")") ++ "")).length ≤ maxNesting := by
    decide +kernel
  have called : (buildEnvelope .standard paddedLanguage 2 (parse ("" ++ ("x " ++ "()") ++ ""))
      ("" ++ ("x " ++ "()") ++ "")).toOption.map (·.root.eraseSpans.size) = some 3 := by
    decide +kernel
  have replaced : (buildEnvelope .standard paddedLanguage 2
      (parse ("" ++ ("(" ++ "archived" ++ ")") ++ "")) ("" ++ ("(" ++ "archived" ++ ")") ++ "")
      ).toOption.map (·.root.eraseSpans.size) = some 2 := by
    decide +kernel
  obtain ⟨envelope, built, three⟩ := exists_of_size called
  obtain ⟨written, rebuilt, two⟩ := exists_of_size replaced
  refine ⟨by decide, by decide, by decide +kernel, fun _ => nesting_le_of_tokens few, envelope,
    built, written, rebuilt, fun same => ?_⟩
  -- The one is a negation, which has a node more than the comparison under it.
  rw [same, three] at two
  cases two

/-- An expansion that is itself a chain with a call in it can be written out behind a negation. -/
theorem paddedLanguage_call_means_expansion :
    (paddedLanguage.aliases.map (·.name)).Nodup ∧
    CallsAt ("NOT " ++ ("y" ++ "()") ++ " AND archived") (byteSize "NOT ") "y" ∧
    ∃ envelope, buildEnvelope .standard paddedLanguage 2
      (parse ("NOT " ++ ("y" ++ "()") ++ " AND archived"))
      ("NOT " ++ ("y" ++ "()") ++ " AND archived") = .ok envelope ∧
    ∃ written, buildEnvelope .standard paddedLanguage 2
      (parse ("NOT " ++ ("(" ++ "x() OR archived" ++ ")") ++ " AND archived"))
      ("NOT " ++ ("(" ++ "x() OR archived" ++ ")") ++ " AND archived") = .ok written ∧
      written.root.eraseSpans = envelope.root.eraseSpans := by
  -- That the call is one, that it builds and that the brackets
  -- are few is computed; what the call means is not.
  have distinct : (paddedLanguage.aliases.map (·.name)).Nodup := by decide
  have called : CallsAt ("NOT " ++ ("y" ++ "()") ++ " AND archived") (byteSize "NOT ") "y" := by
    decide +kernel
  have few : (tokenize ("NOT " ++ ("(" ++ "x() OR archived" ++ ")") ++ " AND archived")).length ≤
      maxNesting := by
    decide +kernel
  have succeeds : (buildEnvelope .standard paddedLanguage 2
      (parse ("NOT " ++ ("y" ++ "()") ++ " AND archived"))
      ("NOT " ++ ("y" ++ "()") ++ " AND archived")).toOption.map (·.root.eraseSpans.size) =
      some 10 := by
    decide +kernel
  obtain ⟨envelope, built, -⟩ := exists_of_size succeeds
  have declares : (⟨"y", "x() OR archived"⟩ : Alias) ∈ paddedLanguage.aliases := by decide
  exact ⟨distinct, called, envelope, built, call_means_expansion distinct declares 2 "NOT "
    " AND archived" called (fun _ => nesting_le_of_tokens few) built⟩

end FilterLang
