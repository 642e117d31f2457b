import FilterLang.Proofs.Ast.Builds
import FilterLang.Proofs.Ast.Substitution
import FilterLang.Proofs.Compile.Pointing
import Mathlib.Tactic.ByContra

/-! The operator that an AST stores is the one whose tokens stand behind the field. -/

namespace FilterLang

/-- The operators of the comparisons whose field is at a place, from left to right. -/
def Node.operatorsAt (place : Span) : Node → List String
  | comparison field operator _ _ => if field.span = some place then [operator] else []
  | logical _ left right _ => left.operatorsAt place ++ right.operatorsAt place
  | negation expression _ => expression.operatorsAt place

/-- Fields are only at places of their expression. -/
theorem Node.mem_spans_of_operatorsAt {node : Node} {place : Span}
    (stored : node.operatorsAt place ≠ []) : place ∈ node.spans := by
  induction node with
  | comparison field operator value span =>
    have here : field.span = some place := by
      by_contra elsewhere
      exact stored (if_neg elsewhere)
    simp [Node.spans, here]
  | logical operator left right span ihLeft ihRight =>
    rw [Node.spans, List.mem_append, List.mem_append]
    -- One of the two sides has a comparison there.
    by_cases first : left.operatorsAt place = []
    · have second : right.operatorsAt place ≠ [] := by
        simpa [Node.operatorsAt, first] using stored
      exact .inr (.inr (ihRight second))
    · exact .inr (.inl (ihLeft first))
  | negation expression span ih => exact List.mem_append_right _ (ih stored)

/-- Whether a token is an operator or the last word of one. -/
def TokenKind.endsOperator (kind : TokenKind) : Bool :=
  kind.comparisonSymbol?.isSome || kind == .inWord

/-- The last token of an operator behind its other tokens, with the operator's one spelling. -/
inductive SpellsOperator : List Token → Token → String → Prop
  | compare {mark : Token} {symbol : String} (named : mark.kind.comparisonSymbol? = some symbol) :
      SpellsOperator [] mark symbol
  | isIn (word : Span) : SpellsOperator [] ⟨.inWord, word⟩ "IN"
  | notIn (negation word : Span) :
      SpellsOperator [⟨.notWord, negation⟩] ⟨.inWord, word⟩ "NOT IN"

/-- Every operator among some tokens is stored in an expression, at the field before it. -/
structure Stores (tokens : List Token) (node : Node) : Prop where
  within : ∀ place, node.operatorsAt place ≠ [] →
    ∃ token ∈ tokens, token.span.start = place.start
  stored : ∀ last ∈ tokens, last.kind.endsOperator = true → ∃ name field front symbol,
    SpellsOperator front last symbol ∧
      ⟨.identifier name, field⟩ :: (front ++ [last]) <:+: tokens ∧
      node.operatorsAt field = [symbol]

namespace Stores

variable {tokens left right : List Token} {node first second : Node}

/-- A comparison stores the operator behind its field. -/
theorem comparison {name operator : String} {field : Span} {value : Value} {place : Option Span}
    (member : ⟨.identifier name, field⟩ ∈ tokens)
    (own : ∀ last ∈ tokens, last.kind.endsOperator = true → ∃ front,
      SpellsOperator front last operator ∧
        ⟨.identifier name, field⟩ :: (front ++ [last]) <:+: tokens) :
    Stores tokens (.comparison ⟨name, some field⟩ operator value place) where
  within other stored := by
    -- A comparison shows an operator only at the place of its field.
    have here : some field = some other := by
      by_contra elsewhere
      exact stored (if_neg elsewhere)
    exact ⟨_, member, congrArg Span.start (Option.some.inj here)⟩
  stored last among ends := by
    obtain ⟨front, spells, inside⟩ := own last among ends
    exact ⟨name, field, front, operator, spells, inside, if_pos rfl⟩

/-- Tokens around those of an expression that end no operator add nothing to store. -/
theorem widened {part : List Token} (stores : Stores part node) (inside : part <:+: tokens)
    (only : ∀ token ∈ tokens, token.kind.endsOperator = true → token ∈ part) :
    Stores tokens node where
  within place stored := by
    -- The tokens of a part are tokens of the whole.
    obtain ⟨token, member, start⟩ := stores.within place stored
    exact ⟨token, inside.subset member, start⟩
  stored last member ends := by
    -- No operator ends outside of the part, so the whole asks for nothing more.
    obtain ⟨name, field, front, symbol, spells, among, here⟩ :=
      stores.stored last (only last member ends) ends
    exact ⟨name, field, front, symbol, spells, among.trans inside, here⟩

/-- A join stores the operators of both sides, since no token stands on both. -/
theorem joined {connective : Connective} {word : Span} {place : Option Span}
    (before : Stores left first) (behind : Stores right second)
    (apart : ∀ token ∈ left, ∀ other ∈ right, token.span.start ≠ other.span.start) :
    Stores (left ++ ⟨connective.word, word⟩ :: right) (.logical connective first second place) where
  within other stored := by
    by_cases early : first.operatorsAt other = []
    · have late : second.operatorsAt other ≠ [] := by
        simpa [Node.operatorsAt, early] using stored
      obtain ⟨token, member, start⟩ := behind.within other late
      exact ⟨token, by simp [member], start⟩
    · obtain ⟨token, member, start⟩ := before.within other early
      exact ⟨token, by simp [member], start⟩
  stored last member ends := by
    -- The word between the two sides is no operator of a comparison.
    have among : last ∈ left ∨ last ∈ right := by
      rcases List.mem_append.mp member with early | late
      · exact .inl early
      · rcases List.mem_cons.mp late with rfl | late
        · cases connective <;> cases ends
        · exact .inr late
    rcases among with early | late
    · obtain ⟨name, field, front, symbol, spells, inside, here⟩ := before.stored last early ends
      have elsewhere : second.operatorsAt field = [] := by
        by_contra stored
        obtain ⟨token, late, start⟩ := behind.within field stored
        exact apart _ (inside.subset List.mem_cons_self) token late start.symm
      refine ⟨name, field, front, symbol, spells, inside.trans (List.infix_append' [] _ _), ?_⟩
      rw [Node.operatorsAt, here, elsewhere, List.append_nil]
    · obtain ⟨name, field, front, symbol, spells, inside, here⟩ := behind.stored last late ends
      have elsewhere : first.operatorsAt field = [] := by
        by_contra stored
        obtain ⟨token, early, start⟩ := before.within field stored
        exact apart token early _ (inside.subset List.mem_cons_self) start
      have part : right <:+: left ++ ⟨connective.word, word⟩ :: right :=
        ((List.suffix_cons _ _).trans (List.suffix_append _ _)).isInfix
      refine ⟨name, field, front, symbol, spells, inside.trans part, ?_⟩
      rw [Node.operatorsAt, here, elsewhere, List.nil_append]

end Stores

/-- A literal ends no operator. -/
theorem Scalar.endsOperator_token (scalar : Scalar) :
    scalar.token.kind.endsOperator = false := by
  -- Literals are no operators; the two truth values are words of their own.
  obtain ⟨literal, span⟩ := scalar
  cases literal with
  | boolean value => cases value <;> rfl
  | _ => rfl

/-- Nothing inside a list ends an operator. -/
theorem Listing.endsOperator_tokens (listing : Listing) :
    ∀ token ∈ listing.tokens, token.kind.endsOperator = false := by
  -- Induction on the items: literals and commas alternate.
  cases listing with
  | none => nofun
  | some items =>
    rw [Listing.tokens, Option.map_some, Option.getD_some]
    induction items with
    | last scalar => simp [Items.tokens, scalar.endsOperator_token]
    | more scalar comma rest ih =>
      rw [Items.tokens, List.forall_mem_cons, List.forall_mem_cons]
      exact ⟨scalar.endsOperator_token, rfl, ih⟩

/-- The symbol of a comparison operator's token is the operator's. -/
theorem Comparator.comparisonSymbol?_kind (comparator : Comparator) :
    comparator.kind.comparisonSymbol? = some comparator.symbol := by
  cases comparator <;> rfl

/-- A membership operator ends with its last word. -/
theorem Membership.exists_last (membership : Membership) :
    ∃ front last, membership.tokens = front ++ [last] ∧
      SpellsOperator front last membership.symbol ∧
      ∀ token ∈ front, token.kind.endsOperator = false := by
  -- Of two words the first ends no operator.
  cases membership with
  | isIn word => exact ⟨[], _, rfl, .isIn word, nofun⟩
  | notIn negation word => exact ⟨[_], _, rfl, .notIn negation word, by simp; rfl⟩

/-- What a phrase builds stores the phrase's operators. -/
theorem Phrase.Builds.stores {around : Surroundings}
    (calls : ∀ name span node, around.call name span = .ok node →
      ∀ place ∈ node.spans, place = span)
    {category : Category} {phrase : Phrase category} {place : Span} {node : Node}
    (built : phrase.Builds around place node)
    (ordered : phrase.tokens.Pairwise fun left right => left.span.start < right.span.start) :
    Stores phrase.tokens node := by
  induction built with
  | bare span place flag =>
    -- A field alone has no operator among its tokens, whatever is stored for it.
    refine .comparison List.mem_cons_self fun last member ends => ?_
    obtain rfl := List.mem_singleton.mp member
    cases ends
  | @compare scalar value name span comparator operator place built =>
    refine .comparison List.mem_cons_self fun last member ends => ?_
    -- Neither the name nor the literal ends an operator.
    simp only [Phrase.tokens, List.mem_cons, List.not_mem_nil, or_false] at member
    rcases member with rfl | rfl | rfl
    · cases ends
    · exact ⟨[], .compare comparator.comparisonSymbol?_kind, [], [scalar.token], rfl⟩
    · rw [scalar.endsOperator_token] at ends
      cases ends
  | @member listing items name span membership opening closing place built =>
    obtain ⟨front, last, words, spells, others⟩ := membership.exists_last
    refine .comparison List.mem_cons_self fun token member ends => ?_
    have inside := listing.endsOperator_tokens
    simp only [Phrase.tokens, words, List.cons_append, List.append_assoc, List.mem_cons,
      List.mem_append, List.not_mem_nil, false_or, or_false] at member
    -- Of all tokens only the last word of the operator ends one.
    rcases member with rfl | early | rfl | rfl | item | rfl
    · cases ends
    · rw [others token early] at ends
      cases ends
    · exact ⟨front, spells, [],
        ⟨.openParen, opening⟩ :: listing.tokens ++ [⟨.closeParen, closing⟩],
        by simp [Phrase.tokens, words]⟩
    · cases ends
    · rw [inside token item] at ends
      cases ends
    · cases ends
  | @call name span opening closing node place called =>
    -- Whatever the call stands for is at its own place, which begins with its name.
    have places := calls name _ node called
    simp only [Phrase.tokens, List.pairwise_cons, List.mem_cons, List.not_mem_nil, or_false,
      forall_eq_or_imp, forall_eq] at ordered
    have begins := callTree_start ordered.1.1 ordered.2.1
    refine ⟨fun other stored => ⟨⟨.identifier name, span⟩, List.mem_cons_self, ?_⟩, ?_⟩
    · rw [places other (Node.mem_spans_of_operatorsAt stored)]
      exact begins.symm
    · intro last member ends
      simp only [Phrase.tokens, List.mem_cons, List.not_mem_nil, or_false] at member
      rcases member with rfl | rfl | rfl <;> cases ends
  | @group inside node opening closing place built ih =>
    have within : inside.tokens <:+: (Phrase.group opening inside closing).tokens :=
      ⟨[⟨.openParen, opening⟩], [⟨.closeParen, closing⟩], by simp [Phrase.tokens]⟩
    refine (ih (ordered.sublist within.sublist)).widened within ?_
    intro token member ends
    simp only [Phrase.tokens, List.cons_append, List.mem_cons, List.mem_append, List.not_mem_nil,
      or_false] at member
    rcases member with rfl | among | rfl
    · cases ends
    · exact among
    · cases ends
  | plain place built ih => exact ih ordered
  | @negated operand place inner word built ih =>
    have within : operand.tokens <:+: (Phrase.negated word operand).tokens :=
      (List.suffix_cons _ _).isInfix
    have stores := ih (ordered.sublist within.sublist)
    -- A negation adds a word in front, and no comparison.
    have negated : Stores operand.tokens (.negation inner (some ⟨word.start, place.stop⟩)) :=
      ⟨stores.within, stores.stored⟩
    refine negated.widened within ?_
    intro token member ends
    rcases List.mem_cons.mp member with rfl | among
    · cases ends
    · exact among
  | single place built ih => exact ih ordered
  | @join connective left right place first second word early late ihLeft ihRight =>
    have before : left.tokens <:+: (Phrase.join left word right).tokens :=
      (List.prefix_append _ _).isInfix
    have behind : right.tokens <:+: (Phrase.join left word right).tokens :=
      ((List.suffix_cons _ _).trans (List.suffix_append _ _)).isInfix
    refine (ihLeft (ordered.sublist before.sublist)).joined
      (ihRight (ordered.sublist behind.sublist)) ?_
    -- The tokens of the right side begin behind all of those of the left side.
    intro token member other member'
    have order := (List.pairwise_append.mp ordered).2.2 token member other
      (List.mem_cons_of_mem _ member')
    omega

/-- The AST of a text stores the operators among the tokens of the text. -/
theorem buildRoot_stores {language : Language} {limit : Nat} {text : String} {root : Node}
    (built : buildRoot .standard language limit (parse text) text = .ok root) :
    Stores (tokenize text) root := by
  obtain ⟨query, derives, builds⟩ := exists_builds built
  have order := (scans_tokenize text).pairwise_start
  rw [← derives.1] at order ⊢
  refine builds.stores (fun name span node called => ?_) order
  -- All that a call brings in is at the place of the call.
  have places := @expandAlias_places .standard language limit language.aliases.length [] name
    (Eq span) span rfl
  rw [show expandAlias .standard language limit language.aliases.length [] name span = .ok node
    from called] at places
  intro place member
  exact (places place member).symm

end FilterLang
