import FilterLang.Proofs.Ast.Success
import Mathlib.Data.List.Forall2

/-! What a phrase builds, with every place in it. -/

namespace FilterLang

/-- A literal builds a value at its place. -/
inductive Scalar.Builds : Scalar → Value → Prop where
  | string (raw : String) (span : Span) :
      Builds ⟨.string raw, span⟩ (.string (unquote raw) (some span))
  | number {raw : String} {double : Binary64} (span : Span)
      (finite : readNumberText raw.toList = .ok (.finite double)) :
      Builds ⟨.number raw, span⟩ (.number double raw (some span))
  | boolean (truth : Bool) (span : Span) :
      Builds ⟨.boolean truth, span⟩ (.boolean truth (some span))

/--
A phrase builds an expression, where its node takes up a given place.

Negations end where their node ends and joins begin where it begins. All else is at the places of
the trees below the node.
-/
inductive Phrase.Builds (around : Surroundings) :
    {category : Category} → Phrase category → Span → Node → Prop where
  | bare {name : String} (span place : Span) (flag : around.language.IsFlag name) :
      Builds around (.bare name span) place
        (.comparison ⟨name, some span⟩ "=" (.boolean true (some span))
          (some (Phrase.bare name span).tree.span))
  | compare {scalar : Scalar} {value : Value} (name : String) (span : Span)
      (comparator : Comparator) (operator place : Span) (built : scalar.Builds value) :
      Builds around (.compare name span comparator operator scalar) place
        (.comparison ⟨name, some span⟩ comparator.symbol value
          (some (Phrase.compare name span comparator operator scalar).tree.span))
  | member {listing : Listing} {items : List Value} (name : String) (span : Span)
      (membership : Membership) (opening closing place : Span)
      (built : List.Forall₂ Scalar.Builds listing.scalars items) :
      Builds around (.member name span membership opening listing closing) place
        (.comparison ⟨name, some span⟩ membership.symbol
          (.list items (some (listTree opening listing closing).span))
          (some (Phrase.member name span membership opening listing closing).tree.span))
  | call {name : String} {span opening closing : Span} {node : Node} (place : Span)
      (called : around.call name (Phrase.call name span opening closing).tree.span = .ok node) :
      Builds around (.call name span opening closing) place node
  | group {inside : Phrase (.chain .or)} {node : Node} (opening closing place : Span)
      (built : Builds around inside inside.tree.span node) :
      Builds around (.group opening inside closing) place node
  | plain {operand : Phrase .primary} {node : Node} (place : Span)
      (built : Builds around operand operand.tree.span node) :
      Builds around (.plain operand) place node
  | negated {operand : Phrase .negation} {place : Span} {node : Node} (word : Span)
      (built : Builds around operand place node) :
      Builds around (.negated word operand) place (.negation node (some ⟨word.start, place.stop⟩))
  | single {connective : Connective} {operand : Phrase connective.operand} {node : Node}
      (place : Span) (built : Builds around operand operand.tree.span node) :
      Builds around (.single operand) place node
  | join {connective : Connective} {left : Phrase (.chain connective)}
      {right : Phrase connective.operand} {place : Span} {first second : Node} (word : Span)
      (early : Builds around left place first)
      (late : Builds around right right.tree.span second) :
      Builds around (.join left word right) place
        (.logical connective first second (some ⟨place.start, right.tree.span.stop⟩))

/-- A literal has exactly the value that it builds. -/
theorem Scalar.value_eq_ok_iff {scalar : Scalar} {value : Value} :
    scalar.value = .ok value ↔ scalar.Builds value := by
  -- Only a number can fail to have a value, so it alone is looked up on both sides.
  obtain ⟨literal, span⟩ := scalar
  constructor
  · intro valued
    cases literal with
    | string raw =>
      cases valued
      exact .string raw span
    | number raw =>
      unfold Scalar.value at valued
      dsimp only at valued
      split at valued <;> cases valued
      exact .number span ‹_›
    | boolean truth =>
      cases valued
      exact .boolean truth span
  · intro built
    cases built with
    | string raw span => rfl
    | number span finite => simp [Scalar.value, finite]
    | boolean truth span => rfl

/-- Several literals have exactly the values that they build. -/
theorem mapM_value_eq_ok_iff {scalars : List Scalar} {values : List Value} :
    scalars.mapM Scalar.value = .ok values ↔ List.Forall₂ Scalar.Builds scalars values := by
  -- Induction on the literals; the first failure would end the reading.
  induction scalars generalizing values with
  | nil => simp [pure, Except.pure, eq_comm]
  | cons scalar scalars ih =>
    simp only [List.mapM_cons, bind_eq_ok, Scalar.value_eq_ok_iff, ih,
      List.forall₂_cons_left_iff]
    constructor
    · rintro ⟨first, built, rest, others, same⟩
      cases same
      exact ⟨first, rest, built, others, rfl⟩
    · rintro ⟨first, rest, built, others, rfl⟩
      exact ⟨first, built, rest, others, rfl⟩

/-- A list has exactly the values that its literals build. -/
theorem Listing.valueAt_eq_ok_iff {listing : Listing} {place : Span} {value : Value} :
    listing.valueAt place = .ok value ↔ ∃ items,
      List.Forall₂ Scalar.Builds listing.scalars items ∧ value = .list items (some place) := by
  -- A list is built as soon as its items are, and it is placed as a whole.
  simp only [Listing.valueAt, bind_eq_ok, mapM_value_eq_ok_iff]
  constructor
  · rintro ⟨items, built, same⟩
    cases same
    exact ⟨items, built, rfl⟩
  · rintro ⟨items, built, rfl⟩
    exact ⟨items, built, rfl⟩

/-- The tree of a phrase means only what the phrase builds. -/
theorem Phrase.builds_of_meaning {around : Surroundings} {category : Category}
    (phrase : Phrase category) (legible : Legible around.source phrase.tokens) (place : Span)
    {node : Node}
    (built : meaning around (.node category.nodeKind place phrase.parts) = .ok node) :
    phrase.Builds around place node := by
  -- Induction on the derivation, one production a case. The place is left open: negations and joins
  -- hand their own place on, and only their trees have one of their own.
  induction phrase generalizing place node with
  | bare name span =>
    rw [Category.nodeKind, Phrase.parts, meaning_primary _ _ (by simp), meaning_comparison,
      comparisonNode_bare_placed (legible.spelled _ (List.mem_singleton.mpr rfl))] at built
    split at built
    · -- Only a field of the language that holds truth values may stand alone.
      rename_i found
      cases built
      exact .bare span place ⟨_, found, rfl⟩
    · cases built
  | compare name span comparator operator scalar =>
    rw [Category.nodeKind, Phrase.parts, meaning_primary _ _ (by simp), meaning_comparison,
      comparisonNode_compare_placed legible, bind_eq_ok] at built
    obtain ⟨value, valued, same⟩ := built
    cases same
    exact .compare name span comparator operator place (Scalar.value_eq_ok_iff.mp valued)
  | member name span membership opening listing closing =>
    rw [Category.nodeKind, Phrase.parts, meaning_primary _ _ (by simp), meaning_comparison,
      comparisonNode_member_placed legible, bind_eq_ok] at built
    obtain ⟨value, valued, same⟩ := built
    obtain ⟨items, each, rfl⟩ := Listing.valueAt_eq_ok_iff.mp valued
    cases same
    exact .member name span membership opening closing place each
  | call name span opening closing =>
    rw [Category.nodeKind, Phrase.parts, meaning_primary _ _ (by simp),
      meaning_call _ _ _ (legible.spelled ⟨.identifier name, span⟩ (by simp [Phrase.tokens]))]
      at built
    exact .call place built
  | group opening inside closing ih =>
    -- The tokens of a part are legible because they are a stretch of the whole.
    have within : inside.tokens <:+: (Phrase.group opening inside closing).tokens :=
      ⟨[⟨.openParen, opening⟩], [⟨.closeParen, closing⟩], by simp [Phrase.tokens]⟩
    rw [Category.nodeKind, Phrase.parts, meaning_primary _ _ (by simp), meaning_group,
      inner_eq_node] at built
    exact .group opening closing place (ih (legible.part within) _ built)
  | plain operand ih =>
    rw [Category.nodeKind, Phrase.parts, meaning_plain, inner_eq_node] at built
    exact .plain place (ih legible _ built)
  | negated word operand ih =>
    have within : operand.tokens <:+: (Phrase.negated word operand).tokens :=
      (List.suffix_cons _ _).isInfix
    rw [Category.nodeKind, Phrase.parts, meaning_negated, bind_eq_ok] at built
    obtain ⟨inner, done, same⟩ := built
    cases same
    exact .negated word (ih (legible.part within) place done)
  | single operand ih =>
    rw [meaning_single, Phrase.tree, inner_eq_node] at built
    exact .single place (ih legible _ built)
  | join left word right ihLeft ihRight =>
    have before : left.tokens <:+: (Phrase.join left word right).tokens :=
      (List.prefix_append _ _).isInfix
    have behind : right.tokens <:+: (Phrase.join left word right).tokens :=
      ((List.suffix_cons _ _).trans (List.suffix_append _ _)).isInfix
    simp only [meaning_join, bind_eq_ok] at built
    obtain ⟨first, early, second, late, same⟩ := built
    cases same
    rw [Phrase.tree, inner_eq_node] at late
    exact .join word (ihLeft (legible.part before) place early)
      (ihRight (legible.part behind) _ late)

/-- The AST of a text is built by the query that derives the text. -/
theorem exists_builds {language : Language} {limit : Nat} {text : String} {root : Node}
    (built : buildRoot .standard language limit (parse text) text = .ok root) :
    ∃ query : Query, query.Derives text ∧
      query.Builds (querySurroundings language limit text) query.tree.span root := by
  -- A tree that builds is the tree of a derivation, and the derivation builds what the tree means.
  obtain ⟨distinct, readable⟩ := buildRoot_ok built
  obtain ⟨query, derives, means⟩ := exists_meaning language limit distinct readable
  exact ⟨query, derives, query.builds_of_meaning derives.legible _ (means ▸ built)⟩

end FilterLang
