import FilterLang.Proofs.Ast.Builds
import FilterLang.Proofs.Compile.Pointing
import FilterLang.Proofs.Compile.Reading
import FilterLang.Proofs.Grammar.Hole
import FilterLang.Proofs.Text.Quoted

/-! The places in an AST are faithful to the query. -/

namespace FilterLang

/-- A span lies within another. -/
def Span.Within (inner outer : Span) : Prop :=
  outer.start ≤ inner.start ∧ inner.stop ≤ outer.stop

/-- A span within a span lies within all that the other lies within. -/
theorem Span.Within.trans {inner middle outer : Span} (first : inner.Within middle)
    (second : middle.Within outer) : inner.Within outer :=
  ⟨Nat.le_trans second.1 first.1, Nat.le_trans first.2 second.2⟩

/-- A span lies within itself. -/
theorem Span.Within.refl (span : Span) : span.Within span :=
  ⟨Nat.le_refl _, Nat.le_refl _⟩

namespace Item

/-- The places of what an item directly holds. -/
def held : Item → List (Option Span)
  | .node (.comparison field _ literal _) => [field.span, literal.span]
  | .node (.logical _ left right _) => [left.span, right.span]
  | .node (.negation expression _) => [expression.span]
  | .value (.list items _) => items.map Value.span
  | .value _ => []

/-- The place of an item, and the places of what it directly holds. -/
def places (item : Item) : List (Option Span) :=
  item.span :: item.held

@[simp] theorem places_comparison (field : FieldRef) (operator : String) (literal : Value)
    (span : Option Span) :
    places (.node (.comparison field operator literal span)) =
      [span, field.span, literal.span] := rfl

@[simp] theorem places_logical (operator : Connective) (left right : Node) (span : Option Span) :
    places (.node (.logical operator left right span)) = [span, left.span, right.span] := rfl

@[simp] theorem places_negation (expression : Node) (span : Option Span) :
    places (.node (.negation expression span)) = [span, expression.span] := rfl

@[simp] theorem places_list (items : List Value) (span : Option Span) :
    places (.value (.list items span)) = span :: items.map Value.span := rfl

/-- An item has a place, and all that it holds has places within that one. -/
def Nests (item : Item) : Prop :=
  ∃ span, item.span = some span ∧ ∀ place ∈ item.held, ∃ inner, place = some inner ∧
    inner.Within span

/-- A name or a literal is what stands at its place in a text. -/
def ShownIn (source : List Char) : Item → Prop
  | .node (.comparison field _ _ _) => ∃ span, field.span = some span ∧
      sliceBytes span.start span.stop source = some field.name.toList
  | .value (.string text place) => ∃ span raw, place = some span ∧
      sliceBytes span.start span.stop source = some raw.toList ∧ Quoted raw text ∧
      unquote raw = text
  | .value (.number _ raw place) => ∃ span, place = some span ∧
      sliceBytes span.start span.stop source = some raw.toList
  -- Truth values need not be written, and all else is made of parts.
  | _ => True

end Item

/-- A value that was put at a place is there. -/
@[simp] theorem Value.span_relocate (place : Option Span) (value : Value) :
    (value.relocate place).span = place := by
  cases value <;> rfl

/-- An expression that was put at a place is there. -/
@[simp] theorem Node.span_relocate (place : Option Span) (node : Node) :
    (node.relocate place).span = place := by
  cases node <;> rfl

section Walks

variable {place : Option Span}

mutual

/-- All parts of a value that was put at a place are there. -/
theorem Value.places_relocate : ∀ (value : Value) (depth : Nat),
    ∀ entry ∈ (value.relocate place).walk depth, ∀ other ∈ entry.2.places, other = place
  -- Mutual recursion with the lists of values; every part takes the new place.
  | .string _ _, _ | .number _ _ _, _ | .boolean _ _, _ => by
    simp [Value.relocate, Value.walk, Item.places, Item.held, Item.span, Value.span]
  | .list items span, depth => by
    have inside := Value.places_relocateAll items (depth + 1)
    rw [Value.relocate, Value.walk, List.forall_mem_cons]
    exact ⟨by simp [Value.relocateAll_eq_map], inside⟩

/-- All parts of values that were put at a place are there. -/
theorem Value.places_relocateAll : ∀ (values : List Value) (depth : Nat),
    ∀ entry ∈ Value.walkAll depth (Value.relocateAll place values),
      ∀ other ∈ entry.2.places, other = place
  | [], _ => by simp [Value.relocateAll, Value.walkAll]
  | value :: values, depth => by
    rw [Value.relocateAll, Value.walkAll, List.forall_mem_append]
    exact ⟨Value.places_relocate value depth, Value.places_relocateAll values depth⟩

end

/-- All parts of an expression that was put at a place are there. -/
theorem Node.places_relocate (node : Node) (depth : Nat) :
    ∀ entry ∈ (node.relocate place).walk depth, ∀ other ∈ entry.2.places, other = place := by
  -- Induction on the expression. The walk meets each part one level below, with the same place.
  induction node generalizing depth with
  | comparison field operator value span =>
    rw [Node.relocate, Node.walk, List.forall_mem_cons]
    exact ⟨by simp, Value.places_relocate value (depth + 1)⟩
  | logical operator left right span ihLeft ihRight =>
    rw [Node.relocate, Node.walk, List.forall_mem_cons, List.forall_mem_append]
    exact ⟨by simp, ihLeft (depth + 1), ihRight (depth + 1)⟩
  | negation expression span ih =>
    rw [Node.relocate, Node.walk, List.forall_mem_cons]
    exact ⟨by simp, ih (depth + 1)⟩

/-- An item all of whose places are one has what it holds within its own. -/
theorem Item.nests_of_places {item : Item} {span : Span}
    (same : ∀ other ∈ item.places, other = some span) : item.Nests := by
  -- A span lies within itself.
  obtain ⟨own, held⟩ := List.forall_mem_cons.mp same
  exact ⟨span, own, fun other member => ⟨span, held other member, .refl span⟩⟩

/-- A value's own place is recorded in it. -/
theorem Value.mem_spans {value : Value} {span : Span} (own : value.span = some span) :
    span ∈ value.spans := by
  cases value <;> simp_all [Value.span, Value.spans]

/-- An expression's own place is recorded in it. -/
theorem Node.mem_spans {node : Node} {span : Span} (own : node.span = some span) :
    span ∈ node.spans := by
  cases node <;> simp_all [Node.span, Node.spans]

mutual

/-- The places that a walk over a value meets are recorded in the value. -/
theorem Value.mem_spans_of_walk (span : Span) : ∀ (value : Value) (depth : Nat),
    ∀ entry ∈ value.walk depth, some span ∈ entry.2.places → span ∈ value.spans
  -- Mutual recursion with the lists of values: a place is the value's own or that of an item.
  | .string _ _, _ | .number _ _ _, _ | .boolean _ _, _ => by
    simp [Value.walk, Item.places, Item.held, Item.span, Value.span, Value.spans, eq_comm]
  | .list items place, depth => by
    have inside := Value.mem_spans_of_walkAll span items (depth + 1)
    rw [Value.walk, List.forall_mem_cons, Value.spans, List.mem_append]
    refine ⟨fun here => ?_, fun entry member here => .inr (inside entry member here)⟩
    rcases List.mem_cons.mp here with own | held
    · exact .inl (Option.mem_toList.mpr own.symm)
    · obtain ⟨item, member, same⟩ := List.mem_map.mp held
      rw [Value.spansOfAll_eq]
      exact .inr (List.mem_flatMap.mpr ⟨item, member, Value.mem_spans same⟩)

/-- The places that a walk over values meets are recorded in the values. -/
theorem Value.mem_spans_of_walkAll (span : Span) : ∀ (values : List Value) (depth : Nat),
    ∀ entry ∈ Value.walkAll depth values, some span ∈ entry.2.places →
      span ∈ Value.spansOfAll values
  | [], _ => by simp [Value.walkAll]
  | value :: values, depth => by
    rw [Value.walkAll, List.forall_mem_append, Value.spansOfAll]
    exact ⟨fun entry member here =>
        List.mem_append_left _ (Value.mem_spans_of_walk span value depth entry member here),
      fun entry member here =>
        List.mem_append_right _ (Value.mem_spans_of_walkAll span values depth entry member here)⟩

end

/-- The places that a walk over an expression meets are recorded in the expression. -/
theorem Node.mem_spans_of_walk {span : Span} (node : Node) (depth : Nat) :
    ∀ entry ∈ node.walk depth, some span ∈ entry.2.places → span ∈ node.spans := by
  -- Induction on the expression: a place is the node's own, that of a part, or further down.
  induction node generalizing depth with
  | comparison field operator value place =>
    rw [Node.walk, List.forall_mem_cons, Node.spans]
    refine ⟨fun here => ?_, fun entry member here =>
      List.mem_append_right _ (value.mem_spans_of_walk span (depth + 1) entry member here)⟩
    simp only [Item.places_comparison, List.mem_cons, List.not_mem_nil, or_false] at here
    rcases here with own | named | held
    · simp [← own]
    · simp [← named]
    · exact List.mem_append_right _ (Value.mem_spans held.symm)
  | logical operator left right place ihLeft ihRight =>
    rw [Node.walk, List.forall_mem_cons, List.forall_mem_append, Node.spans]
    simp only [List.mem_append]
    refine ⟨fun here => ?_, fun entry member here => .inr (.inl (ihLeft _ entry member here)),
      fun entry member here => .inr (.inr (ihRight _ entry member here))⟩
    simp only [Item.places_logical, List.mem_cons, List.not_mem_nil, or_false] at here
    rcases here with own | first | second
    · exact .inl (Option.mem_toList.mpr own.symm)
    · exact .inr (.inl (Node.mem_spans first.symm))
    · exact .inr (.inr (Node.mem_spans second.symm))
  | negation expression place ih =>
    rw [Node.walk, List.forall_mem_cons, Node.spans]
    simp only [List.mem_append]
    refine ⟨fun here => ?_, fun entry member here => .inr (ih _ entry member here)⟩
    simp only [Item.places_negation, List.mem_cons, List.not_mem_nil, or_false] at here
    rcases here with own | held
    · exact .inl (Option.mem_toList.mpr own.symm)
    · exact .inr (Node.mem_spans held.symm)

end Walks

/-- Trees in order between the ends of a span lie within it. -/
theorem Successive.within {outer : Span} {trees : List Tree}
    (apart : Successive outer.start trees outer.stop) {tree : Tree} (member : tree ∈ trees) :
    tree.span.Within outer := by
  -- Trees in succession lie between the bounds of the whole.
  obtain ⟨begins, -, ends⟩ := apart.bounds tree member
  exact ⟨begins, ends⟩

/-- Below an inner node among tidy trees, all is tidy and in order. -/
theorem tidy_below {trees children : List Tree} {kind : NodeKind}
    (tidy : ∀ sub ∈ trees.flatMap Tree.subtrees, sub.IsTidy)
    (member : inner kind children ∈ trees) :
    Successive (inner kind children).span.start children (inner kind children).span.stop ∧
      ∀ sub ∈ children.flatMap Tree.subtrees, sub.IsTidy := by
  -- Tidiness of all that stands under one of the trees holds under that tree.
  have under : ∀ sub ∈ [inner kind children].flatMap Tree.subtrees, sub.IsTidy := by
    intro sub inside
    rw [List.flatMap_singleton] at inside
    exact tidy sub (List.mem_flatMap.mpr ⟨_, member, inside⟩)
  obtain ⟨whole, below⟩ := forall_subtrees_inner.mp under
  exact ⟨successive_of_isTidy whole, below⟩

namespace Scalar.Builds

variable {scalar : Scalar} {value : Value}

/-- What a literal builds is at the literal. -/
theorem span_eq (built : scalar.Builds value) : value.span = some scalar.span := by
  cases built <;> rfl

/-- What a literal builds has no parts. -/
theorem walk_eq (built : scalar.Builds value) (depth : Nat) :
    value.walk depth = [(depth, .value value)] := by
  cases built <;> rfl

/-- What a literal builds has a place. -/
theorem nests (built : scalar.Builds value) (depth : Nat) :
    ∀ entry ∈ value.walk depth, entry.2.Nests := by
  -- A scalar holds nothing, so only its own place is in question.
  rw [built.walk_eq, List.forall_mem_singleton]
  refine ⟨scalar.span, built.span_eq, ?_⟩
  cases built <;> nofun

end Scalar.Builds

/-- Whether a node lies within a place and every part of it within the part that holds it. -/
def Node.NestsIn (node : Node) (place : Span) : Prop :=
  (∃ span, node.span = some span ∧ span.Within place) ∧
    ∀ depth, ∀ entry ∈ node.walk depth, entry.2.Nests

namespace Node.NestsIn

variable {place whole : Span}

/-- What is in place somewhere is in place in all that lies around. -/
theorem widen {node : Node} (nests : node.NestsIn whole) (within : whole.Within place) :
    node.NestsIn place := by
  -- Only the node itself is measured against the place.
  obtain ⟨⟨span, same, closer⟩, deeper⟩ := nests
  exact ⟨⟨span, same, closer.trans within⟩, deeper⟩

/-- A comparison is in place if its field and its value are. -/
theorem comparison {name operator : String} {value : Value} {named inner : Span}
    (within : whole.Within place) (first : named.Within whole) (held : value.span = some inner)
    (last : inner.Within whole) (inside : ∀ depth, ∀ entry ∈ value.walk depth, entry.2.Nests) :
    (Node.comparison ⟨name, some named⟩ operator value (some whole)).NestsIn place := by
  refine ⟨⟨whole, rfl, within⟩, fun depth => ?_⟩
  -- The walk goes over the comparison itself, which holds the field, and then over the value.
  rw [Node.walk, List.forall_mem_cons]
  refine ⟨⟨whole, rfl, ?_⟩, inside (depth + 1)⟩
  simp [Item.held, held, first, last]

/-- A negation is in place if what it negates is. -/
theorem negation {inner : Node} (within : whole.Within place) (nests : inner.NestsIn whole) :
    (Node.negation inner (some whole)).NestsIn place := by
  obtain ⟨⟨span, same, closer⟩, deeper⟩ := nests
  refine ⟨⟨whole, rfl, within⟩, fun depth => ?_⟩
  -- The walk goes over the negation itself and then over what it negates, one level deeper.
  rw [Node.walk, List.forall_mem_cons]
  refine ⟨⟨whole, rfl, ?_⟩, deeper (depth + 1)⟩
  simp [Item.held, same, closer]

/-- A connection is in place if both of its sides are. -/
theorem logical {connective : Connective} {left right : Node} (within : whole.Within place)
    (first : left.NestsIn whole) (second : right.NestsIn whole) :
    (Node.logical connective left right (some whole)).NestsIn place := by
  obtain ⟨⟨span, same, closer⟩, deeper⟩ := first
  obtain ⟨⟨span', same', closer'⟩, deeper'⟩ := second
  refine ⟨⟨whole, rfl, within⟩, fun depth => ?_⟩
  -- The walk goes over the connection itself and then over both sides, one level deeper.
  rw [Node.walk, List.forall_mem_cons, List.forall_mem_append]
  refine ⟨⟨whole, rfl, ?_⟩, deeper (depth + 1), deeper' (depth + 1)⟩
  simp [Item.held, same, same', closer, closer']

end Node.NestsIn

namespace Phrase.Builds

variable {around : Surroundings} {place : Span}

/-- An operand under negations does not depend on where its node begins. -/
theorem restart : ∀ {operand : Phrase .negation} {node : Node},
    operand.Builds around place node → ∀ other : Span, place.stop = other.stop →
      operand.Builds around other node
  -- Only the end of the node's place is used, by each negation in turn.
  | _, _, .plain _ built, _, _ => .plain _ built
  | _, _, .negated word built, other, same => by
    rw [same]
    exact .negated word (restart built other same)

/-- A chain does not depend on where its node ends. -/
theorem restop : ∀ {connective : Connective} {chain : Phrase (.chain connective)} {node : Node},
    chain.Builds around place node → ∀ other : Span, place.start = other.start →
      chain.Builds around other node
  -- Only the start of the chain's place is used, by each join in turn.
  | _, _, _, .single _ built, _, _ => .single _ built
  | _, _, _, .join word early late, other, same => by
    rw [same]
    exact .join word (restop early other same) late

/-- What several literals build is at the literals. -/
theorem nests_items {scalars : List Scalar} {items : List Value}
    (each : List.Forall₂ Scalar.Builds scalars items) (depth : Nat) :
    (∀ entry ∈ Value.walkAll depth items, entry.2.Nests) ∧
      ∀ item ∈ items, ∃ scalar ∈ scalars, item.span = some scalar.span := by
  -- Induction along the literals: each item has the span of its own literal.
  induction each with
  | nil => exact ⟨nofun, nofun⟩
  | @cons scalar item scalars items built others ih =>
    rw [Value.walkAll, List.forall_mem_append, List.forall_mem_cons]
    refine ⟨⟨built.nests depth, ih.1⟩, ⟨scalar, by simp, built.span_eq⟩, fun later member => ?_⟩
    obtain ⟨scalar, among, same⟩ := ih.2 later member
    exact ⟨scalar, List.mem_cons_of_mem _ among, same⟩

/-- The items of a list are in place if the trees of the list are. -/
theorem nests_list {opening closing : Span} {listing : Listing} {items : List Value}
    (each : List.Forall₂ Scalar.Builds listing.scalars items)
    (apart : Successive (listTree opening listing closing).span.start
      (.leaf .openParen opening :: listing.trees ++ [.leaf .closeParen closing])
      (listTree opening listing closing).span.stop) (depth : Nat) :
    ∀ entry ∈ (Value.list items (some (listTree opening listing closing).span)).walk depth,
      entry.2.Nests := by
  obtain ⟨inside, placed⟩ := nests_items each (depth + 1)
  rw [Value.walk, List.forall_mem_cons]
  refine ⟨⟨_, rfl, fun place held => ?_⟩, inside⟩
  obtain ⟨item, member, rfl⟩ := List.mem_map.mp held
  obtain ⟨scalar, among, same⟩ := placed item member
  -- The item was built of one of the trees between the parentheses.
  have tree : scalar.itemTree ∈ listing.trees := by
    have kept := List.mem_map_of_mem (f := Scalar.itemTree) among
    rw [← listing.filter_trees] at kept
    exact List.mem_of_mem_filter kept
  refine ⟨scalar.span, same, ?_⟩
  show scalar.itemTree.span.Within _
  exact apart.within (by simp [tree])

end Phrase.Builds

/-- Whether a phrase builds what lies within its node, wherever its trees stand in order. -/
def Phrase.BuildsWithin (around : Surroundings) {category : Category} (phrase : Phrase category) :
    Prop :=
  ∀ {place : Span} {node : Node}, phrase.Builds around place node →
    (∀ sub ∈ phrase.parts.flatMap Tree.subtrees, sub.IsTidy) →
    Successive place.start phrase.parts place.stop → node.NestsIn place

namespace Phrase.BuildsWithin

variable {around : Surroundings}

/-- A field alone stands for a comparison at the field. -/
theorem bare (name : String) (span : Span) : (Phrase.bare name span).BuildsWithin around := by
  -- The value that goes without saying is placed at the field as well.
  intro place node built tidy apart
  cases built with
  | bare _ _ flag =>
    have whole := apart.within List.mem_cons_self
    refine .comparison whole (.refl _) rfl (.refl _) fun depth => ?_
    exact (Scalar.Builds.boolean true span).nests depth

/-- A comparison holds the trees of its field and its literal. -/
theorem compare (name : String) (span : Span) (comparator : Comparator) (operator : Span)
    (value : Scalar) :
    (Phrase.compare name span comparator operator value).BuildsWithin around := by
  -- Field and literal are both children of the comparison's node.
  intro place node built tidy apart
  cases built with
  | compare _ _ _ _ _ valued =>
    have whole := apart.within List.mem_cons_self
    have parts := (tidy_below tidy List.mem_cons_self).1
    refine .comparison whole ?_ valued.span_eq ?_ valued.nests
    · exact parts.within List.mem_cons_self
    · show value.tree.span.Within _
      exact parts.within (by simp)

/-- A look-up holds the trees of its field and its list. -/
theorem member (name : String) (span : Span) (membership : Membership) (opening : Span)
    (listing : Listing) (closing : Span) :
    (Phrase.member name span membership opening listing closing).BuildsWithin around := by
  -- Field and list are both children of the comparison's node.
  intro place node built tidy apart
  cases built with
  | member _ _ _ _ _ _ each =>
    have whole := apart.within List.mem_cons_self
    obtain ⟨parts, below⟩ := tidy_below tidy List.mem_cons_self
    refine .comparison whole ?_ rfl ?_ fun depth => ?_
    · exact parts.within List.mem_cons_self
    · exact parts.within (by simp)
    · -- The list's own children bound its items.
      exact Builds.nests_list each (tidy_below below (by simp [listTree])).1 depth

/-- A call is at its own tree, whatever it stands for. -/
theorem call
    (calls : ∀ name span node, around.call name span = .ok node →
      ∃ inner : Node, node = inner.relocate (some span))
    (name : String) (span opening closing : Span) :
    (Phrase.call name span opening closing).BuildsWithin around := by
  intro place node built tidy apart
  cases built with
  | call _ called =>
    have whole := apart.within List.mem_cons_self
    obtain ⟨inner, rfl⟩ := calls name _ _ called
    -- Every part of the expansion has been moved to one and the same span.
    refine ⟨⟨_, Node.span_relocate _ _, whole⟩, fun depth entry member => ?_⟩
    exact Item.nests_of_places (Node.places_relocate inner depth entry member)

/-- A group builds what the chain inside of it builds. -/
theorem group (opening : Span) {inside : Phrase (.chain .or)} (closing : Span)
    (within : inside.BuildsWithin around) :
    (Phrase.group opening inside closing).BuildsWithin around := by
  intro place node built tidy apart
  cases built with
  | group _ _ _ built =>
    have whole := apart.within List.mem_cons_self
    obtain ⟨parts, below⟩ := tidy_below tidy List.mem_cons_self
    -- Two more nodes stand between the parentheses and the chain inside of them.
    obtain ⟨middle, below⟩ := tidy_below below (List.mem_cons_of_mem _ List.mem_cons_self)
    obtain ⟨deepest, below⟩ := tidy_below below List.mem_cons_self
    have outer := (middle.within List.mem_cons_self).trans (parts.within (by simp))
    exact (within built below deepest).widen (outer.trans whole)

/-- An operand without a negation builds what the operand builds. -/
theorem plain {operand : Phrase .primary} (within : operand.BuildsWithin around) :
    (Phrase.plain operand).BuildsWithin around := by
  -- The operand's node is the only child.
  intro place node built tidy apart
  cases built with
  | plain _ built =>
    obtain ⟨parts, below⟩ := tidy_below tidy List.mem_cons_self
    exact (within built below parts).widen (apart.within List.mem_cons_self)

/-- A negation reaches from its word to the end of the node. -/
theorem negated (word : Span) {operand : Phrase .negation} (within : operand.BuildsWithin around) :
    (Phrase.negated word operand).BuildsWithin around := by
  intro place node built tidy apart
  cases built with
  | @negated _ _ inner _ built =>
    obtain ⟨begins, across, behind⟩ := apart
    have below : ∀ sub ∈ operand.parts.flatMap Tree.subtrees, sub.IsTidy :=
      fun sub member => tidy sub (List.mem_append_right _ member)
    -- The operand lies between the word and the end of the node.
    have closer : operand.Builds around ⟨word.start, place.stop⟩ inner :=
      built.restart ⟨word.start, place.stop⟩ rfl
    exact .negation ⟨begins, Nat.le_refl _⟩ (within closer below (behind.weaken across))

/-- A chain of one operand builds what the operand builds. -/
theorem single {connective : Connective} {operand : Phrase connective.operand}
    (within : operand.BuildsWithin around) :
    (Phrase.single operand).BuildsWithin around := by
  -- The operand's node is the only child.
  intro place node built tidy apart
  cases built with
  | single _ built =>
    obtain ⟨parts, below⟩ := tidy_below tidy List.mem_cons_self
    exact (within built below parts).widen (apart.within List.mem_cons_self)

/-- A connection reaches from the start of its chain to the end of its right side. -/
theorem join {connective : Connective} {left : Phrase (.chain connective)} (word : Span)
    {right : Phrase connective.operand} (early : left.BuildsWithin around)
    (late : right.BuildsWithin around) : (Phrase.join left word right).BuildsWithin around := by
  intro place node built tidy apart
  cases built with
  | @join _ _ _ _ first second _ former latter =>
    obtain ⟨middle, before, marked, across, begins, filled, ends⟩ := apart.split
    obtain ⟨parts, below⟩ := tidy_below tidy
      (List.mem_append_right _ (List.mem_cons_of_mem _ List.mem_cons_self))
    have others : ∀ sub ∈ left.parts.flatMap Tree.subtrees, sub.IsTidy := by
      intro sub member
      refine tidy sub ?_
      rw [Phrase.parts, List.flatMap_append]
      exact List.mem_append_left _ member
    -- The left side ends before the word, so the join's own end is far enough for it.
    have closer : left.Builds around ⟨place.start, right.tree.span.stop⟩ first :=
      former.restop ⟨place.start, right.tree.span.stop⟩ rfl
    have start := before.le
    have reach : middle ≤ right.tree.span.start := by
      rw [Phrase.tree]
      omega
    have wide : right.tree.span.Within ⟨place.start, right.tree.span.stop⟩ :=
      ⟨Nat.le_trans start reach, Nat.le_refl _⟩
    refine .logical ⟨Nat.le_refl _, ends⟩ ?_ ((late latter below parts).widen wide)
    exact early closer others (before.widen (Nat.le_trans reach filled))

end Phrase.BuildsWithin

/--
What a phrase builds lies within the phrase's node, and its parts within each other.

The calls are at their own trees, whatever they stand for.
-/
theorem Phrase.buildsWithin {around : Surroundings}
    (calls : ∀ name span node, around.call name span = .ok node →
      ∃ inner : Node, node = inner.relocate (some span))
    {category : Category} (phrase : Phrase category) : phrase.BuildsWithin around := by
  -- One lemma for each production.
  induction phrase with
  | bare name span => exact BuildsWithin.bare name span
  | compare name span comparator operator value =>
    exact BuildsWithin.compare name span comparator operator value
  | member name span membership opening listing closing =>
    exact BuildsWithin.member name span membership opening listing closing
  | call name span opening closing => exact BuildsWithin.call calls name span opening closing
  | group opening inside closing within => exact BuildsWithin.group opening closing within
  | plain operand within => exact BuildsWithin.plain within
  | negated word operand within => exact BuildsWithin.negated word within
  | single operand within => exact BuildsWithin.single within
  | join left word right early late => exact BuildsWithin.join word early late

/-- A token that keeps its text has the text at its place. -/
theorem Token.SpelledIn.slice {source : List Char} {token : Token}
    (spelled : token.SpelledIn source) {raw : String} (kept : token.kind.raw? = some raw) :
    sliceBytes token.span.start token.span.stop source = some raw.toList := by
  -- Tokens that keep their text are the text.
  obtain ⟨cs, slice, spells⟩ := spelled
  rw [slice, spells.1 raw kept]

section Shown

variable {source : List Char}

/-- What a literal builds is what stands at the literal. -/
theorem Scalar.Builds.shown {scalar : Scalar} {value : Value} (built : scalar.Builds value)
    (spelled : scalar.token.SpelledIn source) (quoted : scalar.token.WellQuoted) (depth : Nat) :
    ∀ entry ∈ value.walk depth, entry.2.ShownIn source := by
  -- A string stands in its quotes and a number as it is; truth values may go without saying.
  rw [built.walk_eq, List.forall_mem_singleton]
  cases built with
  | string raw span =>
    obtain ⟨text, stands⟩ := quoted raw rfl
    rw [stands.unquote_eq]
    exact ⟨span, raw, rfl, spelled.slice rfl, stands, stands.unquote_eq⟩
  | number span finite => exact ⟨span, rfl, spelled.slice rfl⟩
  | boolean truth span => trivial

/-- What several literals build is what stands at them. -/
theorem shown_items {scalars : List Scalar} {items : List Value}
    (each : List.Forall₂ Scalar.Builds scalars items)
    (sound : ∀ scalar ∈ scalars, scalar.token.SpelledIn source ∧ scalar.token.WellQuoted)
    (depth : Nat) : ∀ entry ∈ Value.walkAll depth items, entry.2.ShownIn source := by
  -- Induction along the literals; each item is read from its own token.
  induction each with
  | nil => nofun
  | cons built others ih =>
    rw [List.forall_mem_cons] at sound
    rw [Value.walkAll, List.forall_mem_append]
    exact ⟨built.shown sound.1.1 sound.1.2 depth, ih sound.2⟩

/-- Without calls, what a phrase builds is made of what stands at the tokens of the phrase. -/
theorem Phrase.Builds.shown {around : Surroundings} {category : Category}
    {phrase : Phrase category} {place : Span} {node : Node}
    (built : phrase.Builds around place node)
    (sound : ∀ token ∈ phrase.tokens, token.SpelledIn source ∧ token.WellQuoted)
    (uncalled : phrase.parts.flatMap Tree.calls = []) (depth : Nat) :
    ∀ entry ∈ node.walk depth, entry.2.ShownIn source := by
  induction built generalizing depth with
  | @bare name span place flag =>
    have named := (sound ⟨.identifier name, span⟩ List.mem_cons_self).1
    rw [Node.walk, List.forall_mem_cons]
    exact ⟨⟨span, rfl, named.slice rfl⟩, by simp [Value.walk, Item.ShownIn]⟩
  | @compare scalar value name span comparator operator place built =>
    have named := (sound ⟨.identifier name, span⟩ List.mem_cons_self).1
    have literal := sound scalar.token (by simp [Phrase.tokens])
    rw [Node.walk, List.forall_mem_cons]
    exact ⟨⟨span, rfl, named.slice rfl⟩, built.shown literal.1 literal.2 _⟩
  | @member listing items name span membership opening closing place each =>
    have named := (sound ⟨.identifier name, span⟩ List.mem_cons_self).1
    have literals : ∀ scalar ∈ listing.scalars,
        scalar.token.SpelledIn source ∧ scalar.token.WellQuoted :=
      fun scalar member => sound scalar.token (by simp [Phrase.tokens, Listing.token_mem member])
    rw [Node.walk, List.forall_mem_cons, Value.walk, List.forall_mem_cons]
    exact ⟨⟨span, rfl, named.slice rfl⟩, trivial, shown_items each literals _⟩
  | @call name span opening closing node place called =>
    -- The tree of a call is a call itself.
    have single : [callTree span opening closing].flatMap Tree.calls = [] := uncalled
    simp at single
  | group opening closing place built ih =>
    refine ih (fun token member => sound token ?_) (by simpa [Phrase.parts] using uncalled) depth
    simp [Phrase.tokens, member]
  | plain place built ih => exact ih sound (by simpa [Phrase.parts] using uncalled) depth
  | negated word built ih =>
    rw [Node.walk, List.forall_mem_cons]
    refine ⟨trivial, ih (fun token member => sound token ?_) ?_ _⟩
    · exact List.mem_cons_of_mem _ member
    · simpa [Phrase.parts] using uncalled
  | single place built ih =>
    exact ih sound (by simpa [Phrase.parts] using uncalled) depth
  | @join connective left right place first second word early late ihLeft ihRight =>
    have sides : (∀ tree ∈ left.parts, tree.calls = []) ∧
        ∀ tree ∈ right.parts, tree.calls = [] := by
      simpa [Phrase.parts] using uncalled
    rw [Node.walk, List.forall_mem_cons, List.forall_mem_append]
    refine ⟨trivial, ihLeft (fun token member => sound token ?_) ?_ _,
      ihRight (fun token member => sound token ?_) ?_ _⟩
    · simp [Phrase.tokens, member]
    · simpa using sides.1
    · simp [Phrase.tokens, member]
    · simpa using sides.2

end Shown

/-- The calls in a readable text are those of the query that derives it. -/
theorem calls_of_derives {query : Query} {text : String} (derives : query.Derives text) :
    (parse text).calls = query.parts.flatMap Tree.calls := by
  -- The nodes above the chain are no calls and have no other child.
  rw [parse_of_derives derives]
  simp [Phrase.tree]

/--
The places in an AST are faithful to the query.

Every part of the AST has a place, which is a range of the text with both ends between characters.
What a part holds lies within its own place. If the query calls no alias, its names and literals are
what stands in the text at their places.
-/
theorem buildRoot_faithful (language : Language) (limit : Nat) (text : String) {root : Node}
    (built : buildRoot .standard language limit (parse text) text = .ok root) :
    (∀ entry ∈ root.items, ∃ span, entry.2.span = some span ∧ PointsInto text span ∧
      ∀ place ∈ entry.2.held, ∃ inner, place = some inner ∧ PointsInto text inner ∧
        inner.Within span) ∧
    ((parse text).calls = [] → ∀ entry ∈ root.items, entry.2.ShownIn text.toList) := by
  obtain ⟨query, derives, builds⟩ := exists_builds built
  constructor
  · -- The tree of the text is tidy, and so is the part of it below the query's own node.
    have tidy : ∀ sub ∈ [inner .expression [query.tree]].flatMap Tree.subtrees, sub.IsTidy := by
      have whole := parse_isTidy text
      rw [parse_of_derives derives, Tree.subtrees_node, List.forall_mem_cons] at whole
      exact whole.2
    obtain ⟨-, below⟩ := tidy_below tidy List.mem_cons_self
    obtain ⟨parts, below⟩ := tidy_below below List.mem_cons_self
    have relocated : ∀ name span node,
        (querySurroundings language limit text).call name span = .ok node →
          ∃ inner : Node, node = inner.relocate (some span) := by
      intro name span node called
      obtain ⟨-, -, inner, -, -, -, same⟩ := expandAlias_ok called
      exact ⟨inner, same⟩
    have nested := (query.buildsWithin relocated builds below parts).2 1
    have pointed := buildRoot_builtInto language limit text
    rw [built] at pointed
    intro entry member
    have recorded : ∀ span, some span ∈ entry.2.places → PointsInto text span :=
      fun span here => pointed span (root.mem_spans_of_walk 1 entry member here)
    obtain ⟨span, own, held⟩ := nested entry member
    refine ⟨span, own, recorded span (List.mem_cons.mpr (.inl own.symm)), fun place here => ?_⟩
    obtain ⟨inner, rfl, within⟩ := held place here
    exact ⟨inner, rfl, recorded inner (List.mem_cons_of_mem _ here), within⟩
  · intro uncalled
    have quoted := (scans_tokenize text).wellQuoted
    have spelled := (legible_tokenize text).spelled
    rw [← derives.1] at quoted spelled
    refine builds.shown (fun token member => ⟨spelled token member, quoted token member⟩) ?_ 1
    rwa [calls_of_derives derives] at uncalled

/-- A query with a negated group, a field that stands alone, an escape and a list. -/
def issueQuery : String :=
  "NOT (owner != \"é\\\"\" OR archived) AND level not IN (1, -2.5)"

/-- The query has an AST of eleven parts that are all in place and as they stand in the query. -/
theorem issueQuery_faithful : ∃ root,
    buildRoot .standard issueLanguage 8 (parse issueQuery) issueQuery = .ok root ∧
      root.size = 11 ∧
      (∀ entry ∈ root.items, ∃ span, entry.2.span = some span ∧ PointsInto issueQuery span ∧
        ∀ place ∈ entry.2.held, ∃ inner, place = some inner ∧ PointsInto issueQuery inner ∧
          inner.Within span) ∧
      ∀ entry ∈ root.items, entry.2.ShownIn issueQuery.toList := by
  -- Building, counting and the absence of calls are computed; what the places say is not.
  have sized : (buildRoot .standard issueLanguage 8 (parse issueQuery) issueQuery).toOption.map
      Node.size = some 11 := by
    decide +kernel
  have uncalled : (parse issueQuery).calls.length = 0 := by decide +kernel
  cases built : buildRoot .standard issueLanguage 8 (parse issueQuery) issueQuery with
  | error error =>
    rw [built] at sized
    cases sized
  | ok root =>
    rw [built] at sized
    obtain ⟨placed, shown⟩ := buildRoot_faithful issueLanguage 8 issueQuery built
    exact ⟨root, rfl, Option.some.inj sized, placed, shown (List.length_eq_zero_iff.mp uncalled)⟩

end FilterLang
