import FilterLang.Proofs.Context.CheckedCuts
import FilterLang.Proofs.Context.WhiteSpace

/-! What a context says about a text stands in the text. -/

namespace FilterLang

/-- A node with all that stands above it, nearest first. -/
def Visit.path (visit : Visit) : List Tree :=
  visit.tree :: visit.ancestors

section Places

variable (text : String)

/-- The identifier of a field in the tree of a text, and the name that is written there. -/
structure Names (identifier : Visit) (name : String) : Prop where
  visited : identifier ∈ (parse text).visits
  kind : identifier.kind = .identifier
  under : identifier.isUnder .field = true
  spelled : sliceBytes identifier.span.start identifier.span.stop text.toList = some name.toList

/-- The last token before an offset: there is nothing but white space between the two. -/
structure EndsBefore (place : Nat) (token : Visit) : Prop where
  visited : token ∈ (parse text).visits
  solid : token.isSolidLeaf = true
  spaced : ∃ gap, sliceBytes token.span.stop place text.toList = some gap ∧
    ∀ c ∈ gap, isBlank c = true

/-- The identifier of the field of a comparison, and its name. -/
structure NamesFieldOf (comparison identifier : Visit) (name : String) : Prop
    extends Names text identifier name where
  compares : comparison.kind = .comparison
  below : ∃ field, identifier.ancestors = field :: comparison.path

/-- The name of the field of the comparison that holds the last token before an offset. -/
def HeldField (place : Nat) (name : String) : Prop :=
  ∃ token comparison identifier, EndsBefore text place token ∧
    comparison.path <:+ token.ancestors ∧ NamesFieldOf text comparison identifier name

/-- The front part of a field's identifier that ends at an offset, no operator being behind it. -/
def TypedField (place : Nat) (typed : String) : Prop :=
  ∃ comparison identifier name, NamesFieldOf text comparison identifier name ∧
    (∀ child ∈ comparison.tree.children,
      child.kind ≠ .compareOperator ∧ child.kind ≠ .inOperator) ∧
    identifier.span.start < place ∧ place ≤ identifier.span.stop ∧
    sliceBytes identifier.span.start place text.toList = some typed.toList ∧ typed ≠ ""

/-- Contexts that say nothing about a text but what stands in it at an offset. -/
inductive Context.Genuine (language : Language) (place : Nat) : Context → Prop where
  | inListValueStart {name : String} (held : HeldField text place name) :
      Genuine language place (.inListValueStart (some name))
  | clauseStart : Genuine language place .clauseStart
  | afterNot : Genuine language place .afterNot
  | afterField {field : Field} {identifier : Visit} (declared : field ∈ language.fields)
      (names : Names text identifier field.name) (before : identifier.span.stop ≤ place) :
      Genuine language place (.afterField field.name)
  | partialClauseStart {typed : String} (front : TypedField text place typed) :
      Genuine language place (.partialClauseStart typed)
  | partialAfterNot {typed : String} (front : TypedField text place typed) :
      Genuine language place (.partialAfterNot typed)
  | afterInOperator {name : String} (held : HeldField text place name) :
      Genuine language place (.afterInOperator (some name))
  | afterCompareOperator {name : String} (held : HeldField text place name) :
      Genuine language place (.afterCompareOperator (some name))
  | clauseBoundary : Genuine language place .clauseBoundary
  | fallback : Genuine language place .fallback

end Places

section Tokens

/-- White space is all that is cut off at the end of a text. -/
theorem exists_trimEnd (cs : List Char) :
    ∃ gap, cs = trimEnd cs ++ gap ∧ ∀ c ∈ gap, isBlank c = true := by
  induction cs with
  | nil => exact ⟨[], rfl, by simp⟩
  | cons c cs ih =>
    obtain ⟨gap, split, blank⟩ := ih
    rw [trimEnd]
    cases kept : trimEnd cs with
    | cons d rest =>
      rw [kept] at split
      exact ⟨gap, by rw [split]; rfl, blank⟩
    | nil =>
      rw [kept] at split
      -- Only white space follows, so the character goes with it or is the last one kept.
      cases space : isBlank c with
      | false => exact ⟨gap, by simpa using split, blank⟩
      | true => exact ⟨c :: gap, by simpa using split, by simpa [space] using blank⟩

variable {text : String}

/-- The leaf that ends where the white space before a boundary begins is the token before it. -/
theorem Boundary.endsBefore {place : Nat} (boundary : Boundary text.toList place) {leaf : Visit}
    (found : (parse text).leafEndingAt? (solidLength text.toList place) = some leaf) :
    EndsBefore text place leaf := by
  obtain ⟨visited, solid, ends⟩ := Tree.visit_leafEndingAt? found
  refine ⟨visited, solid, ?_⟩
  -- The text up to the offset is what is solid and a gap of white space behind it.
  obtain ⟨front, back, whole, rfl⟩ := boundary
  obtain ⟨gap, split, blank⟩ := exists_trimEnd front
  have cut := sliceBytes_append (trimEnd front) gap back
  rw [← byteLength_append, ← List.append_assoc, ← split] at cut
  refine ⟨gap, ?_, blank⟩
  rwa [ends, whole, solidLength_append]

/-- A token before an offset does not reach behind it. -/
theorem EndsBefore.le {place : Nat} {token : Visit} (ends : EndsBefore text place token) :
    token.span.stop ≤ place := by
  -- A gap of white space lies between the token and the place.
  obtain ⟨gap, cut, -⟩ := ends.spaced
  obtain ⟨before, after, -, -, reached⟩ := exists_of_sliceBytes cut
  omega

/-- The name that is found under a node is written there. -/
theorem names_of_fieldName? {visit : Visit} (visited : visit ∈ (parse text).visits) {name : String}
    (named : visit.fieldName? text.toList = some name) : Names text visit name := by
  -- The name is what stands under an identifier of a field.
  simp only [Visit.fieldName?, Option.ite_none_right_eq_some, Bool.and_eq_true, beq_iff_eq,
    Option.some.injEq] at named
  obtain ⟨⟨kind, under⟩, rfl⟩ := named
  refine ⟨visited, kind, under, ?_⟩
  rw [Tree.text, String.toList_ofList]
  exact cutOut_eq_ok_iff.mp ((parse_isCuttable text).visit visited).cutOut_chars

/-- A comparison begins with the name of its field. -/
theorem exists_children_of_comparison {comparison : Tree}
    (formed : Formed comparison.kind comparison.children) (kind : comparison.kind = .comparison) :
    ∃ name rest, comparison.children = fieldTree name :: rest := by
  rw [kind] at formed
  generalize comparison.children = children at formed
  -- No token and no mark is a comparison, and each of the other forms begins with a field.
  cases formed with
  | @token word _ taken => cases word <;> cases taken
  | mark error => cases error
  | bare name => exact ⟨name, [], rfl⟩
  | compare name operator valued => exact ⟨name, _, rfl⟩
  | member name operator listed => exact ⟨name, _, rfl⟩

/-- Every comparison in the tree of a text has a field with a name. -/
theorem exists_namesFieldOf {comparison : Visit} (visited : comparison ∈ (parse text).visits)
    (kind : comparison.kind = .comparison) : ∃ name identifier,
      comparison.tree.fieldName? text.toList = some name ∧
        NamesFieldOf text comparison identifier name := by
  have formed := parse_isFormed text comparison.tree (List.mem_map_of_mem visited)
  obtain ⟨span, rest, same⟩ := exists_children_of_comparison formed kind
  -- Two steps down from the comparison stands the identifier.
  have field : ⟨fieldTree span, comparison.path⟩ ∈ (parse text).visits :=
    Tree.visit_child visited (by simp [same])
  have identifier : ⟨.leaf .identifier span, fieldTree span :: comparison.path⟩ ∈
      (parse text).visits :=
    Tree.visit_child field (by simp [fieldTree])
  have found : comparison.tree.fieldName? text.toList =
      some ((Tree.leaf .identifier span).text text.toList) := by
    simp [Tree.fieldName?, Tree.child?, same, fieldTree]
  exact ⟨_, _, found, names_of_fieldName? identifier rfl, kind, _, rfl⟩

end Tokens

section Rules

variable {text : String} {place : Nat} {visit : Visit} {context : Context} {language : Language}

/-- What the comparison above a token says about its field. -/
theorem EndsBefore.exists_heldField (ends : EndsBefore text place visit) {comparison : Tree}
    {above : List Tree} (visited : ⟨comparison, above⟩ ∈ (parse text).visits)
    (holds : comparison :: above <:+ visit.ancestors) (kind : comparison.kind = .comparison) :
    ∃ name, comparison.fieldName? text.toList = some name ∧ HeldField text place name := by
  -- Every comparison of a parsed tree begins with a field.
  obtain ⟨name, identifier, found, names⟩ := exists_namesFieldOf visited kind
  exact ⟨name, found, visit, ⟨comparison, above⟩, identifier, ends, holds, names⟩

/-- The rule for lists of values tells the field of the list. -/
theorem EndsBefore.genuine_listValueStart? (ends : EndsBefore text place visit)
    (answers : visit.listValueStart? text.toList = some context) :
    context.Genuine text language place := by
  unfold Visit.listValueStart? at answers
  split at answers
  case h_2 => cases answers
  case h_1 list comparison above path =>
    simp only [Option.ite_none_right_eq_some, Bool.and_eq_true, beq_iff_eq] at answers
    obtain ⟨⟨⟨-, kind⟩, -⟩, answers⟩ := answers
    -- The comparison is two steps up from the token.
    have visited := (Tree.visit_parent (Tree.visit_parent ends.visited path).1 rfl).1
    have holds : comparison :: above <:+ visit.ancestors := path ▸ List.suffix_cons list _
    obtain ⟨name, found, held⟩ := ends.exists_heldField visited holds kind
    rw [← Option.some.inj answers, found]
    exact .inListValueStart held

/-- The rule for operators tells the field of the operator. -/
theorem EndsBefore.genuine_afterOperator? (ends : EndsBefore text place visit)
    (answers : visit.afterOperator? text.toList = some context) :
    context.Genuine text language place := by
  -- The comparison is right above the operator, and its field is the one that is named.
  obtain ⟨comparison, nearest, answers⟩ := Option.bind_eq_some_iff.mp answers
  obtain ⟨above, path⟩ := List.head?_eq_some_iff.mp nearest
  split at answers
  case isFalse => cases answers
  case isTrue kind =>
    have visited := (Tree.visit_parent ends.visited path).1
    have holds : comparison :: above <:+ visit.ancestors := path ▸ List.suffix_refl _
    obtain ⟨name, found, held⟩ := ends.exists_heldField visited holds (beq_iff_eq.mp kind)
    rw [found] at answers
    split at answers
    · rw [← Option.some.inj answers]
      exact .afterInOperator held
    · split at answers
      · rw [← Option.some.inj answers]
        exact .afterCompareOperator held
      · cases answers

/-- A declared name that ends before an offset is what may stand before it. -/
theorem EndsBefore.genuine_afterField (ends : EndsBefore text place visit) {name : String}
    (named : visit.fieldName? text.toList = some name) {field : Field}
    (declared : language.field? name = some field) :
    (Context.afterField name).Genuine text language place := by
  have names := names_of_fieldName? ends.visited named
  -- The declaration was looked up by the name.
  obtain rfl := Language.name_of_field? declared
  exact .afterField (List.mem_of_find?_eq_some declared) names ends.le

/-- The rule for names of fields tells the name before the offset. -/
theorem EndsBefore.genuine_afterField? (ends : EndsBefore text place visit)
    (answers : visit.afterField? language text.toList = some context) :
    context.Genuine text language place := by
  -- The name stands right before the place, and the language declares it.
  obtain ⟨name, named, answers⟩ := Option.bind_eq_some_iff.mp answers
  simp only [Option.ite_none_right_eq_some, Option.isSome_iff_exists] at answers
  obtain ⟨⟨field, declared⟩, answers⟩ := answers
  rw [← Option.some.inj answers]
  exact ends.genuine_afterField named declared

/-- A name that stands before an offset stands before every later one as well. -/
theorem Context.Genuine.afterField_mono {name : String} {later : Nat}
    (genuine : (Context.afterField name).Genuine text language place) (ordered : place ≤ later) :
    (Context.afterField name).Genuine text language later := by
  -- The name and its declaration stay; only the bound on its end is weakened.
  cases genuine with
  | afterField declared names before => exact .afterField declared names (before.trans ordered)

/-- The rule for the first word of NOT IN tells the name before the word. -/
theorem EndsBefore.genuine_pendingNotIn? (ends : EndsBefore text place visit)
    (answers : visit.pendingNotIn? (parse text) language text.toList = some context) :
    context.Genuine text language place := by
  unfold Visit.pendingNotIn? at answers
  simp only [Option.ite_none_right_eq_some, Option.bind_eq_bind, Option.bind_eq_some_iff]
    at answers
  obtain ⟨-, leaf, found, name, named, comparison, -, field, declared, -, answers⟩ := answers
  -- The word begins at a boundary, which the name stands before.
  have range := (parse_isCuttable text).visit ends.visited _ (Tree.self_mem_subtrees _)
  have genuine := (range.begins.endsBefore found).genuine_afterField named declared
  have ordered : visit.span.start ≤ place := range.ordered.trans ends.le
  rw [← Option.some.inj answers]
  exact genuine.afterField_mono ordered

/-- A comparison without an operator has none among its children. -/
theorem Tree.ne_of_not_hasOperator {comparison : Tree} (without : comparison.hasOperator = false) :
    ∀ child ∈ comparison.children, child.kind ≠ .compareOperator ∧ child.kind ≠ .inOperator := by
  -- Neither kind of operator is found among the children.
  simp only [hasOperator, hasChild, child?, Bool.or_eq_false_iff, Option.isSome_eq_false_iff,
    Option.isNone_iff_eq_none, List.find?_eq_none, beq_iff_eq] at without
  exact fun child below => ⟨without.1 child below, without.2 child below⟩

/-- The rule for a name that is being typed looks at a name that has no operator behind it. -/
theorem exists_of_partialClause? {source : List Char} {cursor : Nat}
    (answers : visit.partialClause? source cursor = some context) :
    ∃ name field comparison above, visit.fieldName? source = some name ∧
      visit.ancestors = field :: comparison :: above ∧ comparison.kind = .comparison ∧
      comparison.hasOperator = false ∧ ∃ typed,
        typed = String.ofList ((sliceBytes visit.span.start cursor source).getD []) ∧
        (context = .partialAfterNot typed ∨ context = .partialClauseStart typed) := by
  obtain ⟨name, named, answers⟩ := Option.bind_eq_some_iff.mp answers
  obtain ⟨comparison, second, answers⟩ := Option.bind_eq_some_iff.mp answers
  obtain ⟨primary, -, answers⟩ := Option.bind_eq_some_iff.mp answers
  simp only [Option.ite_none_right_eq_some, Bool.and_eq_true, Bool.not_eq_true', beq_iff_eq]
    at answers
  obtain ⟨⟨⟨kind, -⟩, without⟩, answers⟩ := answers
  -- The comparison is the second ancestor, so there is a first one.
  obtain ⟨field, above, path⟩ : ∃ field above, visit.ancestors = field :: comparison :: above := by
    match ancestors : visit.ancestors with
    | [] => simp [ancestors] at second
    | [_] => simp [ancestors] at second
    | field :: other :: above =>
      obtain rfl : other = comparison := by simpa [ancestors] using second
      exact ⟨field, above, rfl⟩
  refine ⟨name, field, comparison, above, named, path, kind, without, _, rfl, ?_⟩
  split at answers
  · exact .inl (Option.some.inj answers).symm
  · exact .inr (Option.some.inj answers).symm

/-- The rule for a name that is being typed tells the part of it before the cursor. -/
theorem genuine_partialClause? (boundary : Boundary text.toList place)
    (under : (parse text).leafAt? place = some visit)
    (answers : visit.partialClause? text.toList place = some context) :
    context.Genuine text language place := by
  obtain ⟨name, field, comparison, above, named, path, kind, without, typed, spelled, told⟩ :=
    exists_of_partialClause? answers
  obtain ⟨visited, -, begins, ends⟩ := Tree.visit_leafAt? under
  -- The name begins before the cursor, so at least one character of it is cut out.
  have node := (parse_isCuttable text).visit visited _ (Tree.self_mem_subtrees _)
  obtain ⟨body, made⟩ := exists_cutOut_iff.mpr ⟨Nat.le_of_lt begins, node.begins, boundary⟩
  have cut := cutOut_eq_ok_iff.mp made
  obtain ⟨before, after, -, -, reached⟩ := exists_of_sliceBytes cut
  rw [cut, Option.getD_some] at spelled
  have filled : typed ≠ "" := by
    intro empty
    have none : body = [] := by simpa [empty] using spelled.symm
    rw [none, byteLength] at reached
    omega
  have names := names_of_fieldName? visited named
  have front : TypedField text place typed := by
    refine ⟨⟨comparison, above⟩, visit, name, ⟨names, kind, field, path⟩,
      Tree.ne_of_not_hasOperator without, begins, ends, ?_, filled⟩
    rwa [spelled, String.toList_ofList]
  rcases told with rfl | rfl
  · exact .partialAfterNot front
  · exact .partialClauseStart front

/-- What a rule tells about the token before an offset is genuine, if there is such a token. -/
theorem genuine_of_bind {before : Option Visit} {rule : Visit → Option Context}
    (each : ∀ leaf, before = some leaf → ∀ context, rule leaf = some context →
      context.Genuine text language place) :
    ∀ context ∈ before.bind rule, context.Genuine text language place := by
  -- Without a leaf the rule does not answer.
  intro context answers
  obtain ⟨leaf, found, answers⟩ := Option.bind_eq_some_iff.mp answers
  exact each leaf found context answers

/-- What the first rule that applies tells is genuine if what each of them tells is. -/
theorem genuine_of_orElse {first rest : Option Context}
    (genuine : ∀ context ∈ first, context.Genuine text language place)
    (otherwise : (rest.getD .fallback).Genuine text language place) :
    ((first <|> rest).getD .fallback).Genuine text language place := by
  -- The first rule that answers decides.
  cases first with
  | none => simpa using otherwise
  | some context => exact genuine context rfl

end Rules

/--
Classifying a cursor cuts the text only where it can be cut, and what it finds stands in the text.

The checked classifier meets no range that is none of the text, and agrees with the classifier. The
context is about the last boundary that is not behind the cursor: a name before it is declared and
is that of an identifier before it; an operator or a list before it is in a comparison whose field
is told; and a text that is being typed is the part of an identifier up to it, is not empty, and has
no operator behind it.
-/
theorem classify_genuine (language : Language) (text : String) (cursor : Nat) :
    checkedClassifyIn language (parse text) text.toList cursor =
        .ok (classify language text cursor) ∧
      ∃ place, IsGreatest {offset | Boundary text.toList offset ∧ offset ≤ cursor} place ∧
        (classify language text cursor).Genuine text language place := by
  have greatest := isGreatest_floorBoundary cursor text.toList
  have boundary := greatest.1.1
  refine ⟨(parse_isCuttable text).checkedClassifyIn_eq language cursor, _, greatest, ?_⟩
  unfold classify classifyIn
  dsimp only
  -- One rule after the other; those that carry nothing are genuine as they are.
  refine genuine_of_orElse (genuine_of_bind fun leaf found context answers => ?_) ?_
  · exact (boundary.endsBefore found).genuine_listValueStart? answers
  refine genuine_of_orElse ?_ (genuine_of_orElse (genuine_of_bind ?_) ?_)
  · simpa using fun _ => .clauseStart
  · intro leaf found context answers
    rw [Visit.afterNot?, Option.ite_none_right_eq_some] at answers
    rw [← Option.some.inj answers.2]
    exact .afterNot
  refine genuine_of_orElse (genuine_of_bind fun leaf found context answers => ?_) ?_
  · exact (boundary.endsBefore found).genuine_afterField? answers
  refine genuine_of_orElse (genuine_of_bind fun leaf found context answers => ?_) ?_
  · exact (boundary.endsBefore found).genuine_pendingNotIn? answers
  refine genuine_of_orElse (genuine_of_bind fun leaf found context answers => ?_) ?_
  · exact genuine_partialClause? boundary found answers
  refine genuine_of_orElse (genuine_of_bind fun leaf found context answers => ?_) ?_
  · exact (boundary.endsBefore found).genuine_afterOperator? answers
  split
  · exact .clauseBoundary
  · exact .fallback

end FilterLang
