import FilterLang.Context
import FilterLang.Proofs.Grammar.WellFormed
import FilterLang.Proofs.Token.Spelling
import FilterLang.Proofs.Tree.LastLeaf
import Mathlib.Order.Bounds.Basic

/-! The classifier cuts its texts only where they can be cut. -/

namespace FilterLang

section Cuts

variable {source : List Char}

/-- The text between two offsets; they are reported if they are no range of the text. -/
def cutOut (start stop : Nat) (source : List Char) : Except Span (List Char) :=
  match sliceBytes start stop source with
  | some body => .ok body
  | none => .error ⟨start, stop⟩

/-- A cut that can be made gives the text between its offsets. -/
theorem cutOut_eq_ok_iff {start stop : Nat} {body : List Char} :
    cutOut start stop source = .ok body ↔ sliceBytes start stop source = some body := by
  -- A cut fails exactly if there is no such slice.
  unfold cutOut
  cases sliceBytes start stop source <;> simp

/-- Offsets that text can be cut out between: they are in order, and both are boundaries. -/
structure IsRange (source : List Char) (start stop : Nat) : Prop where
  ordered : start ≤ stop
  begins : Boundary source start
  ends : Boundary source stop

/-- The cut between two offsets can be made exactly if they are a range of the text. -/
theorem exists_cutOut_iff {start stop : Nat} :
    (∃ body, cutOut start stop source = .ok body) ↔ IsRange source start stop := by
  simp only [cutOut_eq_ok_iff]
  constructor
  · rintro ⟨body, cut⟩
    obtain ⟨before, after, rfl, rfl, rfl⟩ := exists_of_sliceBytes cut
    exact ⟨Nat.le_add_right _ _, ⟨before, body ++ after, rfl, rfl⟩,
      ⟨before ++ body, after, by simp, by simp⟩⟩
  · rintro ⟨ordered, ⟨before, back, rfl, rfl⟩, ⟨front, after, same, rfl⟩⟩
    -- The text up to the later offset goes on from the text up to the earlier one.
    obtain ⟨body, rfl, rfl⟩ := exists_between same ordered
    exact ⟨body, by simpa using sliceBytes_append before body after⟩

/-- Between the offsets of a range the cut is made. -/
theorem IsRange.cutOut_eq {start stop : Nat} (range : IsRange source start stop) :
    cutOut start stop source = .ok ((sliceBytes start stop source).getD []) := by
  -- A range can be cut, and what is cut is the slice.
  obtain ⟨body, made⟩ := exists_cutOut_iff.mpr range
  rw [made, cutOut_eq_ok_iff.mp made, Option.getD_some]

/-- The text up to a boundary can be cut off. -/
theorem Boundary.cutOut_eq {stop : Nat} (ends : Boundary source stop) :
    cutOut 0 stop source = .ok ((takeBytes stop source).getD []) := by
  -- The start of a text is a boundary, and nothing is dropped before it.
  have range : IsRange source 0 stop := ⟨Nat.zero_le stop, boundary_zero source, ends⟩
  have same : sliceBytes 0 stop source = takeBytes stop source := by
    rw [sliceBytes, if_pos range.ordered, dropBytes_zero, Option.bind_some, Nat.sub_zero]
  rw [range.cutOut_eq, same]

/-- The boundaries of a text are its beginning and those behind its first character. -/
theorem boundary_cons {c : Char} {offset : Nat} :
    Boundary (c :: source) offset ↔
      offset = 0 ∨ ∃ rest, Boundary source rest ∧ offset = c.utf8Size + rest := by
  -- A boundary is at the start or lies behind the first character.
  constructor
  · rintro ⟨front, back, same, rfl⟩
    cases front with
    | nil => exact .inl rfl
    | cons d front =>
      obtain ⟨rfl, rfl⟩ := List.cons.inj same
      exact .inr ⟨byteLength front, ⟨front, back, rfl, rfl⟩, rfl⟩
  · rintro (rfl | ⟨rest, ⟨front, back, rfl, rfl⟩, rfl⟩)
    · exact boundary_zero _
    · exact ⟨c :: front, back, rfl, rfl⟩

/-- A cursor counts as the last boundary that is not behind it. -/
theorem isGreatest_floorBoundary (cursor : Nat) (source : List Char) :
    IsGreatest {offset | Boundary source offset ∧ offset ≤ cursor}
      (floorBoundary cursor source) := by
  fun_induction floorBoundary cursor source with
  | case1 cursor =>
    refine ⟨⟨boundary_zero [], Nat.zero_le cursor⟩, fun offset ⟨boundary, _⟩ => ?_⟩
    exact boundary.le
  | case2 cursor c cs whole ih =>
    obtain ⟨⟨boundary, below⟩, greatest⟩ := ih
    refine ⟨⟨boundary_cons.mpr (.inr ⟨_, boundary, rfl⟩), by omega⟩, ?_⟩
    rintro offset ⟨other, reached⟩
    rcases boundary_cons.mp other with rfl | ⟨rest, later, rfl⟩
    · exact Nat.zero_le _
    · -- Behind the first character the boundaries are those of the rest of the text.
      exact Nat.add_le_add_left (greatest ⟨later, by omega⟩) _
  | case3 cursor c cs inside =>
    refine ⟨⟨boundary_zero _, Nat.zero_le cursor⟩, ?_⟩
    rintro offset ⟨other, reached⟩
    rcases boundary_cons.mp other with rfl | ⟨rest, later, rfl⟩
    · exact Nat.le_refl 0
    · omega

end Cuts

/-- A rule that applies or does not, and that reports the first cut that cannot be made. -/
abbrev Cutting := OptionT (Except Span)

section Agreement

variable {α β : Type}

/-- A checked rule makes all of its cuts and comes to a result. -/
def Cutting.Gives (rule : Cutting α) (result : Option α) : Prop :=
  rule.run = .ok result

namespace Cutting.Gives

/-- A rule that cuts nothing. -/
theorem getM (result : Option α) : Gives result.getM result := by
  cases result <;> rfl

/-- A rule that is one cut that can be made. -/
theorem made {step : Except Span α} {value : α} (made : step = .ok value) :
    Gives (liftM step) (some value) := by
  -- A cut that succeeds goes on with what it gave.
  rw [made]
  rfl

/-- A rule goes on behind a cut that can be made. -/
theorem behind {step : Except Span α} {value : α} (made : step = .ok value) {rest : α → Cutting β}
    {result : Option β} (goes : Gives (rest value) result) :
    Gives (liftM step >>= rest) result := by
  -- A cut that succeeds goes on with what it gave.
  rw [made]
  exact goes

/-- A rule goes on behind another one. -/
theorem bind {rule : Cutting α} {result : Option α} (gives : Gives rule result)
    {rest : α → Cutting β} {further : α → Option β}
    (goes : ∀ value ∈ result, Gives (rest value) (further value)) :
    Gives (rule >>= rest) (result >>= further) := by
  -- A rule that does not apply ends the search without a failure.
  show (rule.run >>= _) = _
  rw [gives]
  cases result with
  | none => rfl
  | some value => exact goes value rfl

/-- The second rule is tried if the first does not apply. -/
theorem orElse {first second : Cutting α} {result other : Option α} (gives : Gives first result)
    (tried : Gives second other) : Gives (first <|> second) (result <|> other) := by
  -- A failed cut of the second rule counts only where the first one does not apply.
  show (first.run >>= _) = _
  rw [gives]
  cases result with
  | none => exact tried
  | some value => rfl

/-- A rule that does not apply leaves a result for that case. -/
theorem getD {rule : Cutting α} {result : Option α} (gives : Gives rule result) (otherwise : α) :
    (do let found ← rule.run; return found.getD otherwise) =
      Except.ok (result.getD otherwise) := by
  -- The rule gives a result or none, and never a failure.
  rw [gives]
  rfl

end Cutting.Gives

end Agreement

namespace Tree

/-- The text of the source under a tree, checked. -/
def cutText (tree : Tree) (source : List Char) : Except Span String := do
  let chars ← cutOut tree.span.start tree.span.stop source
  return String.ofList chars

/-- The field name of a comparison, checked. -/
def cutFieldName (comparison : Tree) (source : List Char) : Cutting String := do
  let field ← (comparison.child? .field).getM
  let name ← (field.child? .identifier).getM
  name.cutText source

end Tree

namespace Visit

/-- The name of a field for the leaf that holds it, checked. -/
def cutFieldName (visit : Visit) (source : List Char) : Cutting String := do
  if visit.kind == .identifier && visit.isUnder .field then visit.tree.cutText source else failure

/-- Behind a parenthesis or a comma of a list of values, checked. -/
def cutListValueStart (visit : Visit) (source : List Char) : Cutting Context := do
  match visit.ancestors with
  | list :: comparison :: _ =>
    if (visit.kind == .openParen || visit.kind == .comma) && list.kind == .listLiteral &&
        comparison.kind == .comparison && comparison.hasChild .inOperator then
      -- A missing name does not keep the rule from applying, but a wrong cut ends the run.
      let field ← OptionT.lift (comparison.cutFieldName source).run
      return .inListValueStart field
    else failure
  | _ => failure

/-- Behind the name of a declared field, checked. -/
def cutAfterField (visit : Visit) (language : Language) (source : List Char) :
    Cutting Context := do
  let name ← visit.cutFieldName source
  if (language.field? name).isSome then return .afterField name else failure

/-- Behind a name and the first word of NOT IN, checked. -/
def cutPendingNotIn (visit : Visit) (tree : Tree) (language : Language) (source : List Char) :
    Cutting Context := do
  if visit.kind.isError then
    -- Only the text of an error is cut out here, whatever is under it.
    let word ← cutOut visit.span.start visit.span.stop source
    if sameLetters word "not".toList then
      let front ← cutOut 0 visit.span.start source
      let leaf ← (tree.leafEndingAt? (byteLength (trimEnd front))).getM
      let name ← leaf.cutFieldName source
      let comparison ← (leaf.ancestors[1]?).getM
      let field ← (language.field? name).getM
      if !comparison.hasOperator && (language.operatorsFor field).contains "NOT IN" then
        return .afterField name
      else failure
    else failure
  else failure

/-- In a name that is being typed, checked; the text is cut before anything else is looked at. -/
def cutPartialClause (visit : Visit) (source : List Char) (cursor : Nat) : Cutting Context := do
  let _ ← visit.cutFieldName source
  let typed ← cutOut visit.span.start cursor source
  let comparison ← (visit.ancestors[1]?).getM
  let primary ← (visit.ancestors[2]?).getM
  if comparison.kind == .comparison && primary.kind == .primary && !comparison.hasOperator then
    let above : Visit := ⟨comparison, visit.ancestors.drop 2⟩
    if (above.ancestor? .notExpression).any (·.hasChild .notOp) then
      return .partialAfterNot (String.ofList typed)
    else return .partialClauseStart (String.ofList typed)
  else failure

/-- Behind an operator whose right side is missing, checked. -/
def cutAfterOperator (visit : Visit) (source : List Char) : Cutting Context := do
  let comparison ← visit.ancestors.head?.getM
  if comparison.kind == .comparison then
    -- The name is cut out before it is known whether an operator stands here.
    let field ← OptionT.lift (comparison.cutFieldName source).run
    if visit.kind == .inOperator && !comparison.hasChild .listLiteral then
      return .afterInOperator field
    else if visit.kind == .compareOperator && !comparison.hasChild .scalarValue then
      return .afterCompareOperator field
    else failure
  else failure

end Visit

/-- The place of a cursor in a tree of a source, checked: the first wrong cut ends the run. -/
def checkedClassifyIn (language : Language) (tree : Tree) (source : List Char) (cursor : Nat) :
    Except Span Context := do
  let cursor := floorBoundary cursor source
  let front ← cutOut 0 cursor source
  let solid := byteLength (trimEnd front)
  let before := tree.leafEndingAt? solid
  let boundary := (tree.nodesEndingAt solid).any (·.tree.isCompleteClause)
  let opens := solid = 0 || before.any Visit.opensClause
  -- The same rules in the same order; a rule is run only if none before it applies.
  let found ← ((before.getM >>= fun leaf : Visit => leaf.cutListValueStart source)
    <|> (if opens then some Context.clauseStart else none).getM
    <|> (before.bind Visit.afterNot?).getM
    <|> (before.getM >>= fun leaf : Visit => leaf.cutAfterField language source)
    <|> (before.getM >>= fun leaf : Visit => leaf.cutPendingNotIn tree language source)
    <|> ((tree.leafAt? cursor).getM >>= fun leaf : Visit => leaf.cutPartialClause source cursor)
    <|> (before.getM >>= fun leaf : Visit => leaf.cutAfterOperator source)
    <|> (if boundary then some Context.clauseBoundary else none).getM : Cutting Context).run
  return found.getD .fallback

section Trees

variable {source : List Char} {tree : Tree}

/-- A tree of which every node stands over a range of the text. -/
def Tree.IsCuttable (source : List Char) (tree : Tree) : Prop :=
  ∀ sub ∈ tree.subtrees, IsRange source sub.span.start sub.span.stop

/-- Every node of the tree of a text stands over a range of the text. -/
theorem parse_isCuttable (text : String) : (parse text).IsCuttable text.toList := by
  -- Every span of a tree runs from one boundary to another.
  intro sub inside
  obtain ⟨begins, ends⟩ := parse_boundaries text sub inside
  exact ⟨(parse_isTidy text sub inside).1.le, begins, ends⟩

/-- What stands in a cuttable tree is cuttable. -/
theorem Tree.IsCuttable.inside (cuttable : tree.IsCuttable source) {sub : Tree}
    (inside : sub ∈ tree.subtrees) : sub.IsCuttable source :=
  fun _ deeper => cuttable _ (Tree.mem_subtrees_trans inside deeper)

/-- What a cuttable tree has directly below it is cuttable. -/
theorem Tree.IsCuttable.child? (cuttable : tree.IsCuttable source) {kind : NodeKind} {child : Tree}
    (found : tree.child? kind = some child) : child.IsCuttable source :=
  cuttable.inside (Tree.mem_subtrees_of_mem_children (List.mem_of_find?_eq_some found))

/-- The nodes of a cuttable tree are cuttable. -/
theorem Tree.IsCuttable.visit (cuttable : tree.IsCuttable source) {visit : Visit}
    (visited : visit ∈ tree.visits) : visit.tree.IsCuttable source :=
  cuttable.inside (List.mem_map_of_mem visited)

/-- What stands above a node of a cuttable tree is cuttable. -/
theorem Tree.IsCuttable.ancestor (cuttable : tree.IsCuttable source) {visit : Visit}
    (visited : visit ∈ tree.visits) {ancestor : Tree} (above : ancestor ∈ visit.ancestors) :
    ancestor.IsCuttable source := by
  -- The nodes above a visit are subtrees of the tree itself.
  rcases Tree.ancestors_subtrees visited ancestor above with none | inside
  · cases none
  · exact cuttable.inside inside

/-- The characters under a cuttable tree can be cut out. -/
theorem Tree.IsCuttable.cutOut_chars (cuttable : tree.IsCuttable source) :
    cutOut tree.span.start tree.span.stop source = .ok (tree.chars source) :=
  (cuttable tree tree.self_mem_subtrees).cutOut_eq

/-- The text under a cuttable tree can be cut out. -/
theorem Tree.IsCuttable.cutText_eq (cuttable : tree.IsCuttable source) :
    tree.cutText source = .ok (tree.text source) := by
  -- The span of the node is a range of the source.
  rw [Tree.cutText, cuttable.cutOut_chars]
  rfl

/-- The field name of a cuttable comparison can be cut out. -/
theorem Tree.IsCuttable.cutFieldName_gives (cuttable : tree.IsCuttable source) :
    (tree.cutFieldName source).Gives (tree.fieldName? source) := by
  -- Two look-ups and one cut, the cut being at a node of the tree.
  refine Cutting.Gives.bind (.getM _) fun field found => ?_
  refine Cutting.Gives.bind (.getM _) fun name deeper => ?_
  exact .made ((cuttable.child? found).child? deeper).cutText_eq

end Trees

namespace Visit

variable {source : List Char} {tree : Tree} {visit : Visit}

/-- The name of a field can be cut out. -/
theorem cutFieldName_gives (cuttable : tree.IsCuttable source) (visited : visit ∈ tree.visits) :
    (visit.cutFieldName source).Gives (visit.fieldName? source) := by
  -- Only identifiers under a field are cut.
  unfold cutFieldName fieldName?
  split
  · exact .made (cuttable.visit visited).cutText_eq
  · rfl

/-- The rule for lists of values makes its cuts. -/
theorem cutListValueStart_gives (cuttable : tree.IsCuttable source)
    (visited : visit ∈ tree.visits) :
    (visit.cutListValueStart source).Gives (visit.listValueStart? source) := by
  -- The comparison stands two nodes above the mark.
  unfold cutListValueStart listValueStart?
  cases path : visit.ancestors with
  | nil => rfl
  | cons list above =>
    cases above with
    | nil => rfl
    | cons comparison above =>
      have among : comparison ∈ visit.ancestors := by simp [path]
      dsimp only
      split
      · exact .behind (cuttable.ancestor visited among).cutFieldName_gives rfl
      · rfl

/-- The rule for names of fields makes its cuts. -/
theorem cutAfterField_gives (cuttable : tree.IsCuttable source) (visited : visit ∈ tree.visits)
    (language : Language) :
    (visit.cutAfterField language source).Gives (visit.afterField? language source) := by
  -- The name is the only thing that is cut.
  refine Cutting.Gives.bind (cutFieldName_gives cuttable visited) fun name _ => ?_
  split <;> rfl

/-- The rule for the first word of NOT IN makes its cuts. -/
theorem cutPendingNotIn_gives (cuttable : tree.IsCuttable source) (visited : visit ∈ tree.visits)
    (language : Language) :
    (visit.cutPendingNotIn tree language source).Gives
      (visit.pendingNotIn? tree language source) := by
  have node := cuttable.visit visited
  unfold cutPendingNotIn pendingNotIn?
  cases visit.kind.isError with
  | false => rfl
  | true =>
    refine .behind node.cutOut_chars ?_
    rw [Bool.true_and]
    split
    case isFalse => rfl
    case isTrue =>
      -- The word begins at a boundary, so the text before it can be cut off as well.
      refine .behind (node _ (Tree.self_mem_subtrees _)).begins.cutOut_eq ?_
      refine .bind (.getM _) fun leaf found => ?_
      have among := (Tree.visit_leafEndingAt? found).1
      refine .bind (cutFieldName_gives cuttable among) fun name _ => ?_
      refine .bind (.getM _) fun comparison _ => ?_
      refine .bind (.getM _) fun field _ => ?_
      split <;> rfl

/-- The rule for a name that is being typed makes its cuts, if the cursor is not before the name. -/
theorem cutPartialClause_gives (cuttable : tree.IsCuttable source) (visited : visit ∈ tree.visits)
    {cursor : Nat} (ends : Boundary source cursor) (ordered : visit.span.start ≤ cursor) :
    (visit.cutPartialClause source cursor).Gives (visit.partialClause? source cursor) := by
  -- What has been typed so far reaches from the start of the node to the cursor, both boundaries.
  have node := cuttable.visit visited _ (Tree.self_mem_subtrees _)
  have range : IsRange source visit.span.start cursor := ⟨ordered, node.begins, ends⟩
  refine Cutting.Gives.bind (cutFieldName_gives cuttable visited) fun _ _ => ?_
  refine .behind range.cutOut_eq ?_
  -- From here on nothing is cut.
  refine .bind (.getM _) fun comparison _ => ?_
  refine .bind (.getM _) fun primary _ => ?_
  split
  · dsimp only
    split <;> rfl
  · rfl

/-- The rule for operators makes its cuts. -/
theorem cutAfterOperator_gives (cuttable : tree.IsCuttable source) (visited : visit ∈ tree.visits) :
    (visit.cutAfterOperator source).Gives (visit.afterOperator? source) := by
  -- The comparison is the node right above, and its field is the only thing that is cut.
  refine Cutting.Gives.bind (.getM _) fun comparison found => ?_
  have above := cuttable.ancestor visited (List.mem_of_head? found)
  split
  · refine .behind above.cutFieldName_gives ?_
    split
    · rfl
    · split <;> rfl
  · rfl

end Visit

/-- In a cuttable tree every cut is made, and the checked classifier finds what the other does. -/
theorem Tree.IsCuttable.checkedClassifyIn_eq {source : List Char} {tree : Tree}
    (cuttable : tree.IsCuttable source) (language : Language) (cursor : Nat) :
    checkedClassifyIn language tree source cursor =
      .ok (classifyIn language tree source cursor) := by
  have ends := (isGreatest_floorBoundary cursor source).1.1
  unfold checkedClassifyIn classifyIn solidLength
  dsimp only
  rw [ends.cutOut_eq]
  -- What the rules before the cursor and the one under it look at are nodes of the tree.
  have before {offset : Nat} : ∀ leaf ∈ tree.leafEndingAt? offset, leaf ∈ tree.visits :=
    fun leaf found => (Tree.visit_leafEndingAt? found).1
  refine Cutting.Gives.getD ?_ _
  refine .orElse (.bind (.getM _) fun leaf found => ?_) ?_
  · exact Visit.cutListValueStart_gives cuttable (before leaf found)
  refine .orElse (.getM _) (.orElse (.getM _) ?_)
  refine .orElse (.bind (.getM _) fun leaf found => ?_) ?_
  · exact Visit.cutAfterField_gives cuttable (before leaf found) language
  refine .orElse (.bind (.getM _) fun leaf found => ?_) ?_
  · exact Visit.cutPendingNotIn_gives cuttable (before leaf found) language
  refine .orElse (.bind (.getM _) fun leaf found => ?_) ?_
  · obtain ⟨visited, -, begins, -⟩ := Tree.visit_leafAt? found
    exact Visit.cutPartialClause_gives cuttable visited ends (Nat.le_of_lt begins)
  refine .orElse (.bind (.getM _) fun leaf found => ?_) (.getM _)
  exact Visit.cutAfterOperator_gives cuttable (before leaf found)

/-- A node that begins inside a character is reported. -/
example (language : Language) :
    checkedClassifyIn language (.node .query ⟨0, 2⟩ [.leaf (.error none) ⟨1, 2⟩]) ['é'] 2 =
      .error ⟨1, 2⟩ := by
  rfl

end FilterLang
