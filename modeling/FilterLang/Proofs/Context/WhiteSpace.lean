import FilterLang.Proofs.Context.HalfTyped
import FilterLang.Proofs.Grammar.Shape
import FilterLang.Proofs.Token.Tiling

/-! The context of a cursor that is moved over white space. -/

namespace FilterLang

section Text

/-- White space at the end does not count, whatever stands before it. -/
theorem trimEnd_append_blank (cs : List Char) {gap : List Char}
    (blank : ∀ c ∈ gap, isBlank c = true) : trimEnd (cs ++ gap) = trimEnd cs := by
  -- Induction on the solid part; its own trailing blanks go with the gap.
  induction cs with
  | nil => rw [List.nil_append, trimEnd_blank blank, trimEnd]
  | cons c cs ih => rw [List.cons_append, trimEnd, trimEnd, ih]

/-- An offset between characters is kept. -/
theorem floorBoundary_append (front back : List Char) :
    floorBoundary (byteLength front) (front ++ back) = byteLength front := by
  -- Induction on the front: no character starts before its end and ends behind it.
  induction front with
  | nil =>
    cases back with
    | nil => rfl
    | cons c cs =>
      have positive := c.utf8Size_pos
      simp only [List.nil_append, floorBoundary, byteLength]
      rw [if_neg (by omega)]
  | cons c cs ih => simp [floorBoundary, byteLength, ih]

/-- The text before an offset between characters, white space at its end aside. -/
theorem solidLength_append (front back : List Char) :
    solidLength (front ++ back) (byteLength front) = byteLength (trimEnd front) := by
  rw [solidLength, takeBytes_append, Option.getD_some]

/-- A character whose bytes meet those of a part of a text belongs to the part. -/
theorem mem_of_overlap {before body after left right : List Char} {c : Char}
    (same : before ++ (body ++ after) = left ++ c :: right)
    (begins : byteLength before < byteLength left + c.utf8Size)
    (ends : byteLength left < byteLength before + byteLength body) : c ∈ body := by
  rcases List.append_eq_append_iff.mp same with ⟨more, rfl, rest⟩ | ⟨more, rfl, rest⟩
  · -- The character stands behind what is before the part, so within it or behind it.
    rcases List.append_eq_append_iff.mp rest with ⟨further, rfl, -⟩ | ⟨further, rfl, last⟩
    · simp only [byteLength_append] at ends
      omega
    · cases further with
      | nil =>
        simp only [List.append_nil, byteLength_append] at ends
        omega
      | cons d further =>
        obtain rfl : c = d := (List.cons.inj last).1
        simp
  · cases more with
    | nil =>
      -- The character is the first one behind what is before the part.
      cases body with
      | nil =>
        simp only [List.append_nil, byteLength] at ends
        omega
      | cons d body =>
        obtain rfl : c = d := (List.cons.inj rest).1
        simp
    | cons d more =>
      obtain rfl : c = d := (List.cons.inj rest).1
      simp only [byteLength_append, byteLength] at begins
      omega

end Text

section Names

/-- A name is made of characters that words are made of. -/
theorem continuesWord_of_identifier {c : Char} {body rest : List Char} {name : String}
    (cut : lexeme c (body ++ rest) = (.identifier name, body.length)) :
    ∀ d ∈ c :: body, continuesWord d = true := by
  revert cut
  fun_cases lexeme c (body ++ rest) with
  | case5 | case6 | case7 =>
    intro cut
    rcases beforeEqual_body cut with ⟨other, -⟩ | ⟨other, -⟩ <;> cases other
  | case10 c number =>
    rw [if_pos number]
    simp
  | case11 c number word =>
    rw [if_neg number, if_pos word]
    intro cut
    -- The word is its first character and the run of those that continue it.
    have run := List.prefix_iff_eq_take.mp (List.takeWhile_prefix (l := body ++ rest) continuesWord)
    rw [(Prod.mk.inj cut).2, List.take_left' rfl] at run
    have first : continuesWord c = true := by
      simp only [startsWord, Bool.or_eq_true] at word
      rcases word with letter | mark
      · simp [continuesWord, letter]
      · simp [continuesWord, mark]
    rw [List.forall_mem_cons]
    exact ⟨first, fun d member => List.all_eq_true.mp List.all_takeWhile d (run ▸ member)⟩
  | case12 c number word =>
    rw [if_neg number, if_neg word]
    simp
  | _ => simp

/-- The place of a leaf in a text that no white space is under. -/
def SolidAt (source : List Char) (span : Span) : Prop :=
  ∃ before body after, source = before ++ (body ++ after) ∧
    span = ⟨byteLength before, byteLength before + byteLength body⟩ ∧
    ∀ c ∈ body, isBlank c = false

/-- No white space is under a name. -/
theorem solidAt_of_identifier {text : String} {token : Token} {name : String}
    (member : token ∈ tokenize text) (kind : token.kind = .identifier name) :
    SolidAt text.toList token.span := by
  -- An identifier is cut from the source, and all its characters go on with a word.
  obtain ⟨before, c, body, after, whole, span, -, cut⟩ :=
    (scans_tokenize text).exists_cutFrom [] rfl token member
  rw [kind] at cut
  refine ⟨before, c :: body, after, by simpa using whole, span, fun d inside => ?_⟩
  exact not_isBlank_of_continuesWord (continuesWord_of_identifier cut d inside)

/-- A leaf that is a name stands for a token that is one. -/
theorem StandFor.exists_identifier {leaves : List Tree} {tokens : List Token}
    (marks : StandFor leaves tokens) {leaf : Tree} (member : leaf ∈ leaves)
    (kind : leaf.kind = .identifier) :
    ∃ token ∈ tokens, token.span = leaf.span ∧ ∃ name, token.kind = .identifier name := by
  -- Induction along the leaves: an identifier stands for one token, which is an identifier.
  induction marks with
  | nil => cases member
  | @token word span other leaves tokens taken _ ih =>
    rcases List.mem_cons.mp member with rfl | later
    · obtain rfl : other = .identifier := kind
      refine ⟨⟨word, span⟩, List.mem_cons_self, rfl, ?_⟩
      cases word <;> simp [TokenKind.leafKind?] at taken
      exact ⟨_, rfl⟩
    · obtain ⟨token, among, same⟩ := ih later
      exact ⟨token, List.mem_cons_of_mem _ among, same⟩
  | notIn _ ih =>
    rcases List.mem_cons.mp member with rfl | later
    · cases kind
    · obtain ⟨token, among, same⟩ := ih later
      exact ⟨token, List.mem_cons_of_mem _ (List.mem_cons_of_mem _ among), same⟩

/-- No white space is under a leaf that is a name. -/
theorem solidAt_of_leaf {text : String} {leaf : Tree}
    (member : leaf ∈ (parse text).solidLeaves) (kind : leaf.kind = .identifier) :
    SolidAt text.toList leaf.span := by
  obtain ⟨body, rest, same, laid⟩ := exists_parse text
  have ordered := inOrder_tokenize text
  obtain ⟨read, split, marks⟩ := laid.standFor ordered
  rw [same, Tree.solidLeaves_node _ _ (by simp), List.flatMap_cons,
    leftOver_solidLeaves (laid.inOrder ordered), List.mem_append] at member
  rcases member with inside | behind
  · obtain ⟨token, among, span, name, identifier⟩ :=
      marks.exists_identifier (by simpa using inside) kind
    rw [← span]
    exact solidAt_of_identifier (split ▸ List.mem_append_left _ among) identifier
  · -- What is left over is under an error.
    cases rest with
    | nil => cases behind
    | cons first rest =>
      obtain rfl := List.mem_singleton.mp behind
      cases kind

end Names

section Endings

/-- A tree in which nothing is missing and every node ends with its last child. -/
structure Tree.IsWhole (tree : Tree) : Prop where
  formed : tree.IsFormed
  flush : ∀ sub ∈ tree.subtrees, sub.IsFlush
  clean : tree.hasError = false

/-- A tree that ends with a leaf other than a name. -/
def Tree.IsSealed (tree : Tree) : Prop :=
  ∃ leaf ∈ tree.subtrees, leaf.children = [] ∧ leaf.kind ≠ .identifier ∧
    leaf.kind.isError = false ∧ leaf.span.stop = tree.span.stop

namespace Tree.IsWhole

variable {tree : Tree}

/-- Nothing is missing from the children of a whole tree. -/
theorem child (whole : tree.IsWhole) {below : Tree} (member : below ∈ tree.children) :
    below.IsWhole where
  formed sub inside :=
    -- All three conditions are about the subtrees, and those of a child are among them.
    whole.formed sub (mem_subtrees_trans (mem_subtrees_of_mem_children member) inside)
  flush sub inside :=
    whole.flush sub (mem_subtrees_trans (mem_subtrees_of_mem_children member) inside)
  clean := by
    obtain ⟨kind, span, children⟩ := tree
    have clean := whole.clean
    rw [hasError_node, Bool.or_eq_false_iff, List.any_eq_false] at clean
    exact Bool.eq_false_iff.mpr (clean.2 below member)

/-- In a whole tree no mark stands in the place of something. -/
theorem kind_mem (whole : tree.IsWhole) {kinds : List NodeKind} (among : tree.IsAmong kinds) :
    tree.kind ∈ kinds := by
  -- The error kinds are ruled out by cleanness.
  refine among.resolve_right fun error => ?_
  have clean := whole.clean
  obtain ⟨kind, span, children⟩ := tree
  rw [hasError_node, Bool.or_eq_false_iff] at clean
  exact Bool.eq_false_iff.mp clean.1 error

/-- A whole tree is sealed if its last child is. -/
theorem sealed_of_last (whole : tree.IsWhole) {last : Tree}
    (final : tree.children.getLast? = some last) (ends : last.IsSealed) : tree.IsSealed := by
  -- The last child ends where the tree ends, so the leaf that seals the child seals the tree.
  obtain ⟨leaf, inside, bare, named, plain, stop⟩ := ends
  have below := mem_subtrees_of_mem_children (List.mem_of_getLast? final)
  refine ⟨leaf, mem_subtrees_trans below inside, bare, named, plain, stop.trans ?_⟩
  exact (whole.flush tree tree.self_mem_subtrees last final).symm

end Tree.IsWhole

/-- Whether a node of a kind always ends with a value or a closing parenthesis. -/
def NodeKind.closes : NodeKind → Bool
  | .string | .number | .boolean | .closeParen => true
  | .scalarValue | .listLiteral | .aliasCall | .group => true
  | _ => false

/-- Whether a tree ends with a value or a closing parenthesis, if nothing is missing from it. -/
def Tree.closes (tree : Tree) : Bool :=
  match tree.kind with
  -- Without an operator a comparison ends with a name.
  | .comparison => tree.hasOperator
  | .primary => tree.completesNegation
  | .notExpression => (tree.child? .primary).any completesNegation
  | kind => kind.closes

/-- A tree closes if its kind does. -/
theorem Tree.closes_of_kind {tree : Tree} (closing : tree.kind.closes = true) :
    tree.closes = true := by
  -- Every rule accepts a kind that closes by itself.
  unfold closes
  split <;> simp_all [NodeKind.closes]

/-- The operand of negations is the one primary expression behind them. -/
theorem find?_operand (words : List Span) {operand : Tree} (kind : operand.kind = .primary) :
    (words.map (Tree.leaf .notOp) ++ [operand]).find? (·.kind == .primary) = some operand := by
  -- Induction on the marks; none of them is an operand.
  induction words with
  | nil => simp [kind]
  | cons word words ih => simpa using ih

/-- A whole tree that closes ends with a leaf other than a name. -/
theorem Tree.isSealed_of_closes (tree : Tree) (whole : tree.IsWhole) (closes : tree.closes = true) :
    tree.IsSealed := by
  -- The last child closes as well, and so on down to a leaf.
  induction tree using Tree.induction with
  | node kind span children ih =>
    have formed : Formed kind children := whole.formed _ (self_mem_subtrees _)
    have ends {last : Tree} (final : children.getLast? = some last)
        (closes : last.closes = true) : (node kind span children).IsSealed :=
      have member := List.mem_of_getLast? final
      whole.sealed_of_last final (ih last member (whole.child member) closes)
    -- Where nothing is missing, no mark stands in the place of the last child.
    have endsAmong {last : Tree} (final : children.getLast? = some last) (closer : NodeKind)
        (among : last.IsAmong [closer]) (closing : closer.closes = true) :
        (node kind span children).IsSealed := by
      have same := (whole.child (List.mem_of_getLast? final)).kind_mem among
      rw [← List.mem_singleton.mp same] at closing
      exact ends final (closes_of_kind closing)
    cases formed with
    | token taken =>
      refine ⟨_, self_mem_subtrees _, rfl, ?_, isError_of_leafKind? taken, rfl⟩
      intro (named : kind = .identifier)
      simp [Tree.closes, named, NodeKind.closes] at closes
    | mark error =>
      have clean := whole.clean
      simp [error] at clean
    | @scalar word kind literal span =>
      refine ends rfl (closes_of_kind ?_)
      cases word <;> simp [literalKind?] at literal <;> simp [← literal, NodeKind.closes]
    | list opening each close => exact endsAmong List.getLast?_concat _ close rfl
    | compare name operator valued => exact endsAmong rfl _ valued rfl
    | member name operator listed => exact endsAmong rfl _ listed rfl
    | call name opening close => exact endsAmong rfl _ close rfl
    | group opening inside close => exact endsAmong rfl _ close rfl
    | tooDeep opening error => exact endsAmong rfl .closeParen (.inr error) rfl
    | @primary body among =>
      have kind := (whole.child (List.mem_singleton.mpr rfl)).kind_mem among
      have completes : (node .primary span [body]).completesNegation = true := closes
      simp only [completesNegation, children_node] at completes
      refine ends rfl ?_
      split at completes
      · rename_i same
        simpa [Tree.closes, same] using completes
      · rename_i same
        exact closes_of_kind (by simp [same, NodeKind.closes])
      · rename_i same
        exact closes_of_kind (by simp [same, NodeKind.closes])
      · cases completes
    | @negation words operand kind =>
      have completes : operand.completesNegation = true := by
        simpa [Tree.closes, child?, find?_operand words kind] using closes
      exact ends List.getLast?_concat (by simpa [Tree.closes, kind] using completes)
    | bare name => simp [Tree.closes, hasOperator, hasChild, child?, fieldTree] at closes
    | _ => simp [Tree.closes, NodeKind.closes] at closes

/-- A complete clause closes. -/
theorem Tree.closes_of_isCompleteClause {tree : Tree} (complete : tree.isCompleteClause = true) :
    tree.closes = true := by
  -- Each kind of clause is complete only if its last part closes.
  unfold isCompleteClause at complete
  split at complete
  · rename_i kind
    simp only [Bool.and_eq_true] at complete
    simpa [closes, kind] using complete.2
  · rename_i kind
    exact closes_of_kind (by simp [kind, NodeKind.closes])
  · rename_i kind
    simp only [Bool.and_eq_true] at complete
    simpa [closes, kind] using complete.2
  · cases complete

/-- Nothing is missing from a complete clause in the tree of a text. -/
theorem isWhole_of_isCompleteClause {text : String} {clause : Tree}
    (inside : clause ∈ (parse text).subtrees) (complete : clause.isCompleteClause = true) :
    clause.IsWhole := by
  refine ⟨fun sub deeper => parse_isFormed text sub (Tree.mem_subtrees_trans inside deeper),
    ?_, Tree.hasError_of_isCompleteClause complete⟩
  obtain ⟨body, rest, same, laid⟩ := exists_parse text
  have flush := laid.isFlush (inOrder_tokenize text)
  rw [same, Tree.subtrees_node, List.mem_cons, List.flatMap_cons, List.mem_append] at inside
  rcases inside with rfl | below | behind
  · simp [Tree.isCompleteClause] at complete
  · exact fun sub deeper => flush sub (by simpa using Tree.mem_subtrees_trans below deeper)
  · -- What is left over is under an error.
    have clean := Tree.hasError_of_isCompleteClause complete
    rw [Tree.hasError_eq, List.any_eq_false] at clean
    exact absurd (isError_of_leftOver behind).2 (clean clause clause.self_mem_subtrees)

/-- No complete clause ends behind a name. -/
theorem nodesEndingAt_of_identifier {text : String} {leaf : Tree}
    (member : leaf ∈ (parse text).solidLeaves) (kind : leaf.kind = .identifier) :
    ((parse text).nodesEndingAt leaf.span.stop).any (·.tree.isCompleteClause) = false := by
  have tidy := parse_isTidy text
  rw [Tree.solidLeaves_eq, List.mem_filter] at member
  obtain ⟨inside, solid⟩ := member
  simp only [Bool.and_eq_true, Tree.isLeaf, List.isEmpty_iff, Bool.not_eq_true'] at solid
  have wide : leaf.span.start < leaf.span.stop := by simpa [Span.isEmpty] using solid.2
  rw [List.any_eq_false]
  intro clause ending complete
  obtain ⟨visited, stops⟩ := List.mem_filter.mp ending
  have among : clause.tree ∈ (parse text).subtrees := List.mem_map_of_mem visited
  have stop : clause.tree.span.stop = leaf.span.stop := beq_iff_eq.mp stops
  -- The clause ends with a leaf as well, and two leaves with the same end are one.
  obtain ⟨other, below, bare, named, plain, ends⟩ := clause.tree.isSealed_of_closes
    (isWhole_of_isCompleteClause among complete) (Tree.closes_of_isCompleteClause complete)
  have member := Tree.mem_subtrees_trans among below
  have filled : other.span.start < other.span.stop := by
    obtain ⟨apart, empty⟩ := tidy other member
    have order := apart.le
    cases size : other.span.isEmpty with
    | true =>
      rw [empty bare size] at plain
      cases plain
    | false => simpa [Span.isEmpty] using size
  have same := Tree.eq_of_stop_eq tidy member inside bare solid.1 filled wide (ends.trans stop)
  exact named (same ▸ kind)

end Endings

/-- The context behind further white space. -/
def Context.afterBlank : Context → Context
  -- A name that white space follows is no longer being typed.
  | partialClauseStart _ => fallback
  | partialAfterNot _ => fallback
  | context => context

/-- An answer that further white space makes no difference to. -/
def Steady (answer : Option Context) : Prop :=
  ∀ context ∈ answer, context.afterBlank = context

section Rules

/-- Steady answers of a rule are steady where it is asked about some leaf or about none. -/
theorem Steady.bind {before : Option Visit} {rule : Visit → Option Context}
    (each : ∀ visit, Steady (rule visit)) : Steady (before.bind rule) := by
  -- An answer comes from some leaf, and there it is steady.
  intro context answers
  obtain ⟨visit, -, answered⟩ := Option.bind_eq_some_iff.mp answers
  exact each visit context answered

/-- A steady rule goes before others, on both sides of the white space. -/
theorem Steady.orElse {first rest later : Option Context} (steady : Steady first)
    (same : later.getD .fallback = (rest.getD .fallback).afterBlank) :
    (first <|> later).getD .fallback = ((first <|> rest).getD .fallback).afterBlank := by
  -- A steady answer is the same behind white space, and without one the next rule decides.
  cases first with
  | none => simpa using same
  | some context => simpa using (steady context rfl).symm

variable {source : List Char}

/-- Behind the parenthesis or a comma of a list white space makes no difference. -/
theorem steady_listValueStart? (visit : Visit) : Steady (visit.listValueStart? source) := by
  -- The rule has one answer, for lists, and it says nothing about blanks.
  intro context answers
  rw [Option.mem_def] at answers
  unfold Visit.listValueStart? at answers
  split at answers
  · simp only [Option.ite_none_right_eq_some, Option.some.injEq] at answers
    rw [← answers.2]
    rfl
  · cases answers

/-- Behind a negation white space makes no difference. -/
theorem steady_afterNot? (visit : Visit) : Steady visit.afterNot? := by
  -- The rule has one answer, and it says nothing about blanks.
  intro context answers
  simp only [Visit.afterNot?, Option.mem_def, Option.ite_none_right_eq_some, Option.some.injEq]
    at answers
  rw [← answers.2]
  rfl

/-- Behind a declared name white space makes no difference. -/
theorem steady_afterField? (language : Language) (visit : Visit) :
    Steady (visit.afterField? language source) := by
  -- The rule has one answer, and it says nothing about blanks.
  intro context answers
  obtain ⟨name, -, answers⟩ := Option.bind_eq_some_iff.mp answers
  simp only [Option.ite_none_right_eq_some, Option.some.injEq] at answers
  rw [← answers.2]
  rfl

/-- Behind the first word of NOT IN white space makes no difference. -/
theorem steady_pendingNotIn? (tree : Tree) (language : Language) (visit : Visit) :
    Steady (visit.pendingNotIn? tree language source) := by
  -- The rule has one answer, and it says nothing about blanks.
  intro context answers
  simp only [Visit.pendingNotIn?, Option.mem_def, Option.ite_none_right_eq_some,
    Option.bind_eq_bind, Option.bind_eq_some_iff, Option.some.injEq] at answers
  obtain ⟨-, leaf, -, name, -, comparison, -, field, -, -, rfl⟩ := answers
  rfl

/-- Behind an operator white space makes no difference. -/
theorem steady_afterOperator? (visit : Visit) : Steady (visit.afterOperator? source) := by
  -- Both answers, for lists and for values, say nothing about blanks.
  intro context answers
  obtain ⟨comparison, -, answers⟩ := Option.bind_eq_some_iff.mp answers
  split at answers
  · split at answers
    · rw [← Option.some.inj answers]
      rfl
    · simp only [Option.ite_none_right_eq_some, Option.some.injEq] at answers
      rw [← answers.2]
      rfl
  · cases answers

/-- Where a name is being typed, white space ends it. -/
theorem partialClause?_eq_some {visit : Visit} {cursor : Nat} {context : Context}
    (answers : visit.partialClause? source cursor = some context) :
    visit.kind = .identifier ∧ context.afterBlank = .fallback := by
  -- The rule answers half-typed names only, and behind a blank a name is no longer half typed.
  obtain ⟨name, named, answers⟩ := Option.bind_eq_some_iff.mp answers
  refine ⟨kind_of_fieldName? named, ?_⟩
  simp only [Option.bind_eq_bind, Option.bind_eq_some_iff, Option.ite_none_right_eq_some]
    at answers
  obtain ⟨comparison, -, primary, -, -, answers⟩ := answers
  split at answers <;> rw [← Option.some.inj answers] <;> rfl

end Rules

section Cursor

variable {text : String} {front gap back : List Char}

/-- A leaf under a cursor holds at least the byte before it. -/
theorem of_leafAt? {tree : Tree} {cursor : Nat} {visit : Visit}
    (found : tree.leafAt? cursor = some visit) :
    visit.tree ∈ tree.solidLeaves ∧ visit.span.start < cursor ∧ cursor ≤ visit.span.stop := by
  -- The leaf at a cursor is solid and begins before the cursor.
  obtain ⟨visited, solid, under⟩ := Tree.visit_leafAt? found
  exact ⟨List.mem_map_of_mem (List.mem_filter.mpr ⟨visited, solid⟩), under⟩

/-- A leaf under a cursor that ends there is the last leaf before the cursor. -/
theorem leafEndingAt?_of_leafAt? {tree : Tree} {cursor : Nat} {visit : Visit}
    (found : tree.leafAt? cursor = some visit) (ends : visit.span.stop = cursor) :
    tree.leafEndingAt? cursor = some visit := by
  have last := @getLast?_filter_and _ _ _ (Visit.endsAt cursor) _ found (beq_iff_eq.mpr ends)
  rw [Tree.leafEndingAt?, ← last]
  -- A solid leaf that ends at the cursor has the cursor behind its first byte.
  refine congrArg List.getLast? (List.filter_congr fun other _ => ?_)
  rw [Bool.eq_iff_iff]
  simp only [Visit.isLeafEndingAt, Visit.isLeafAt, Visit.isSolidLeaf, Visit.endsAt, Span.isEmpty,
    Bool.and_eq_true, Bool.not_eq_true', decide_eq_true_eq, decide_eq_false_iff_not, beq_iff_eq]
  constructor
  · rintro ⟨⟨bare, wide⟩, stop⟩
    exact ⟨⟨⟨⟨bare, wide⟩, by omega⟩, by omega⟩, stop⟩
  · rintro ⟨⟨⟨solid, -⟩, -⟩, stop⟩
    exact ⟨solid, stop⟩

/-- Behind white space no name is being typed. -/
theorem partialClause?_behind_blank (whole : text.toList = front ++ (gap ++ back))
    (filled : gap ≠ []) (blank : ∀ c ∈ gap, isBlank c = true) :
    ((parse text).leafAt? (byteLength (front ++ gap))).bind
      (·.partialClause? text.toList (byteLength (front ++ gap))) = none := by
  rw [Option.eq_none_iff_forall_ne_some]
  intro context answers
  obtain ⟨visit, found, answered⟩ := Option.bind_eq_some_iff.mp answers
  obtain ⟨member, begins, ends⟩ := of_leafAt? found
  obtain ⟨before, body, after, same, span, solid⟩ :=
    solidAt_of_leaf member (partialClause?_eq_some answered).1
  have start : visit.span.start = byteLength before := congrArg Span.start span
  have stop : visit.span.stop = byteLength before + byteLength body := congrArg Span.stop span
  -- The last blank would belong to the name.
  obtain ⟨most, last, rfl⟩ := List.eq_nil_or_concat gap |>.resolve_left filled
  rw [List.concat_eq_append] at blank whole begins ends
  simp only [byteLength_append, byteLength] at begins ends
  have positive := last.utf8Size_pos
  have split : before ++ (body ++ after) = (front ++ most) ++ last :: back := by
    rw [← same, whole]
    simp
  have inside : last ∈ body := by
    apply mem_of_overlap split
    · rw [byteLength_append]
      omega
    · rw [byteLength_append]
      omega
  have space := blank last (by simp)
  rw [solid last inside] at space
  cases space

/-- A name that is being typed in front of white space ends there. -/
theorem stop_before_blank (whole : text.toList = front ++ (gap ++ back)) (filled : gap ≠ [])
    (blank : ∀ c ∈ gap, isBlank c = true) {visit : Visit}
    (found : (parse text).leafAt? (byteLength front) = some visit)
    (kind : visit.kind = .identifier) :
    visit.span.stop = byteLength front ∧ trimEnd front = front := by
  obtain ⟨member, begins, ends⟩ := of_leafAt? found
  obtain ⟨before, body, after, same, span, solid⟩ := solidAt_of_leaf member kind
  have start : visit.span.start = byteLength before := congrArg Span.start span
  have stop : visit.span.stop = byteLength before + byteLength body := congrArg Span.stop span
  have final : visit.span.stop = byteLength front := by
    apply Nat.le_antisymm _ ends
    apply Nat.le_of_not_lt
    intro further
    -- The first blank would belong to the name.
    obtain ⟨first, rest, rfl⟩ := List.exists_cons_of_ne_nil filled
    have positive := first.utf8Size_pos
    have inside : first ∈ body :=
      mem_of_overlap (same.symm.trans whole) (by omega) (by omega)
    have space := blank first (by simp)
    rw [solid first inside] at space
    cases space
  refine ⟨final, ?_⟩
  -- So the text before the white space ends with the name.
  have cut : front = before ++ body := by
    have left := takeBytes_append front (gap ++ back)
    have right := takeBytes_append (before ++ body) after
    rw [← whole] at left
    rw [List.append_assoc, ← same, byteLength_append, ← stop, final, left] at right
    exact Option.some.inj right
  have named : body ≠ [] := by
    rintro rfl
    simp only [byteLength] at stop
    omega
  obtain ⟨most, last, rfl⟩ := List.eq_nil_or_concat body |>.resolve_left named
  have kept := @trimEnd_append front [] (by simpa [cut] using solid last (by simp)) (by simp)
  simpa using kept

end Cursor

/--
White space before a cursor makes no difference to its context, except that it ends a name that is
being typed.

The text between the two cursors is white space; what else stands in the text, and whether it is a
query, does not matter.
-/
theorem classify_afterBlank (language : Language) (text : String) {first second : Nat}
    {gap : List Char} (forward : first < second)
    (between : sliceBytes first second text.toList = some gap)
    (blank : ∀ c ∈ gap, isBlank c = true) :
    classify language text second = (classify language text first).afterBlank := by
  obtain ⟨front, back, whole, rfl, size⟩ := exists_of_sliceBytes between
  have filled : gap ≠ [] := by
    rintro rfl
    simp only [byteLength] at size
    omega
  obtain rfl : byteLength (front ++ gap) = second := by rw [byteLength_append, size]
  have ahead : text.toList = (front ++ gap) ++ back := by rw [whole, List.append_assoc]
  -- Both cursors are where they are said to be, with the same solid text before them.
  have floor : floorBoundary (byteLength front) text.toList = byteLength front := by
    rw [whole, floorBoundary_append]
  have floor' : floorBoundary (byteLength (front ++ gap)) text.toList =
      byteLength (front ++ gap) := by
    rw [ahead, floorBoundary_append]
  have solid : solidLength text.toList (byteLength front) = byteLength (trimEnd front) := by
    rw [whole, solidLength_append]
  have solid' : solidLength text.toList (byteLength (front ++ gap)) =
      byteLength (trimEnd front) := by
    rw [ahead, solidLength_append, trimEnd_append_blank front blank]
  simp only [classify, classifyIn, floor, floor', solid, solid',
    partialClause?_behind_blank whole filled blank]
  have steady (holds : Prop) [Decidable holds] {context : Context}
      (kept : context.afterBlank = context) : Steady (if holds then some context else none) := by
    intro other answers
    rw [Option.mem_def, Option.ite_none_right_eq_some] at answers
    rw [← Option.some.inj answers.2, kept]
  -- The rules before the one for names being typed, one by one.
  refine (Steady.bind steady_listValueStart?).orElse ?_
  refine (steady _ rfl).orElse ?_
  refine (Steady.bind steady_afterNot?).orElse ?_
  refine (Steady.bind (steady_afterField? language)).orElse ?_
  refine (Steady.bind (steady_pendingNotIn? (parse text) language)).orElse ?_
  cases answers : ((parse text).leafAt? (byteLength front)).bind
      (·.partialClause? text.toList (byteLength front)) with
  | none =>
    -- No name is being typed on either side.
    have silent : Steady none := by
      intro other answers
      cases answers
    refine silent.orElse ?_
    refine (Steady.bind steady_afterOperator?).orElse ?_
    split <;> rfl
  | some context =>
    -- The name ends in front of the white space, where neither an operator nor a clause does.
    obtain ⟨visit, found, answered⟩ := Option.bind_eq_some_iff.mp answers
    obtain ⟨kind, ended⟩ := partialClause?_eq_some answered
    obtain ⟨stop, kept⟩ := stop_before_blank whole filled blank found kind
    have last := leafEndingAt?_of_leafAt? found stop
    have clauses := nodesEndingAt_of_identifier (of_leafAt? found).1 kind
    have operator : visit.afterOperator? text.toList = none :=
      afterOperator?_eq_none (by simp [kind]) (by simp [kind])
    have place : visit.tree.span.stop = byteLength front := stop
    rw [place] at clauses
    simp [kept, last, operator, clauses, ended]

/-- A negated name that nothing is declared for, and a whole clause in front of stray marks. -/
def strayText : String :=
  "NOT lev \t AND owner = \"a  b\"  ) ("

/-- White space ends the name that is being typed, and keeps the cursor behind the whole clause. -/
theorem strayText_afterBlank :
    (sliceBytes 7 10 strayText.toList = some [' ', '\t', ' '] ∧
      classify (.new "1") strayText 7 = .partialAfterNot "lev" ∧
      classify (.new "1") strayText 10 = .fallback) ∧
    (sliceBytes 28 30 strayText.toList = some [' ', ' '] ∧
      classify (.new "1") strayText 28 = .clauseBoundary ∧
      classify (.new "1") strayText 30 = .clauseBoundary) := by
  -- Both gaps and both places before them are computed; the places behind them follow.
  have name : classify (.new "1") strayText 7 = .partialAfterNot "lev" := by decide +kernel
  have clause : classify (.new "1") strayText 28 = .clauseBoundary := by decide +kernel
  have behind : sliceBytes 7 10 strayText.toList = some [' ', '\t', ' '] := by decide +kernel
  have between : sliceBytes 28 30 strayText.toList = some [' ', ' '] := by decide +kernel
  refine ⟨⟨behind, name, ?_⟩, between, clause, ?_⟩
  · rw [classify_afterBlank (.new "1") strayText (by decide) behind
      (List.all_eq_true.mp rfl), name]
    rfl
  · rw [classify_afterBlank (.new "1") strayText (by decide) between
      (List.all_eq_true.mp rfl), clause]
    rfl

end FilterLang
