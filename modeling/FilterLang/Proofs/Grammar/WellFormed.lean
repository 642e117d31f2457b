import FilterLang.Proofs.Grammar.Layout
import FilterLang.Proofs.Grammar.Recording

/-! The tree of every text is well formed and keeps the whole text. -/

namespace FilterLang

section LeftOver

variable {textEnd : Nat} {rest : List Token}

/-- The mark over what is left lies between its first token and the end of the text. -/
theorem leftOver_successive (ordered : InOrder textEnd rest) :
    Successive (nextOffset textEnd rest) (leftOver rest) textEnd := by
  -- The last of tokens in order ends within the text.
  cases rest with
  | nil => exact Nat.le_refl _
  | cons first rest =>
    obtain ⟨wide, inside⟩ := ordered.reach
    exact ⟨Nat.le_refl _, Nat.le_of_lt wide, inside⟩

/-- What holds of a leaf over at least one byte holds of the mark over what is left. -/
theorem forall_leftOver {holds : Tree → Prop} (ordered : InOrder textEnd rest)
    (leaf : ∀ kind span, span.start < span.stop → (∃ token ∈ rest, token.span.start = span.start) →
      (∃ token ∈ rest, token.span.stop = span.stop) → holds (.leaf kind span)) :
    ∀ sub ∈ (leftOver rest).flatMap Tree.subtrees, holds sub := by
  -- The mark is the only tree, and a leaf.
  cases rest with
  | nil => simp [leftOver]
  | cons first rest =>
    have last : rest.getLastD first ∈ first :: rest := List.getLastD_mem_cons
    simp only [leftOver, Tree.expecting, List.flatMap_cons, List.flatMap_nil, List.append_nil]
    rw [Tree.forall_subtrees_leaf]
    exact leaf _ _ ordered.reach.1 ⟨first, by simp, rfl⟩ ⟨_, last, rfl⟩

/-- The mark over what is left is a solid leaf. -/
theorem leftOver_solidLeaves (ordered : InOrder textEnd rest) :
    (leftOver rest).flatMap Tree.solidLeaves = leftOver rest := by
  -- The mark has width, since the tokens under it have.
  cases rest with
  | nil => rfl
  | cons first rest =>
    simp only [leftOver, Tree.expecting, List.flatMap_cons, List.flatMap_nil, List.append_nil]
    exact Tree.solidLeaves_leaf ordered.reach.1

end LeftOver

/-- The tree of a text is a node over an expression and what that leaves of the tokens. -/
theorem exists_parse (text : String) : ∃ body rest,
    parse text = .node .query ⟨0, byteSize text⟩ (body :: leftOver rest) ∧
      Lays (byteSize text) [body] (tokenize text) rest := by
  -- The expression is a layout of the tokens that it reads.
  refine ⟨_, _, ?_, expression_isLaid maxNesting (tokenize text)⟩
  rw [parse, treeOf]

/-- Every node in the tree of a text has its children in order; no leaf but an error is empty. -/
theorem parse_isTidy (text : String) : ∀ sub ∈ (parse text).subtrees, sub.IsTidy := by
  obtain ⟨body, rest, same, laid⟩ := exists_parse text
  have ordered := inOrder_tokenize text
  have left := laid.inOrder ordered
  rw [same, Tree.subtrees_node, List.forall_mem_cons, List.flatMap_cons, List.forall_mem_append]
  refine ⟨⟨?_, by simp⟩, ?_, forall_leftOver left fun _ _ wide _ _ => Tree.isTidy_leaf wide⟩
  · -- The expression ends before what is left begins, and that ends with the text.
    obtain ⟨-, across, ends⟩ := laid.successive ordered
    exact ⟨Nat.zero_le _, across, (leftOver_successive left).weaken ends⟩
  · simpa using laid.isTidy ordered

/-- All spans in the tree of a text begin and end between characters. -/
theorem parse_boundaries (text : String) : ∀ sub ∈ (parse text).subtrees,
    Boundary text.toList sub.span.start ∧ Boundary text.toList sub.span.stop := by
  -- The root runs over the whole text, the body begins and ends
  -- with tokens, and so does the mark over what is left.
  obtain ⟨body, rest, same, laid⟩ := exists_parse text
  have last : Boundary text.toList (byteSize text) := boundary_byteLength text.toList
  have ends := boundaries_tokenize text
  have left := laid.inOrder (inOrder_tokenize text)
  have later : ∀ token ∈ rest, token ∈ tokenize text := laid.suffix.subset
  rw [same, Tree.subtrees_node, List.forall_mem_cons, List.flatMap_cons, List.forall_mem_append]
  refine ⟨⟨boundary_zero _, last⟩, by simpa using laid.forall_ends last ends, ?_⟩
  refine forall_leftOver left fun kind span wide begins stops => ?_
  obtain ⟨first, member, start⟩ := begins
  obtain ⟨final, among, stop⟩ := stops
  exact ⟨start ▸ (ends first (later first member)).1, stop ▸ (ends final (later final among)).2⟩

/--
The tree of a text is well formed and loses nothing of it.

The root is a query over the whole text. A reader that enters its nodes into a table as it goes gets
this tree: in its table every node but the root is listed once, by exactly its recorded parent,
which was entered later, and is reached from the root. Children lie within their parents and one
after the other, and only errors are leaves without a byte. The other leaves stand for the first
tokens, and one error, the last child of the root, for the rest.
-/
theorem parse_wellFormed (text : String) :
    ((parse text).kind = .query ∧ (parse text).span = ⟨0, byteSize text⟩) ∧
    (∃ root cells, recordedParse (maxNesting + 1) text = some (root, cells) ∧
      cells.IsRooted root ∧ (parse text).KeptIn cells root ∧
      cells.length = (parse text).subtrees.length) ∧
    (∀ sub ∈ (parse text).subtrees,
      (∀ child ∈ sub.children,
        sub.span.start ≤ child.span.start ∧ child.span.stop ≤ sub.span.stop) ∧
      (sub.children.Pairwise fun earlier later => earlier.span.stop ≤ later.span.start) ∧
      sub.span.start ≤ sub.span.stop ∧
      (sub.isLeaf = true → sub.span.isEmpty = true → sub.kind.isError = true)) ∧
    ∃ body leaves read unread, (parse text).children = body :: leftOver unread ∧
      tokenize text = read ++ unread ∧ StandFor leaves read ∧
      (parse text).solidLeaves = leaves ++ leftOver unread := by
  -- The table that the reader fills is the table of the tree.
  refine ⟨⟨rfl, rfl⟩, ⟨(parse text).top, (parse text).table, recordedParse_eq text,
    (parse text).isForest_table.isRooted, (parse text).keptIn_table, (parse text).length_table⟩,
    fun sub member => ?_, ?_⟩
  · obtain ⟨apart, filled⟩ := parse_isTidy text sub member
    refine ⟨fun child below => ?_, apart.pairwise, apart.le, fun bare => ?_⟩
    · obtain ⟨begins, -, ends⟩ := apart.bounds child below
      exact ⟨begins, ends⟩
    · exact filled (List.isEmpty_iff.mp bare)
  · obtain ⟨body, rest, same, laid⟩ := exists_parse text
    have ordered := inOrder_tokenize text
    obtain ⟨read, split, marks⟩ := laid.standFor ordered
    refine ⟨body, body.solidLeaves, read, rest, by rw [same]; rfl, split, by simpa using marks, ?_⟩
    rw [same, Tree.solidLeaves_node _ _ (by simp), List.flatMap_cons,
      leftOver_solidLeaves (laid.inOrder ordered)]

end FilterLang
