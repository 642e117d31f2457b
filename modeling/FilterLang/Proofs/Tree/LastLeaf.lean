import FilterLang.Proofs.Tree.Order

/-! The last leaf of a tree that holds at least one byte. -/

namespace FilterLang

namespace Tree

/-- The last leaf below some siblings that holds at least one byte, with its ancestors. -/
def lastLeaf? (above trees : List Tree) : Option Visit :=
  ((visitsOfAll above trees).filter (·.isSolidLeaf)).getLast?

/-- No tree has no leaf. -/
@[simp] theorem lastLeaf?_nil (above : List Tree) : lastLeaf? above [] = none := rfl

/-- The last leaf is one of the last tree, if that has one. -/
theorem lastLeaf?_cons (above : List Tree) (tree : Tree) (trees : List Tree) :
    lastLeaf? above (tree :: trees) = (lastLeaf? above trees).or (lastLeaf? above [tree]) := by
  simp [lastLeaf?, visitsOfAll, List.getLast?_append]

/-- The last of several trees is looked at first. -/
theorem lastLeaf?_cons_cons (above : List Tree) (first second : Tree) (rest : List Tree) :
    lastLeaf? above (first :: second :: rest)
      = (lastLeaf? above (second :: rest)).or (lastLeaf? above [first]) :=
  lastLeaf?_cons above first (second :: rest)

/-- The last leaf is one of the trees at the back, if these have one. -/
theorem lastLeaf?_append (above front back : List Tree) :
    lastLeaf? above (front ++ back) = (lastLeaf? above back).or (lastLeaf? above front) := by
  -- Induction on the front; what is behind is asked first.
  induction front with
  | nil => simp
  | cons tree front ih =>
    rw [List.cons_append, lastLeaf?_cons, ih, lastLeaf?_cons above tree front, Option.or_assoc]

/-- A leaf that holds at least one byte is its own last leaf. -/
theorem lastLeaf?_leaf {kind : NodeKind} {span : Span} (filled : span.start < span.stop)
    (above : List Tree) : lastLeaf? above [leaf kind span] = some ⟨leaf kind span, above⟩ := by
  -- The leaf has width, so it is solid.
  have wide : span.isEmpty = false := by
    simpa [Span.isEmpty] using filled
  simp [lastLeaf?, leaf, visitsOfAll, visitsUnder, Visit.isSolidLeaf, Visit.span, isLeaf, Tree.span,
    wide]

end Tree

/-- What is missing has no leaf that holds a byte. -/
@[simp] theorem lastLeaf?_missing (above : List Tree) (textEnd : Nat) (what : String)
    (tokens : List Token) : Tree.lastLeaf? above [missing textEnd what tokens] = none := by
  -- A gap has no width, so it is passed over.
  simp [Tree.lastLeaf?, missing, Tree.expecting, Tree.leaf, Tree.visitsOfAll, Tree.visitsUnder,
    Visit.isSolidLeaf, Visit.span, Tree.span, Span.isEmpty, Span.empty]

/-- The last leaf of an inner node is the last one below it. -/
theorem lastLeaf?_node {kind : NodeKind} {span : Span} {children : List Tree}
    (filled : children ≠ []) (above : List Tree) :
    Tree.lastLeaf? above [.node kind span children]
      = Tree.lastLeaf? (.node kind span children :: above) children := by
  -- A node with children is no leaf itself.
  have bare : (⟨.node kind span children, above⟩ : Visit).isSolidLeaf = false := by
    simp [Visit.isSolidLeaf, Tree.isLeaf, filled]
  simp [Tree.lastLeaf?, Tree.visitsOfAll, Tree.visitsUnder, bare]

/-- The last leaf of an inner node is the last one below it. -/
theorem lastLeaf?_inner {kind : NodeKind} {children : List Tree} (filled : children ≠ [])
    (above : List Tree) : Tree.lastLeaf? above [inner kind children]
      = Tree.lastLeaf? (inner kind children :: above) children := by
  rw [inner_eq_node, lastLeaf?_node filled]

section Found

variable {above : List Tree} {visit : Visit}

/-- The last leaf below an inner node is the last one of the node. -/
theorem lastLeaf?_of_inner {kind : NodeKind} {children : List Tree}
    (found : Tree.lastLeaf? (inner kind children :: above) children = some visit) :
    Tree.lastLeaf? above [inner kind children] = some visit := by
  -- A leaf has been found, so there are children.
  have filled : children ≠ [] := by
    rintro rfl
    cases found
  rw [lastLeaf?_inner filled, found]

/-- The last leaf of the last tree is the last one of all. -/
theorem lastLeaf?_of_last (front : List Tree) {last : Tree}
    (found : Tree.lastLeaf? above [last] = some visit) :
    Tree.lastLeaf? above (front ++ [last]) = some visit := by
  rw [Tree.lastLeaf?_append, found, Option.some_or]

/-- What is missing at the end does not hide the last leaf before it. -/
theorem lastLeaf?_of_missing (front : List Tree) {textEnd : Nat} {what : String}
    (found : Tree.lastLeaf? above front = some visit) :
    Tree.lastLeaf? above (front ++ [missing textEnd what []]) = some visit := by
  rw [Tree.lastLeaf?_append, lastLeaf?_missing, Option.none_or, found]

end Found

/-- The last of all is the last one of a sort, if it is of the sort. -/
theorem getLast?_filter_and {α : Type} {list : List α} {first second : α → Bool} {final : α}
    (last : (list.filter first).getLast? = some final) (sort : second final = true) :
    (list.filter fun each => first each && second each).getLast? = some final := by
  -- Sorting out in two steps keeps the last element in both.
  obtain ⟨front, split⟩ := List.getLast?_eq_some_iff.mp last
  have both : list.filter (fun each => first each && second each)
      = (list.filter first).filter second := by
    rw [List.filter_filter]
    simp only [Bool.and_comm]
  rw [both, split, List.filter_append]
  simp [sort]

namespace Tree

/-- The last leaf of a tree is the last one that is visited. -/
theorem lastLeaf?_eq (tree : Tree) :
    lastLeaf? [] [tree] = (tree.visits.filter (·.isSolidLeaf)).getLast? := by
  rw [lastLeaf?, visitsOfAll, visitsOfAll, List.append_nil, visits]

/-- The last leaf holds at least one byte. -/
theorem filled_of_lastLeaf? {tree : Tree} {visit : Visit}
    (last : lastLeaf? [] [tree] = some visit) : visit.span.start < visit.span.stop := by
  -- Only leaves with width are looked at.
  have solid := (List.mem_filter.mp (List.mem_of_getLast? last)).2
  simp only [Visit.isSolidLeaf, Bool.and_eq_true, Bool.not_eq_true'] at solid
  have wide : ¬ visit.span.stop ≤ visit.span.start := of_decide_eq_false solid.2
  omega

/-- The leaf that ends where the last leaf ends is the last leaf. -/
theorem leafEndingAt?_eq {tree : Tree} {visit : Visit} (last : lastLeaf? [] [tree] = some visit) :
    tree.leafEndingAt? visit.span.stop = some visit := by
  -- The last of all solid leaves is the last of those that end where it does.
  rw [lastLeaf?_eq] at last
  exact getLast?_filter_and last BEq.rfl

/-- Where there is no leaf, none ends anywhere. -/
theorem leafEndingAt?_eq_none {tree : Tree} (last : lastLeaf? [] [tree] = none) (offset : Nat) :
    tree.leafEndingAt? offset = none := by
  -- The search among all leaves is empty, and so is every search among fewer.
  rw [lastLeaf?_eq, List.getLast?_eq_none_iff, List.filter_eq_nil_iff] at last
  rw [leafEndingAt?, List.getLast?_eq_none_iff, List.filter_eq_nil_iff]
  intro visit visited
  simp [Visit.isLeafEndingAt, last visit visited]

/-- The leaf at the end of the last leaf is the last leaf. -/
theorem leafAt?_eq {tree : Tree} {visit : Visit} (last : lastLeaf? [] [tree] = some visit) :
    tree.leafAt? visit.span.stop = some visit := by
  -- The last of all solid leaves is the last of those around its own end.
  have filled := filled_of_lastLeaf? last
  rw [lastLeaf?_eq] at last
  exact getLast?_filter_and (getLast?_filter_and last (decide_eq_true filled))
    (decide_eq_true (Nat.le_refl _))

/-- Behind all leaves there is none. -/
theorem leafAt?_eq_none {tree : Tree} {offset : Nat}
    (before : ∀ leaf ∈ tree.solidLeaves, leaf.span.stop < offset) : tree.leafAt? offset = none := by
  -- Every solid leaf ends too early.
  rw [leafAt?, List.getLast?_eq_none_iff, List.filter_eq_nil_iff]
  intro visit visited found
  simp only [Visit.isLeafAt, Bool.and_eq_true] at found
  have leaf : visit.tree ∈ tree.solidLeaves :=
    List.mem_map_of_mem (List.mem_filter.mpr ⟨visited, found.1.1⟩)
  exact absurd (of_decide_eq_true found.2) (Nat.not_le.mpr (before visit.tree leaf))

/-- The nodes of several siblings are those of each. -/
theorem mem_visitsOfAll {above trees : List Tree} {visit : Visit} :
    visit ∈ visitsOfAll above trees ↔ ∃ tree ∈ trees, visit ∈ visitsUnder above tree := by
  -- A visit of several trees is one of the first or of the others.
  induction trees with
  | nil => simp [visitsOfAll]
  | cons tree trees ih => simp [visitsOfAll, ih]

/-- The ancestors of a tree's nodes end with what stands above the tree. -/
theorem above_suffix {tree : Tree} {above : List Tree} {visit : Visit}
    (visited : visit ∈ tree.visitsUnder above) : above <:+ visit.ancestors := by
  -- Induction on the tree: each step down puts one more node in front of the path.
  induction tree using Tree.induction generalizing above with
  | node kind span children ih =>
    rw [visitsUnder, List.mem_cons] at visited
    rcases visited with rfl | deeper
    · exact List.suffix_refl above
    · obtain ⟨child, below, visited⟩ := mem_visitsOfAll.mp deeper
      exact (List.suffix_cons _ above).trans (ih child below visited)

/-- What stands above a tree stands above all of its nodes. -/
theorem above_ancestors {tree : Tree} {above : List Tree} {visit : Visit}
    (visited : visit ∈ tree.visitsUnder above) :
    ∀ ancestor ∈ above, ancestor ∈ visit.ancestors :=
  fun _ member => (above_suffix visited).subset member

/-- What stands above some trees stands above their last leaf. -/
theorem above_lastLeaf? {above trees : List Tree} {visit : Visit}
    (found : lastLeaf? above trees = some visit) :
    ∀ ancestor ∈ above, ancestor ∈ visit.ancestors := by
  -- The path of a visit ends with what lies above all of the trees.
  have visited := (List.mem_filter.mp (List.mem_of_getLast? found)).1
  obtain ⟨tree, -, inside⟩ := mem_visitsOfAll.mp visited
  exact above_ancestors inside

/-- The ancestors that are recorded in a tree are nodes of the tree or stand above it. -/
theorem ancestors_subtrees {tree : Tree} {above : List Tree} {visit : Visit}
    (visited : visit ∈ tree.visitsUnder above) :
    ∀ ancestor ∈ visit.ancestors, ancestor ∈ above ∨ ancestor ∈ tree.subtrees := by
  -- One step down, the node itself joins what stands above.
  induction tree using Tree.induction generalizing above with
  | node kind span children ih =>
    intro ancestor member
    rw [visitsUnder, List.mem_cons] at visited
    rcases visited with rfl | deeper
    · exact .inl member
    · obtain ⟨child, below, visited⟩ := mem_visitsOfAll.mp deeper
      rw [subtrees_node, List.mem_cons, List.mem_flatMap]
      rcases ih child below visited ancestor member with up | down
      · rcases List.mem_cons.mp up with rfl | higher
        · exact .inr (.inl rfl)
        · exact .inl higher
      · exact .inr (.inr ⟨child, below, down⟩)

/-- The leaf that is found before an offset is a solid node of the tree that ends there. -/
theorem visit_leafEndingAt? {tree : Tree} {offset : Nat} {visit : Visit}
    (found : tree.leafEndingAt? offset = some visit) :
    visit ∈ tree.visits ∧ visit.isSolidLeaf = true ∧ visit.span.stop = offset := by
  -- What has been found passed the test.
  obtain ⟨visited, ends⟩ := List.mem_filter.mp (List.mem_of_getLast? found)
  simp only [Visit.isLeafEndingAt, Visit.endsAt, Bool.and_eq_true, beq_iff_eq] at ends
  exact ⟨visited, ends⟩

/-- The leaf that is found at an offset is a solid node of the tree that begins before it. -/
theorem visit_leafAt? {tree : Tree} {offset : Nat} {visit : Visit}
    (found : tree.leafAt? offset = some visit) :
    visit ∈ tree.visits ∧ visit.isSolidLeaf = true ∧ visit.span.start < offset ∧
      offset ≤ visit.span.stop := by
  -- What has been found passed the test.
  obtain ⟨visited, under⟩ := List.mem_filter.mp (List.mem_of_getLast? found)
  simp only [Visit.isLeafAt, Bool.and_eq_true, decide_eq_true_eq] at under
  exact ⟨visited, under.1.1, under.1.2, under.2⟩

/-- What stands below a visited node is visited with the node as its nearest ancestor. -/
theorem visit_child {tree : Tree} {above : List Tree} {visit : Visit}
    (visited : visit ∈ tree.visitsUnder above) {child : Tree}
    (below : child ∈ visit.tree.children) :
    ⟨child, visit.tree :: visit.ancestors⟩ ∈ tree.visitsUnder above := by
  induction tree using Tree.induction generalizing above with
  | node kind span children ih =>
    rw [visitsUnder, List.mem_cons] at visited ⊢
    rcases visited with rfl | deeper
    · -- The walk over the children begins each of them with itself.
      have first : ⟨child, .node kind span children :: above⟩ ∈
          visitsUnder (.node kind span children :: above) child := by
        cases child
        simp [visitsUnder]
      exact .inr (mem_visitsOfAll.mpr ⟨child, below, first⟩)
    · obtain ⟨other, member, visited⟩ := mem_visitsOfAll.mp deeper
      exact .inr (mem_visitsOfAll.mpr ⟨other, member, ih other member visited⟩)

/-- A visited node is the one that the walk began with, or stands below a visited node. -/
theorem eq_or_below_visit {tree : Tree} {above : List Tree} {visit : Visit}
    (visited : visit ∈ tree.visitsUnder above) :
    visit = ⟨tree, above⟩ ∨ ∃ parent rest, visit.ancestors = parent :: rest ∧
      visit.tree ∈ parent.children ∧ ⟨parent, rest⟩ ∈ tree.visitsUnder above := by
  induction tree using Tree.induction generalizing above with
  | node kind span children ih =>
    rw [visitsUnder, List.mem_cons] at visited
    rcases visited with rfl | deeper
    · exact .inl rfl
    · obtain ⟨child, below, visited⟩ := mem_visitsOfAll.mp deeper
      rw [visitsUnder]
      -- The walk over a child begins with the child, which stands below this node.
      rcases ih child below visited with rfl | ⟨parent, rest, path, inside, visited⟩
      · exact .inr ⟨.node kind span children, above, rfl, below, List.mem_cons_self⟩
      · exact .inr ⟨parent, rest, path, inside,
          List.mem_cons_of_mem _ (mem_visitsOfAll.mpr ⟨child, below, visited⟩)⟩

/-- The nearest ancestor of a visited node is visited itself, and has the node below it. -/
theorem visit_parent {tree : Tree} {visit : Visit} (visited : visit ∈ tree.visits) {parent : Tree}
    {rest : List Tree} (path : visit.ancestors = parent :: rest) :
    ⟨parent, rest⟩ ∈ tree.visits ∧ visit.tree ∈ parent.children := by
  -- A visit other than the root's own is one of a child of a visited node.
  rcases eq_or_below_visit visited with rfl | ⟨other, others, same, below, visited⟩
  · cases path
  · rw [path] at same
    cases same
    exact ⟨visited, below⟩

end Tree

/-- A node that ends where its last child does. -/
def Tree.IsFlush (tree : Tree) : Prop :=
  ∀ last ∈ tree.children.getLast?, tree.span.stop = last.span.stop

/-- A node over successive trees ends where the last of them does. -/
theorem isFlush_inner {lower upper : Nat} {trees : List Tree} (kind : NodeKind)
    (apart : Successive lower trees upper) : (inner kind trees).IsFlush := by
  intro last final
  rw [inner_children] at final
  obtain ⟨front, rfl⟩ := List.getLast?_eq_some_iff.mp final
  have filled : front ++ [last] ≠ [] := by simp
  have inside := (@Successive.inner _ _ _ kind filled apart).2.bounds last (by simp)
  -- No tree reaches beyond the last one, so neither does the node.
  have reach : ∀ tree ∈ front ++ [last],
      tree.span.start ≤ last.span.stop ∧ tree.span.stop ≤ last.span.stop := by
    have order := List.pairwise_append.mp apart.pairwise
    have forward := apart.bounds
    intro tree member
    have across := forward tree member
    have whole := forward last (by simp)
    rcases List.mem_append.mp member with early | same
    · have before := order.2.2 tree early last (by simp)
      omega
    · obtain rfl := List.mem_singleton.mp same
      omega
  have ends := @inner_ends (· ≤ last.span.stop) kind _ filled reach
  omega

/-- Where nothing is missing, a tree has a leaf and ends where its last leaf does. -/
theorem Tree.exists_lastLeaf? {tree : Tree} (tidy : ∀ sub ∈ tree.subtrees, sub.IsTidy)
    (flush : ∀ sub ∈ tree.subtrees, sub.IsFlush) (clean : tree.hasError = false)
    (above : List Tree) :
    ∃ visit, lastLeaf? above [tree] = some visit ∧ visit.span.stop = tree.span.stop := by
  induction tree using Tree.induction generalizing above with
  | node kind span children ih =>
    rw [subtrees_node, List.forall_mem_cons] at tidy flush
    rw [hasError_node, Bool.or_eq_false_iff] at clean
    rcases List.eq_nil_or_concat children with rfl | ⟨front, last, rfl⟩
    · -- A leaf without a byte would be an error.
      have wide : span.start < span.stop := by
        have order : span.start ≤ span.stop := tidy.1.1
        cases empty : span.isEmpty with
        | true =>
          have error := tidy.1.2 rfl empty
          rw [kind_node, clean.1] at error
          cases error
        | false =>
          have apart : ¬ span.stop ≤ span.start := by simpa [Span.isEmpty] using empty
          omega
      exact ⟨_, lastLeaf?_leaf wide above, rfl⟩
    · rw [List.concat_eq_append] at *
      have member : last ∈ front ++ [last] := by simp
      have below : ∀ sub ∈ last.subtrees, sub ∈ (front ++ [last]).flatMap subtrees :=
        fun sub inside => List.mem_flatMap.mpr ⟨last, member, inside⟩
      have sound : last.hasError = false := by
        have all := clean.2
        simp only [List.any_append, List.any_cons, List.any_nil, Bool.or_false,
          Bool.or_eq_false_iff] at all
        exact all.2
      -- The last child ends where the node does, and it has a leaf.
      obtain ⟨visit, found, ends⟩ := ih last member
        (fun sub inside => tidy.2 sub (below sub inside))
        (fun sub inside => flush.2 sub (below sub inside)) sound
        (node kind span (front ++ [last]) :: above)
      refine ⟨visit, ?_, ?_⟩
      · rw [lastLeaf?_node (by simp), lastLeaf?_append, found, Option.some_or]
      · rw [ends]
        exact (flush.1 last (by simp)).symm

end FilterLang
