import FilterLang.Proofs.Tree.Subtrees

/-! Trees one after the other in a text, and the ends and the leaves of a node over them. -/

namespace FilterLang

/-- Trees that come one after the other between two offsets. -/
def Successive (lower : Nat) : List Tree → Nat → Prop
  | [], upper => lower ≤ upper
  | tree :: trees, upper =>
    lower ≤ tree.span.start ∧ tree.span.start ≤ tree.span.stop ∧
      Successive tree.span.stop trees upper

namespace Successive

variable {lower upper : Nat} {trees : List Tree}

/-- There is room for the same trees above a smaller offset. -/
theorem weaken {least : Nat} (below : least ≤ lower) (apart : Successive lower trees upper) :
    Successive least trees upper := by
  -- Only the first tree is measured against the lower bound.
  cases trees with
  | nil => exact Nat.le_trans below apart
  | cons tree trees => exact ⟨Nat.le_trans below apart.1, apart.2⟩

/-- There is room for the same trees below a greater offset. -/
theorem widen {greatest : Nat} (above : upper ≤ greatest) (apart : Successive lower trees upper) :
    Successive lower trees greatest := by
  -- Induction on the trees: only the last is measured against the upper bound.
  induction trees generalizing lower with
  | nil => exact Nat.le_trans apart above
  | cons tree trees ih => exact ⟨apart.1, apart.2.1, ih apart.2.2⟩

/-- The first of two lists of trees ends somewhere before the second begins. -/
theorem split {later : List Tree} (apart : Successive lower (trees ++ later) upper) :
    ∃ middle, Successive lower trees middle ∧ Successive middle later upper := by
  -- Induction on the trees in front; the bound between is where the last of them ends.
  induction trees generalizing lower with
  | nil => exact ⟨lower, Nat.le_refl _, apart⟩
  | cons tree trees ih =>
    obtain ⟨begins, across, behind⟩ := apart
    obtain ⟨middle, first, second⟩ := ih behind
    exact ⟨middle, ⟨begins, across, first⟩, second⟩

/-- The two offsets are in order. -/
theorem le (apart : Successive lower trees upper) : lower ≤ upper := by
  -- Induction on the trees, each of which begins and ends in order.
  induction trees generalizing lower with
  | nil => exact apart
  | cons tree trees ih =>
    obtain ⟨begins, across, later⟩ := apart
    have behind := ih later
    omega

/-- Each of the trees lies between the two offsets. -/
theorem bounds (apart : Successive lower trees upper) : ∀ tree ∈ trees,
    lower ≤ tree.span.start ∧ tree.span.start ≤ tree.span.stop ∧ tree.span.stop ≤ upper := by
  -- Induction on the trees; the bounds for the later ones lie within those for all.
  induction trees generalizing lower with
  | nil => simp
  | cons first trees ih =>
    obtain ⟨begins, across, later⟩ := apart
    rw [List.forall_mem_cons]
    refine ⟨⟨begins, across, later.le⟩, fun tree member => ?_⟩
    obtain ⟨left, middle, right⟩ := ih later tree member
    omega

/-- Each of the trees ends before any later one begins. -/
theorem pairwise (apart : Successive lower trees upper) :
    trees.Pairwise fun earlier later => earlier.span.stop ≤ later.span.start := by
  -- Induction on the trees: all later ones begin behind the first.
  induction trees generalizing lower with
  | nil => exact .nil
  | cons first trees ih =>
    have later := apart.2.2
    exact .cons (fun tree member => (later.bounds tree member).1) (ih later)

/-- A span that takes in successive trees keeps its start and reaches to the end of the last. -/
theorem cover (span : Span) (across : span.start ≤ span.stop)
    (apart : Successive span.stop trees upper) :
    (trees.foldl (fun span tree => span.cover tree.span) span).start = span.start ∧
      (trees.foldl (fun span tree => span.cover tree.span) span).stop ≤ upper ∧
      Successive span.stop trees
        (trees.foldl (fun span tree => span.cover tree.span) span).stop := by
  -- Induction on the trees: each moves the end of the cover to its own.
  induction trees generalizing span with
  | nil => exact ⟨rfl, apart, Nat.le_refl _⟩
  | cons tree trees ih =>
    obtain ⟨begins, forward, later⟩ := apart
    have joined : span.cover tree.span = ⟨span.start, tree.span.stop⟩ := by
      simp only [Span.cover, Span.mk.injEq]
      omega
    have ordered : span.start ≤ tree.span.stop := by omega
    rw [List.foldl_cons, joined]
    obtain ⟨left, right, behind⟩ := ih ⟨span.start, tree.span.stop⟩ ordered later
    exact ⟨left, right, begins, forward, behind⟩

/-- A node over successive trees lies between their offsets and has them in order within it. -/
theorem inner {kind : NodeKind} (filled : trees ≠ []) (apart : Successive lower trees upper) :
    Successive lower [inner kind trees] upper ∧
      Successive (inner kind trees).span.start trees (inner kind trees).span.stop := by
  -- The span of an inner node covers its first child and then all others.
  cases trees with
  | nil => exact absurd rfl filled
  | cons first trees =>
    obtain ⟨begins, across, later⟩ := apart
    obtain ⟨left, right, behind⟩ := cover first.span across later
    have reach := behind.le
    refine ⟨⟨?_, ?_, right⟩, ?_, across, behind⟩
    · exact left ▸ begins
    · exact left ▸ Nat.le_trans across reach
    · exact Nat.le_of_eq left

end Successive

/-- The leaves of a tree that hold at least one byte, from left to right. -/
def Tree.solidLeaves (tree : Tree) : List Tree :=
  (tree.visits.filter (·.isSolidLeaf)).map (·.tree)

/-- The solid leaves are found among the subtrees. -/
theorem Tree.solidLeaves_eq (tree : Tree) :
    tree.solidLeaves = tree.subtrees.filter fun sub => sub.isLeaf && !sub.span.isEmpty := by
  rw [solidLeaves, subtrees, List.filter_map]
  rfl

/-- The solid leaves of siblings come one after the other. -/
theorem Tree.flatMap_solidLeaves (trees : List Tree) :
    (trees.flatMap subtrees).filter (fun sub => sub.isLeaf && !sub.span.isEmpty)
      = trees.flatMap solidLeaves := by
  -- Leaves are picked in one tree after the other.
  induction trees with
  | nil => rfl
  | cons tree trees ih => simp [solidLeaves_eq, ih]

/-- A node with children leaves the leaves to them. -/
theorem Tree.solidLeaves_node {children : List Tree} (kind : NodeKind) (span : Span)
    (filled : children ≠ []) :
    (node kind span children).solidLeaves = children.flatMap solidLeaves := by
  -- A node with children is no leaf itself.
  have covers : (node kind span children).isLeaf = false := by
    simpa [isLeaf] using filled
  rw [solidLeaves_eq, subtrees_node, List.filter_cons, covers, Bool.false_and,
    if_neg Bool.false_ne_true, flatMap_solidLeaves]

/-- A leaf that holds at least one byte is its own solid leaf. -/
theorem Tree.solidLeaves_leaf {kind : NodeKind} {span : Span} (filled : span.start < span.stop) :
    (leaf kind span).solidLeaves = [leaf kind span] := by
  -- The leaf has width, so it is solid.
  have wide : span.isEmpty = false := by
    simpa [Span.isEmpty] using filled
  simp [solidLeaves_eq, leaf, isLeaf, Tree.span, wide]

/-- A mark of something missing holds no byte. -/
theorem solidLeaves_missing (textEnd : Nat) (what : String) (tokens : List Token) :
    (missing textEnd what tokens).solidLeaves = [] := by
  simp [Tree.solidLeaves_eq, missing, Tree.expecting, Tree.leaf, Tree.isLeaf, Tree.span,
    Span.isEmpty, Span.empty]

/-- A node whose children are in order within it; without children, only an error holds no byte. -/
def Tree.IsTidy (tree : Tree) : Prop :=
  Successive tree.span.start tree.children tree.span.stop ∧
    (tree.children = [] → tree.span.isEmpty = true → tree.kind.isError = true)

/-- A leaf that holds at least one byte is tidy. -/
theorem Tree.isTidy_leaf {kind : NodeKind} {span : Span} (filled : span.start < span.stop) :
    (leaf kind span).IsTidy := by
  -- The leaf has width, so nothing is asked of its kind.
  refine ⟨Nat.le_of_lt filled, fun _ bare => ?_⟩
  have order : span.stop ≤ span.start := of_decide_eq_true bare
  omega

/-- A tree is one of its subtrees. -/
theorem Tree.self_mem_subtrees (tree : Tree) : tree ∈ tree.subtrees := by
  cases tree with
  | node kind span children => simp

/-- The subtrees of a subtree are subtrees. -/
theorem Tree.mem_subtrees_trans {tree sub other : Tree} (inside : sub ∈ tree.subtrees)
    (below : other ∈ sub.subtrees) : other ∈ tree.subtrees := by
  -- Induction on the tree: a subtree is the tree itself or lies below a child.
  induction tree using Tree.induction with
  | node kind span children ih =>
    rw [subtrees_node, List.mem_cons] at inside
    rcases inside with rfl | deeper
    · exact below
    · obtain ⟨child, member, among⟩ := List.mem_flatMap.mp deeper
      rw [subtrees_node]
      exact List.mem_cons_of_mem _ (List.mem_flatMap.mpr ⟨child, member, ih child member among⟩)

/-- A child is a subtree. -/
theorem Tree.mem_subtrees_of_mem_children {tree child : Tree} (member : child ∈ tree.children) :
    child ∈ tree.subtrees := by
  -- The child is the first of its own subtrees.
  obtain ⟨kind, span, children⟩ := tree
  rw [subtrees_node]
  exact List.mem_cons_of_mem _ (List.mem_flatMap.mpr ⟨child, member, child.self_mem_subtrees⟩)

/-- In a tidy tree everything lies between the ends of the root. -/
theorem Tree.within {tree : Tree} (tidy : ∀ sub ∈ tree.subtrees, sub.IsTidy) :
    ∀ sub ∈ tree.subtrees, tree.span.start ≤ sub.span.start ∧
      sub.span.start ≤ sub.span.stop ∧ sub.span.stop ≤ tree.span.stop := by
  -- Induction on the tree: children lie within their parent, and what is below within the child.
  induction tree using Tree.induction with
  | node kind span children ih =>
    rw [subtrees_node, List.forall_mem_cons] at tidy ⊢
    obtain ⟨⟨apart, -⟩, below⟩ := tidy
    refine ⟨⟨Nat.le_refl _, apart.le, Nat.le_refl _⟩, fun sub deeper => ?_⟩
    obtain ⟨child, member, inside⟩ := List.mem_flatMap.mp deeper
    have outer := apart.bounds child member
    have inner := ih child member
      (fun sub among => below sub (List.mem_flatMap.mpr ⟨child, member, among⟩)) sub inside
    omega

/-- In a tidy tree no node begins before one that is listed ahead of it. -/
theorem Tree.starts_pairwise {tree : Tree} (tidy : ∀ sub ∈ tree.subtrees, sub.IsTidy) :
    tree.subtrees.Pairwise fun earlier later => earlier.span.start ≤ later.span.start := by
  have bounds := within tidy
  induction tree using Tree.induction with
  | node kind span children ih =>
    rw [subtrees_node, List.forall_mem_cons] at tidy bounds
    rw [subtrees_node]
    have below : ∀ child ∈ children, ∀ sub ∈ child.subtrees, sub.IsTidy :=
      fun child member sub inside =>
        tidy.2 sub (List.mem_flatMap.mpr ⟨child, member, inside⟩)
    refine .cons (fun sub deeper => (bounds.2 sub deeper).1) (List.pairwise_flatMap.mpr ⟨?_, ?_⟩)
    · exact fun child member => ih child member (below child member) (within (below child member))
    · -- What lies in an earlier child ends before a later child begins.
      refine tidy.1.1.pairwise.imp_of_mem fun {first second} left right apart => ?_
      intro earlier inFirst later inSecond
      have before := within (below first left) earlier inFirst
      have behind := within (below second right) later inSecond
      omega

/-- In a tidy tree a leaf ends before anything begins that is listed behind it. -/
theorem Tree.leaves_pairwise {tree : Tree} (tidy : ∀ sub ∈ tree.subtrees, sub.IsTidy) :
    tree.subtrees.Pairwise fun earlier later =>
      earlier.children = [] → earlier.span.stop ≤ later.span.start := by
  induction tree using Tree.induction with
  | node kind span children ih =>
    rw [subtrees_node, List.forall_mem_cons] at tidy
    rw [subtrees_node]
    have below : ∀ child ∈ children, ∀ sub ∈ child.subtrees, sub.IsTidy :=
      fun child member sub inside =>
        tidy.2 sub (List.mem_flatMap.mpr ⟨child, member, inside⟩)
    refine .cons (fun sub deeper bare => ?_) (List.pairwise_flatMap.mpr ⟨?_, ?_⟩)
    · -- Below a leaf there is nothing.
      rw [children_node] at bare
      simp [bare] at deeper
    · exact fun child member => ih child member (below child member)
    · refine tidy.1.1.pairwise.imp_of_mem fun {first second} left right apart => ?_
      intro earlier inFirst later inSecond _
      have before := within (below first left) earlier inFirst
      have behind := within (below second right) later inSecond
      omega

/-- In a tidy tree only one leaf with at least one byte ends at an offset. -/
theorem Tree.eq_of_stop_eq {tree : Tree} (tidy : ∀ sub ∈ tree.subtrees, sub.IsTidy)
    {first second : Tree} (inside : first ∈ tree.subtrees) (inside' : second ∈ tree.subtrees)
    (bare : first.children = []) (bare' : second.children = [])
    (filled : first.span.start < first.span.stop) (filled' : second.span.start < second.span.stop)
    (same : first.span.stop = second.span.stop) : first = second := by
  -- Of two leaves the one that is listed first ends where the other has not begun.
  have apart := List.pairwise_iff_getElem.mp (leaves_pairwise tidy)
  obtain ⟨i, inRange, rfl⟩ := List.getElem_of_mem inside
  obtain ⟨j, inRange', rfl⟩ := List.getElem_of_mem inside'
  rcases Nat.lt_trichotomy i j with before | here | behind
  · have ends := apart i j inRange inRange' before bare
    omega
  · simp only [here]
  · have ends := apart j i inRange' inRange behind bare'
    omega

/-- The only subtree of a leaf is the leaf. -/
theorem Tree.forall_subtrees_leaf {holds : Tree → Prop} {kind : NodeKind} {span : Span} :
    (∀ sub ∈ (leaf kind span).subtrees, holds sub) ↔ holds (leaf kind span) := by
  simp [leaf]

/-- What holds of all nodes under an inner node holds of the node and below its children. -/
theorem forall_subtrees_inner {holds : Tree → Prop} {kind : NodeKind} {children : List Tree} :
    (∀ sub ∈ [inner kind children].flatMap Tree.subtrees, holds sub) ↔
      holds (inner kind children) ∧ ∀ sub ∈ children.flatMap Tree.subtrees, holds sub := by
  rw [List.flatMap_cons, List.flatMap_nil, List.append_nil, subtrees_inner, List.forall_mem_cons]

/-- What lies below a tidy inner node lies in order. -/
theorem successive_of_isTidy {kind : NodeKind} {children : List Tree}
    (tidy : (inner kind children).IsTidy) :
    Successive (inner kind children).span.start children (inner kind children).span.stop := by
  have apart := tidy.1
  rw [inner_children] at apart
  exact apart

/-- A span over trees begins and ends where one of them does. -/
theorem inner_ends {holds : Nat → Prop} {kind : NodeKind} {children : List Tree}
    (filled : children ≠ [])
    (ends : ∀ child ∈ children, holds child.span.start ∧ holds child.span.stop) :
    holds (inner kind children).span.start ∧ holds (inner kind children).span.stop := by
  -- Every further tree moves an end to one of its own ends, or leaves it.
  have fold : ∀ (trees : List Tree) (span : Span), holds span.start ∧ holds span.stop →
      (∀ tree ∈ trees, holds tree.span.start ∧ holds tree.span.stop) →
      holds (trees.foldl (fun span tree => span.cover tree.span) span).start ∧
        holds (trees.foldl (fun span tree => span.cover tree.span) span).stop := by
    intro trees
    induction trees with
    | nil => exact fun span both _ => both
    | cons tree trees ih =>
      intro span both all
      rw [List.forall_mem_cons] at all
      refine ih (span.cover tree.span) ⟨?_, ?_⟩ all.2
      · rcases Nat.le_total span.start tree.span.start with before | behind
        · simpa [Span.cover, Nat.min_eq_left before] using both.1
        · simpa [Span.cover, Nat.min_eq_right behind] using all.1.1
      · rcases Nat.le_total span.stop tree.span.stop with before | behind
        · simpa [Span.cover, Nat.max_eq_right before] using all.1.2
        · simpa [Span.cover, Nat.max_eq_left behind] using both.2
  cases children with
  | nil => exact absurd rfl filled
  | cons first children =>
    rw [List.forall_mem_cons] at ends
    exact fold children first.span ends.1 ends.2

end FilterLang
