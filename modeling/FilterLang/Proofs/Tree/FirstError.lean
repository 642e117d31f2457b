import FilterLang.Proofs.Tree.LastLeaf

/-! The first error of a tree, in the order in which its nodes are read. -/

namespace FilterLang

namespace Tree

/-- The first error among some siblings and everything below them. -/
def firstMark? (trees : List Tree) : Option Tree :=
  (trees.flatMap subtrees).find? (·.kind.isError)

/-- The first error is one of the trees in front, if these have one. -/
theorem firstMark?_append (front back : List Tree) :
    firstMark? (front ++ back) = (firstMark? front).or (firstMark? back) := by
  simp [firstMark?, List.find?_append]

/-- There is a first error unless none of the trees holds one. -/
theorem firstMark?_eq_none_iff (trees : List Tree) :
    firstMark? trees = none ↔ trees.any hasError = false := by
  simp [firstMark?, hasError_eq]

/-- Trees without an error in front are passed over. -/
theorem firstMark?_of_clean {front : List Tree} (clean : front.any hasError = false)
    (back : List Tree) : firstMark? (front ++ back) = firstMark? back := by
  rw [firstMark?_append, (firstMark?_eq_none_iff front).mpr clean, Option.none_or]

/-- Behind trees that hold an error nothing else is looked at. -/
theorem firstMark?_of_broken {front : List Tree} (broken : front.any hasError = true)
    (back : List Tree) : firstMark? (front ++ back) = firstMark? front := by
  -- Something in front is marked, and the first mark is the one that counts.
  rw [firstMark?_append]
  cases found : firstMark? front with
  | none => simp [(firstMark?_eq_none_iff front).mp found] at broken
  | some mark => rfl

/-- A first tree without an error is passed over. -/
theorem firstMark?_cons_of_clean {tree : Tree} (clean : tree.hasError = false)
    (trees : List Tree) : firstMark? (tree :: trees) = firstMark? trees :=
  @firstMark?_of_clean [tree] (by simpa using clean) trees

/-- Behind a first tree that holds an error nothing else is looked at. -/
theorem firstMark?_cons_of_broken {tree : Tree} (broken : tree.hasError = true)
    (trees : List Tree) : firstMark? (tree :: trees) = firstMark? [tree] :=
  @firstMark?_of_broken [tree] (by simpa using broken) trees

/-- A leaf that is no error is passed over. -/
theorem firstMark?_leaf {kind : NodeKind} (plain : kind.isError = false) (span : Span)
    (trees : List Tree) : firstMark? (leaf kind span :: trees) = firstMark? trees :=
  firstMark?_cons_of_clean (by simp [plain]) trees

/-- The first error below a node that is none itself is the first one of its children. -/
theorem firstMark?_node {kind : NodeKind} (plain : kind.isError = false) (span : Span)
    (children : List Tree) : firstMark? [node kind span children] = firstMark? children := by
  simp [firstMark?, plain]

/-- The first error of some siblings is the one that a walk over them finds. -/
theorem firstMark?_eq_visits (above trees : List Tree) :
    firstMark? trees = ((visitsOfAll above trees).find? (·.kind.isError)).map (·.tree) := by
  -- Both look for the first error in the same order, one of them with the path to it.
  rw [firstMark?, ← visitsOfAll_subtrees above, List.find?_map]
  rfl

/-- The first error of a tree is the one that it is reported on. -/
theorem firstMark?_eq (tree : Tree) : firstMark? [tree] = tree.firstError?.map (·.tree) := by
  rw [firstMark?_eq_visits [], visitsOfAll, visitsOfAll, List.append_nil]
  rfl

/-- No error of a tidy tree begins before the first one. -/
theorem firstMark?_start_le {tree mark : Tree} (tidy : ∀ sub ∈ tree.subtrees, sub.IsTidy)
    (first : firstMark? [tree] = some mark) : ∀ sub ∈ tree.subtrees, sub.kind.isError = true →
      mark.span.start ≤ sub.span.start := by
  intro sub inside error
  rw [firstMark?, List.flatMap_singleton, List.find?_eq_some_iff_append] at first
  obtain ⟨-, before, behind, split, clean⟩ := first
  have starts := starts_pairwise tidy
  rw [split, List.pairwise_append] at starts
  rw [split, List.mem_append, List.mem_cons] at inside
  -- What is listed ahead of the first error is none.
  rcases inside with early | rfl | late
  · simpa [error] using clean sub early
  · exact Nat.le_refl _
  · exact List.rel_of_pairwise_cons starts.2.1 late

/-- The report on a tree is about its first error. -/
theorem exists_firstError {tree : Tree} {report : Diagnostic} (faulty : tree.fault? = some report) :
    ∃ visit, tree.firstError? = some visit ∧ report.span = visit.span ∧
      report.code =
        if visit.ancestors.length = 1 then .unparsedTrailingInput else .syntaxError := by
  -- The code says whether the error is right under the root.
  obtain ⟨visit, found, rfl⟩ := Option.map_eq_some_iff.mp faulty
  refine ⟨visit, found, ?_⟩
  by_cases top : visit.ancestors.length = 1
  · simp [top, Diagnostic.error]
  · simp [top, Diagnostic.error]

/-- In a tidy tree the report is on the error that begins first. -/
theorem fault?_earliest {tree : Tree} {report : Diagnostic}
    (tidy : ∀ sub ∈ tree.subtrees, sub.IsTidy) (faulty : tree.fault? = some report) :
    (∃ error ∈ tree.subtrees, error.kind.isError = true ∧
        error.span.start = report.span.start) ∧
      ∀ error ∈ tree.subtrees, error.kind.isError = true →
        report.span.start ≤ error.span.start := by
  -- The first error in reading order begins first, since tidy trees read from left to right.
  obtain ⟨visit, found, span, -⟩ := exists_firstError faulty
  have first : firstMark? [tree] = some visit.tree := by rw [firstMark?_eq, found]; rfl
  have error : visit.tree.kind.isError = true := (List.find?_eq_some_iff_append.mp found).1
  rw [span]
  refine ⟨⟨visit.tree, ?_, error, rfl⟩, firstMark?_start_le tidy first⟩
  exact List.mem_map_of_mem (List.mem_of_find?_eq_some found)

section FirstChild

variable {kind : NodeKind} {span : Span} {child : Tree} {trailing : List Tree} {visit : Visit}
  (plain : kind.isError = false)
  (found : (node kind span (child :: trailing)).firstError? = some visit)

include plain found

/-- The walk below a node passes over the node and goes on with the first child. -/
theorem find?_of_firstError? :
    ((visitsUnder [node kind span (child :: trailing)] child).find? (·.kind.isError)).or
      ((visitsOfAll [node kind span (child :: trailing)] trailing).find? (·.kind.isError))
        = some visit := by
  -- The root is no error, so the search goes on in its children.
  have top : (⟨node kind span (child :: trailing), []⟩ : Visit).kind.isError = false := plain
  simpa only [firstError?, visits, visitsUnder, visitsOfAll, List.find?_cons, top,
    List.find?_append] using found

/-- The first error below a first child that is none itself has the child and the node above it. -/
theorem ancestors_of_broken (sound : child.kind.isError = false) (broken : child.hasError = true) :
    2 ≤ visit.ancestors.length := by
  have walked := find?_of_firstError? plain found
  obtain ⟨inside, across, children⟩ := child
  rw [hasError_node, show inside.isError = false from sound, Bool.false_or] at broken
  have middle : ∀ above, (⟨node inside across children, above⟩ : Visit).kind.isError = false :=
    fun _ => sound
  simp only [visitsUnder, List.find?_cons, middle] at walked
  -- Past the two nodes the walk goes through the children, and it ends there.
  cases below : (visitsOfAll [node inside across children,
      node kind span (node inside across children :: trailing)] children).find?
        (·.kind.isError) with
  | none =>
    have clean : firstMark? children = none := by
      rw [firstMark?_eq_visits, below]
      rfl
    rw [firstMark?_eq_none_iff, broken] at clean
    cases clean
  | some other =>
    rw [below, Option.some_or, Option.some.injEq] at walked
    obtain ⟨child, -, visited⟩ := mem_visitsOfAll.mp (List.mem_of_find?_eq_some below)
    exact walked ▸ (above_suffix visited).length_le

/-- Behind a first child without an error the walk goes on with the others. -/
theorem find?_of_clean (clean : child.hasError = false) :
    (visitsOfAll [node kind span (child :: trailing)] trailing).find? (·.kind.isError)
      = some visit := by
  -- Nothing is marked in the first child, so the search goes on behind it.
  have walked := find?_of_firstError? plain found
  have none : firstMark? [child] = none := (firstMark?_eq_none_iff _).mpr (by simp [clean])
  rw [firstMark?_eq_visits [node kind span (child :: trailing)], visitsOfAll, visitsOfAll,
    List.append_nil, Option.map_eq_none_iff] at none
  rwa [none, Option.none_or] at walked

end FirstChild

end Tree

/-- The first error below an inner node that is none itself is the first one of its children. -/
theorem firstMark?_inner {kind : NodeKind} (plain : kind.isError = false) (children : List Tree) :
    Tree.firstMark? [inner kind children] = Tree.firstMark? children := by
  rw [inner_eq_node, Tree.firstMark?_node plain]

/-- What is missing is its own first error. -/
theorem firstMark?_missing (textEnd : Nat) (what : String) (tokens : List Token)
    (trees : List Tree) : Tree.firstMark? (missing textEnd what tokens :: trees) =
      some (missing textEnd what tokens) := rfl

end FilterLang
