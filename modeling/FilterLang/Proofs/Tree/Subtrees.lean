import FilterLang.Grammar
import FilterLang.Tree.Fault

/-! The subtrees of a tree, and errors as a property of them. -/

namespace FilterLang

namespace Tree

/-- A tree with everything below it, each tree before those it holds. -/
def subtrees (tree : Tree) : List Tree :=
  tree.visits.map (·.tree)

mutual

/-- What holds of a node whenever it holds of its children holds of every tree. -/
@[elab_as_elim] theorem induction {motive : Tree → Prop}
    (node : ∀ kind span children, (∀ child ∈ children, motive child) →
      motive (.node kind span children)) : ∀ tree, motive tree
  | .node kind span children => node kind span children (forall_induction node children)

/-- What holds of a node whenever it holds of its children holds of all trees in a list. -/
theorem forall_induction {motive : Tree → Prop}
    (node : ∀ kind span children, (∀ child ∈ children, motive child) →
      motive (.node kind span children)) : ∀ trees : List Tree, ∀ tree ∈ trees, motive tree
  | [] => by simp
  | tree :: trees => by
    rw [List.forall_mem_cons]
    exact ⟨induction node tree, forall_induction node trees⟩

end

mutual

/-- The trees met on a walk do not depend on what stands above. -/
theorem visitsUnder_trees (above other : List Tree) : ∀ tree : Tree,
    (visitsUnder above tree).map (·.tree) = (visitsUnder other tree).map (·.tree)
  | .node kind span children => by
    -- Only the recorded ancestors differ, and the children are walked under one more of them.
    simp only [visitsUnder, List.map_cons]
    rw [visitsOfAll_trees _ (.node kind span children :: other) children]

/-- The trees met on a walk over siblings do not depend on what stands above. -/
theorem visitsOfAll_trees (above other : List Tree) : ∀ trees : List Tree,
    (visitsOfAll above trees).map (·.tree) = (visitsOfAll other trees).map (·.tree)
  | [] => rfl
  | tree :: trees => by
    simp only [visitsOfAll, List.map_append]
    rw [visitsUnder_trees above other tree, visitsOfAll_trees above other trees]

end

/-- Siblings are walked one after the other. -/
theorem visitsOfAll_subtrees (above : List Tree) (trees : List Tree) :
    (visitsOfAll above trees).map (·.tree) = trees.flatMap subtrees := by
  -- Induction on the trees; the path above does not change what is visited.
  induction trees with
  | nil => rfl
  | cons tree trees ih =>
    simp only [visitsOfAll, List.map_append, ih, List.flatMap_cons]
    rw [visitsUnder_trees above [] tree]
    rfl

/-- A node comes before the subtrees of its children. -/
@[simp] theorem subtrees_node (kind : NodeKind) (span : Span) (children : List Tree) :
    (node kind span children).subtrees = node kind span children :: children.flatMap subtrees := by
  simp only [subtrees, visits, visitsUnder, List.map_cons, visitsOfAll_subtrees]

/-- A tree holds an error exactly when one of its subtrees is one. -/
theorem hasError_eq (tree : Tree) : tree.hasError = tree.subtrees.any (·.kind.isError) := by
  simp only [hasError, subtrees, List.any_map]
  rfl

/-- An error stands at the top of a node or below one of its children. -/
@[simp] theorem hasError_node (kind : NodeKind) (span : Span) (children : List Tree) :
    (node kind span children).hasError = (kind.isError || children.any hasError) := by
  -- Each child contributes the errors among its own subtrees.
  have below : ∀ trees : List Tree,
      (trees.flatMap subtrees).any (·.kind.isError) = trees.any hasError := by
    intro trees
    induction trees with
    | nil => rfl
    | cons tree trees ih => simp [hasError_eq, ih]
  rw [hasError_eq, subtrees_node, List.any_cons, below]
  rfl

/-- A leaf is an error only by its own kind. -/
@[simp] theorem hasError_leaf (kind : NodeKind) (span : Span) :
    (leaf kind span).hasError = kind.isError := by
  simp [leaf]

/-- A mark of something expected is an error. -/
@[simp] theorem hasError_expecting (what : String) (span : Span) :
    (expecting what span).hasError = true := by
  simp [expecting, NodeKind.isError]

/-- A tree is reported on exactly when it holds an error. -/
theorem fault?_eq_none_iff (tree : Tree) : tree.fault? = none ↔ tree.hasError = false := by
  -- The report is about the first error of the walk, so there is one unless no visit is an error.
  simp [fault?, firstError?, hasError]

/-- The kind of a node stands at its top. -/
@[simp] theorem kind_node (kind : NodeKind) (span : Span) (children : List Tree) :
    (node kind span children).kind = kind := rfl

/-- The children of a node stand below its top. -/
@[simp] theorem children_node (kind : NodeKind) (span : Span) (children : List Tree) :
    (node kind span children).children = children := rfl

/-- The kind of a leaf is the one it was made with. -/
@[simp] theorem kind_leaf (kind : NodeKind) (span : Span) : (leaf kind span).kind = kind := rfl

/-- The span of a leaf is the one it was made with. -/
@[simp] theorem span_leaf (kind : NodeKind) (span : Span) : (leaf kind span).span = span := rfl

end Tree

/-- The kind of an inner node is the one it was made with. -/
@[simp] theorem inner_kind (kind : NodeKind) (children : List Tree) :
    (inner kind children).kind = kind := by
  cases children <;> rfl

/-- The children of an inner node are those it was made with. -/
@[simp] theorem inner_children (kind : NodeKind) (children : List Tree) :
    (inner kind children).children = children := by
  cases children <;> rfl

/-- An inner node is a node over its children, whatever it spans. -/
theorem inner_eq_node (kind : NodeKind) (children : List Tree) :
    inner kind children = .node kind (inner kind children).span children := by
  cases children <;> rfl

/-- An inner node holds the errors of its kind and of its children. -/
@[simp] theorem hasError_inner (kind : NodeKind) (children : List Tree) :
    (inner kind children).hasError = (kind.isError || children.any Tree.hasError) := by
  rw [inner_eq_node, Tree.hasError_node]

/-- An inner node comes before the subtrees of its children. -/
@[simp] theorem subtrees_inner (kind : NodeKind) (children : List Tree) :
    (inner kind children).subtrees = inner kind children :: children.flatMap Tree.subtrees := by
  rw [inner_eq_node, Tree.subtrees_node]

/-- The mark of something missing is an error. -/
@[simp] theorem hasError_missing (textEnd : Nat) (what : String) (tokens : List Token) :
    (missing textEnd what tokens).hasError = true :=
  Tree.hasError_expecting what _

end FilterLang
