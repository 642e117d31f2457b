import FilterLang.Proofs.Tree.Subtrees

/-! Trees kept in a table, where nodes know each other by number. -/

namespace FilterLang

/-- A node in a table, with the numbers of its parent and its children. -/
structure Cell where
  kind : NodeKind
  span : Span
  /-- The node that lists this one among its children; a new node has none yet. -/
  parent? : Option Nat
  children : List Nat
deriving DecidableEq, Repr

/-- A table of nodes, numbered in the order in which they were entered. -/
abbrev Table := List Cell

namespace Table

/-- The recorded parent of a node. -/
def parent? (cells : Table) (id : Nat) : Option Nat :=
  cells[id]?.bind (·.parent?)

/-- The children that a node lists. -/
def children (cells : Table) (id : Nat) : List Nat :=
  (cells[id]?.map (·.children)).getD []

/-- Enters a node over nodes of the table and records it as the parent of each. -/
def enter (cells : Table) (kind : NodeKind) (span : Span) (ids : List Nat) : Table :=
  cells.mapIdx (fun id cell =>
      if id ∈ ids then { cell with parent? := some cells.length } else cell)
    ++ [⟨kind, span, none, ids⟩]

/-- Entering a node adds one to the table. -/
@[simp] theorem length_enter (cells : Table) (kind : NodeKind) (span : Span) (ids : List Nat) :
    (cells.enter kind span ids).length = cells.length + 1 := by
  simp [enter]

/-- The cell of the new node. -/
theorem getElem?_enter_self (cells : Table) (kind : NodeKind) (span : Span) (ids : List Nat) :
    (cells.enter kind span ids)[cells.length]? = some ⟨kind, span, none, ids⟩ := by
  -- The new cell is the last.
  rw [enter, List.getElem?_append_right (by simp)]
  simp

/-- The cells of the other nodes change at most in their parent. -/
theorem getElem?_enter_of_lt {cells : Table} {id : Nat} (older : id < cells.length)
    (kind : NodeKind) (span : Span) (ids : List Nat) :
    (cells.enter kind span ids)[id]? = cells[id]?.map fun cell =>
      if id ∈ ids then { cell with parent? := some cells.length } else cell := by
  rw [enter, List.getElem?_append_left (by simpa using older), List.getElem?_mapIdx]

/-- The new node lists the nodes it was entered over, and all others list what they did. -/
theorem children_enter (cells : Table) (kind : NodeKind) (span : Span) (ids : List Nat) (id : Nat) :
    (cells.enter kind span ids).children id =
      if id = cells.length then ids else cells.children id := by
  -- Only the new cell lists something new; older cells change their parents at most.
  rcases Nat.lt_trichotomy id cells.length with older | rfl | beyond
  · rw [children, getElem?_enter_of_lt older, if_neg (by omega), children, Option.map_map]
    congr 2
    funext cell
    simp only [Function.comp_apply]
    split <;> rfl
  · rw [children, getElem?_enter_self, if_pos rfl]
    rfl
  · rw [if_neg (by omega), children, children, List.getElem?_eq_none (by simp; omega),
      List.getElem?_eq_none (by omega)]

/-- The nodes below the new one get it as their parent, and all others keep theirs. -/
theorem parent?_enter {cells : Table} {ids : List Nat} (known : ∀ id ∈ ids, id < cells.length)
    (kind : NodeKind) (span : Span) (id : Nat) :
    (cells.enter kind span ids).parent? id
      = if id ∈ ids then some cells.length else cells.parent? id := by
  -- Older cells, the new one and numbers beyond the table: only older ones can be listed.
  rcases Nat.lt_trichotomy id cells.length with older | rfl | beyond
  · rw [parent?, getElem?_enter_of_lt older, parent?, List.getElem?_eq_getElem older]
    simp only [Option.map_some, Option.bind_some]
    split <;> rfl
  · have fresh : cells.length ∉ ids := fun member => Nat.lt_irrefl _ (known _ member)
    rw [parent?, getElem?_enter_self, if_neg fresh, parent?, List.getElem?_eq_none (by simp)]
    rfl
  · have fresh : id ∉ ids := fun member => Nat.lt_irrefl _ (Nat.lt_trans beyond (known _ member))
    rw [if_neg fresh, parent?, parent?, List.getElem?_eq_none (by simp; omega),
      List.getElem?_eq_none (by omega)]

/-- A node that lists children is in the table. -/
theorem lt_length_of_mem_children {cells : Table} {id parent : Nat}
    (listed : id ∈ cells.children parent) : parent < cells.length := by
  -- Beyond the table nothing is listed.
  rcases Nat.lt_or_ge parent cells.length with inside | beyond
  · exact inside
  · rw [children, List.getElem?_eq_none beyond] at listed
    cases listed

/--
A table that holds some trees, given the nodes at their tops.

Every other node is listed by exactly the node it records as its parent, which was entered later.
-/
structure IsForest (cells : Table) (tops : List Nat) : Prop where
  linked : ∀ id parent, cells.parent? id = some parent ↔ id ∈ cells.children parent
  later : ∀ parent, ∀ id ∈ cells.children parent, id < parent
  once : ∀ parent, (cells.children parent).Nodup
  free : ∀ id, id ∈ tops ↔ id < cells.length ∧ cells.parent? id = none
  distinct : tops.Nodup

/-- An empty table holds no tree. -/
theorem isForest_nil : IsForest [] [] where
  -- Without cells there is nothing to link.
  linked := by simp [parent?, children]
  later := by simp [children]
  once := by simp [children]
  free := by simp
  distinct := .nil

/-- A node entered over the tops of some trees becomes one top in their place. -/
theorem IsForest.enter {cells : Table} {others ids : List Nat}
    (forest : IsForest cells (others ++ ids)) (kind : NodeKind) (span : Span) :
    IsForest (cells.enter kind span ids) (others ++ [cells.length]) := by
  obtain ⟨distinctOthers, distinct, disjoint⟩ := List.nodup_append.mp forest.distinct
  have orphan : ∀ id ∈ ids, id < cells.length ∧ cells.parent? id = none := fun id member =>
    (forest.free id).mp (by simp [member])
  have known : ∀ id ∈ ids, id < cells.length := fun id member => (orphan id member).1
  refine ⟨fun id parent => ?_, fun parent id listed => ?_, fun parent => ?_, fun id => ?_, ?_⟩
  · rw [parent?_enter known, children_enter]
    by_cases adopted : id ∈ ids
    · -- The node had no parent before, so no older node lists it.
      have unlisted : ∀ older, id ∉ cells.children older := by
        intro older listed
        have recorded := (forest.linked id older).mpr listed
        rw [(orphan id adopted).2] at recorded
        cases recorded
      by_cases new : parent = cells.length
      · simp [adopted, new]
      · simp [adopted, new, unlisted, Ne.symm new]
    · -- The number of the new node was no parent's number before.
      have childless : id ∉ cells.children cells.length := fun listed =>
        Nat.lt_irrefl _ (lt_length_of_mem_children listed)
      by_cases new : parent = cells.length
      · simp [adopted, new, forest.linked, childless]
      · simp [adopted, new, forest.linked]
  · rw [children_enter] at listed
    split at listed
    · rename_i new
      exact new ▸ known id listed
    · exact forest.later parent id listed
  · rw [children_enter]
    split
    · exact distinct
    · exact forest.once parent
  · have before := forest.free id
    have fresh : cells.parent? cells.length = none := by
      rw [parent?, List.getElem?_eq_none (Nat.le_refl _)]
      rfl
    rw [parent?_enter known, length_enter, List.mem_append, List.mem_singleton]
    rw [List.mem_append] at before
    by_cases adopted : id ∈ ids
    · have elsewhere : id ∉ others := fun member => disjoint id member id adopted rfl
      have older : id ≠ cells.length := Nat.ne_of_lt (known id adopted)
      simp [adopted, elsewhere, older]
    · by_cases new : id = cells.length
      · simp [new, fresh]
        exact fun member => absurd (known _ member) (Nat.lt_irrefl _)
      · simp only [adopted, or_false, if_false, new] at before ⊢
        rw [before]
        exact and_congr_left fun _ => by omega
  · -- The new number is none of the older ones.
    refine List.nodup_append.mpr ⟨distinctOthers, by simp, fun id member other single => ?_⟩
    have older := ((forest.free id).mp (by simp [member])).1
    rw [List.mem_singleton] at single
    omega

/-- The nodes that are reached from a node along lists of children. -/
inductive Reaches (cells : Table) (top : Nat) : Nat → Prop where
  | refl : Reaches cells top top
  | child {parent id : Nat} (reached : Reaches cells top parent)
      (listed : id ∈ cells.children parent) : Reaches cells top id

/-- A table with one top holds one tree, all of whose nodes are reached from the top. -/
theorem IsForest.reaches {cells : Table} {top : Nat} (forest : IsForest cells [top]) :
    ∀ id < cells.length, Reaches cells top id := by
  -- A parent is entered later, so the way up comes to an end.
  intro id
  induction left : cells.length - id using Nat.strongRecOn generalizing id with
  | ind left ih =>
    intro inside
    cases recorded : cells.parent? id with
    | none =>
      have last : id = top := by simpa using (forest.free id).mpr ⟨inside, recorded⟩
      exact last ▸ .refl
    | some parent =>
      have listed := (forest.linked id parent).mp recorded
      have later := forest.later parent id listed
      have within := lt_length_of_mem_children listed
      exact .child (ih (cells.length - parent) (by omega) parent rfl within) listed

/--
A table that holds one tree, given its top.

Every other node is listed once, by exactly its recorded parent, which has a greater number.
-/
structure IsRooted (cells : Table) (top : Nat) : Prop where
  free : cells.parent? top = none
  listed : ∀ id < cells.length, id ≠ top → ∃ parent, cells.parent? id = some parent ∧
    id < parent ∧ (cells.children parent).count id = 1
  linked : ∀ id parent, id ∈ cells.children parent → cells.parent? id = some parent
  reached : ∀ id < cells.length, cells.Reaches top id

/-- A table with one top is rooted in it. -/
theorem IsForest.isRooted {cells : Table} {top : Nat} (forest : IsForest cells [top]) :
    IsRooted cells top where
  free := ((forest.free top).mp (by simp)).2
  linked id parent listed := (forest.linked id parent).mpr listed
  reached := forest.reaches
  listed id inside other := by
    cases recorded : cells.parent? id with
    | none =>
      -- A node without a parent is the top.
      have only : id = top := by simpa using (forest.free id).mpr ⟨inside, recorded⟩
      exact absurd only other
    | some parent =>
      have listed := (forest.linked id parent).mp recorded
      exact ⟨parent, rfl, forest.later parent id listed,
        (forest.once parent).count.trans (if_pos listed)⟩

/-- The nodes of one table are in another with nothing changed but their parents. -/
def Extends (more cells : Table) : Prop :=
  ∀ (id : Nat) (cell : Cell), cells[id]? = some cell →
    ∃ parent, more[id]? = some { cell with parent? := parent }

/-- A table keeps its own nodes. -/
theorem Extends.refl (cells : Table) : Extends cells cells :=
  fun _ cell found => ⟨cell.parent?, found⟩

/-- Nodes that are kept twice are kept. -/
theorem Extends.trans {most more cells : Table} (second : Extends most more)
    (first : Extends more cells) : Extends most cells := by
  -- Cells only ever get a parent, and may get another one later.
  intro id cell found
  obtain ⟨_, kept⟩ := first id cell found
  obtain ⟨parent, again⟩ := second id _ kept
  exact ⟨parent, again⟩

/-- Entering a node keeps the others. -/
theorem extends_enter (cells : Table) (kind : NodeKind) (span : Span) (ids : List Nat) :
    Extends (cells.enter kind span ids) cells := by
  -- A cell that is there keeps all but its parent.
  intro id cell found
  have older : id < cells.length := (List.getElem?_eq_some_iff.mp found).1
  rw [getElem?_enter_of_lt older, found, Option.map_some]
  split
  · exact ⟨_, rfl⟩
  · exact ⟨cell.parent?, rfl⟩

end Table

namespace Tree

mutual

/-- Enters a tree, so that its top becomes the last node of the table. -/
def enter : Tree → Table → Table
  | .node kind span children, cells =>
    (enterAll children cells).2.enter kind span (enterAll children cells).1

/-- Enters sibling trees from left to right, and gives the numbers of their tops. -/
def enterAll : List Tree → Table → List Nat × Table
  | [], cells => ([], cells)
  | tree :: trees, cells =>
    -- The top of the first tree is the last node before the next tree is entered.
    (((tree.enter cells).length - 1) :: (enterAll trees (tree.enter cells)).1,
      (enterAll trees (tree.enter cells)).2)

end

/-- Trees are entered one part after the other. -/
theorem enterAll_append (front back : List Tree) (cells : Table) :
    enterAll (front ++ back) cells =
      ((enterAll front cells).1 ++ (enterAll back (enterAll front cells).2).1,
        (enterAll back (enterAll front cells).2).2) := by
  -- Induction on the front; what is behind is entered into the table that it leaves.
  induction front generalizing cells with
  | nil => simp [enterAll]
  | cons tree front ih => simp [enterAll, ih]

/-- The table of a tree. -/
def table (tree : Tree) : Table :=
  tree.enter []

/-- The number of a tree's top in its table. -/
def top (tree : Tree) : Nat :=
  tree.table.length - 1

mutual

/-- Entering a tree adds one top to those of a table. -/
theorem isForest_enter {cells : Table} {tops : List Nat} (forest : cells.IsForest tops) :
    ∀ tree : Tree, (tree.enter cells).IsForest (tops ++ [(tree.enter cells).length - 1])
  -- Mutual recursion with lists of trees: the children are
  -- entered first, and the node takes them in.
  | .node kind span children => by
    have below := isForest_enterAll forest children
    simpa [enter] using below.enter kind span

/-- Entering trees adds their tops to those of a table. -/
theorem isForest_enterAll {cells : Table} {tops : List Nat} (forest : cells.IsForest tops) :
    ∀ trees : List Tree, (enterAll trees cells).2.IsForest (tops ++ (enterAll trees cells).1)
  | [] => by simpa [enterAll] using forest
  | tree :: trees => by
    have first := isForest_enter forest tree
    have others := isForest_enterAll first trees
    simpa [enterAll] using others

end

mutual

/-- A tree takes one node of a table for each of its subtrees. -/
theorem length_enter (cells : Table) :
    ∀ tree : Tree, (tree.enter cells).length = cells.length + tree.subtrees.length
  -- Mutual recursion with lists of trees: one cell for the node and one for each subtree below it.
  | .node kind span children => by
    have below := length_enterAll cells children
    simp only [enter, Table.length_enter, subtrees_node, List.length_cons, below]
    omega

/-- Trees take one node of a table for each of their subtrees. -/
theorem length_enterAll (cells : Table) : ∀ trees : List Tree,
    (enterAll trees cells).2.length = cells.length + (trees.flatMap subtrees).length
  | [] => by simp [enterAll]
  | tree :: trees => by
    have first := length_enter cells tree
    have others := length_enterAll (tree.enter cells) trees
    simp only [enterAll, List.flatMap_cons, List.length_append, others, first]
    omega

end

mutual

/-- A table keeps a tree at a node, with the trees below it at the children of the node. -/
def KeptIn (cells : Table) : Tree → Nat → Prop
  | .node kind span children, id =>
    ∃ parent ids, cells[id]? = some ⟨kind, span, parent, ids⟩ ∧ AllKeptIn cells children ids

/-- A table keeps trees one by one at some nodes. -/
def AllKeptIn (cells : Table) : List Tree → List Nat → Prop
  | [], ids => ids = []
  | tree :: trees, ids =>
    ∃ id rest, ids = id :: rest ∧ tree.KeptIn cells id ∧ AllKeptIn cells trees rest

end

/-- The spans of trees that a table keeps are found by the numbers of their tops. -/
theorem AllKeptIn.mapM_span {cells : Table} {trees : List Tree} {ids : List Nat}
    (kept : AllKeptIn cells trees ids) :
    (ids.mapM fun id => cells[id]?.map (·.span)) = some (trees.map span) := by
  induction trees generalizing ids with
  | nil =>
    obtain rfl : ids = [] := kept
    rfl
  | cons tree trees ih =>
    -- The first number leads to the cell of the first tree, which has its span.
    obtain ⟨kind, place, children⟩ := tree
    obtain ⟨id, rest, rfl, ⟨parent, below, found, -⟩, others⟩ := kept
    simp [List.mapM_cons, found, ih others, span]

mutual

/-- A tree is still kept when the table grows. -/
theorem KeptIn.mono {more cells : Table} (grown : more.Extends cells) :
    ∀ (tree : Tree) (id : Nat), tree.KeptIn cells id → tree.KeptIn more id
  -- Mutual recursion with lists of trees; a cell that is kept may get a parent, nothing else.
  | .node kind span children, id, kept => by
    obtain ⟨parent, ids, found, below⟩ := kept
    obtain ⟨parent, still⟩ := grown id _ found
    exact ⟨parent, ids, still, AllKeptIn.mono grown children ids below⟩

/-- Trees are still kept when the table grows. -/
theorem AllKeptIn.mono {more cells : Table} (grown : more.Extends cells) :
    ∀ (trees : List Tree) (ids : List Nat), AllKeptIn cells trees ids → AllKeptIn more trees ids
  | [], ids, kept => kept
  | tree :: trees, ids, kept => by
    obtain ⟨id, rest, same, first, others⟩ := kept
    exact ⟨id, rest, same, KeptIn.mono grown tree id first, AllKeptIn.mono grown trees rest others⟩

end

mutual

/-- Entering a tree keeps the nodes of the table. -/
theorem extends_enter (cells : Table) : ∀ tree : Tree, (tree.enter cells).Extends cells
  -- Mutual recursion with lists of trees, each entered into the table that the last one left.
  | .node kind span children => by
    rw [enter]
    exact (Table.extends_enter _ kind span _).trans (extends_enterAll cells children)

/-- Entering trees keeps the nodes of the table. -/
theorem extends_enterAll (cells : Table) :
    ∀ trees : List Tree, (enterAll trees cells).2.Extends cells
  | [] => Table.Extends.refl cells
  | tree :: trees => by
    rw [enterAll]
    exact (extends_enterAll _ trees).trans (extends_enter cells tree)

end

mutual

/-- A tree that is entered is kept at the last node. -/
theorem keptIn_enter (cells : Table) :
    ∀ tree : Tree, tree.KeptIn (tree.enter cells) ((tree.enter cells).length - 1)
  -- Mutual recursion with lists of trees: the children are kept while the node is entered.
  | .node kind span children => by
    rw [enter, Table.length_enter, Nat.add_sub_cancel]
    refine ⟨none, _, Table.getElem?_enter_self _ _ _ _, ?_⟩
    exact AllKeptIn.mono (Table.extends_enter _ kind span _) _ _ (allKeptIn_enterAll cells children)

/-- Trees that are entered are kept at the numbers they get. -/
theorem allKeptIn_enterAll (cells : Table) :
    ∀ trees : List Tree, AllKeptIn (enterAll trees cells).2 trees (enterAll trees cells).1
  | [] => rfl
  | tree :: trees => by
    rw [enterAll]
    refine ⟨_, _, rfl, ?_, allKeptIn_enterAll _ trees⟩
    exact KeptIn.mono (extends_enterAll _ trees) _ _ (keptIn_enter cells tree)

end

/-- The table of a tree holds that tree and nothing else. -/
theorem isForest_table (tree : Tree) : tree.table.IsForest [tree.top] :=
  isForest_enter Table.isForest_nil tree

/-- The table of a tree keeps it at its top. -/
theorem keptIn_table (tree : Tree) : tree.KeptIn tree.table tree.top :=
  keptIn_enter [] tree

/-- The table of a tree has one node for each subtree. -/
theorem length_table (tree : Tree) : tree.table.length = tree.subtrees.length := by
  simpa [table] using length_enter [] tree

end Tree

end FilterLang
