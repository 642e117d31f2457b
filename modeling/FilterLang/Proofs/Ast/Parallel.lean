import FilterLang.Proofs.Ast.Meaning
import FilterLang.Proofs.Tree.Order

/-! One tree read in two surroundings. -/

namespace FilterLang

/-- All places at which the meaning of a tree can be put. -/
def Tree.Yields (place : Span → Prop) (tree : Tree) : Prop :=
  ∀ sub ∈ tree.subtrees, place sub.span ∧ ∀ child ∈ sub.children,
    -- A join reaches from the start of its chain, and a negation to the end of its operand.
    place ⟨sub.span.start, child.span.stop⟩ ∧ place ⟨child.span.start, sub.span.stop⟩

namespace Tree.Yields

variable {place : Span → Prop} {tree : Tree}

/-- The tree itself is at one of its places. -/
theorem span (yields : tree.Yields place) : place tree.span :=
  (yields tree tree.self_mem_subtrees).1

/-- A child yields no other places than its parent. -/
theorem child {below : Tree} (yields : tree.Yields place) (member : below ∈ tree.children) :
    -- A tree below a child is below the tree.
    below.Yields place := fun sub inside =>
  yields sub (mem_subtrees_trans (mem_subtrees_of_mem_children member) inside)

end Tree.Yields

/-- A relation between two outcomes that the ways of building larger expressions keep. -/
structure Keeps (place : Span → Prop) (related : Built → Built → Prop) : Prop where
  malformed : ∀ cause, related (.error (.malformed cause)) (.error (.malformed cause))
  negated : ∀ {left right : Built} {span : Span}, related left right → place span →
    related (do return .negation (← left) (some span)) (do return .negation (← right) (some span))
  joined : ∀ (operator : Connective) {left right left' right' : Built} {span : Span},
    related left right → related left' right' → place span →
    related (do return .logical operator (← left) (← left') (some span))
      (do return .logical operator (← right) (← right') (some span))

namespace Keeps

variable {place : Span → Prop} {related : Built → Built → Prop} {first second : Surroundings}
  {trees : List Tree}

/-- The first child of a kind is related if all children are. -/
theorem partMeaning (keeps : Keeps place related) (parent kind : NodeKind)
    (each : ∀ tree ∈ trees, related (meaning first tree) (meaning second tree)) :
    related (partMeaning parent kind (meanings first trees))
      (partMeaning parent kind (meanings second trees)) := by
  cases found : trees.find? (·.kind == kind) with
  | some tree =>
    rw [partMeaning_meanings parent found, partMeaning_meanings parent found]
    exact each tree (List.mem_of_find?_eq_some found)
  | none =>
    -- Without such a child both readings fail in the same way.
    simp only [FilterLang.partMeaning, meanings_eq_map, List.find?_map, Function.comp_def, found,
      Option.map_none]
    exact keeps.malformed _

/-- Joined operands are related if all of them are. -/
theorem joinOperands (keeps : Keeps place related) (operator : Connective) (start : Nat)
    (each : ∀ tree ∈ trees, related (meaning first tree) (meaning second tree))
    (places : ∀ tree ∈ trees, place ⟨start, tree.span.stop⟩) {left right : Built}
    (begun : related left right) :
    related (do joinOperands operator start (← left) (meanings first trees))
      (do joinOperands operator start (← right) (meanings second trees)) := by
  induction trees generalizing left right with
  | nil => simpa [FilterLang.joinOperands, meanings] using begun
  | cons tree trees ih =>
    rw [List.forall_mem_cons] at each places
    -- The first join makes a new first operand for the others.
    have longer := ih each.2 places.2 (keeps.joined operator begun each.1 places.1)
    simpa only [FilterLang.joinOperands, meanings, List.foldlM_cons, bind_assoc, pure_bind]
      using longer

/-- A chain is related if its operands are. -/
theorem chainMeaning (keeps : Keeps place related) (kind operand : NodeKind)
    (operator : Connective) (span : Span)
    (each : ∀ tree ∈ trees, related (meaning first tree) (meaning second tree))
    (places : ∀ tree ∈ trees, place ⟨span.start, tree.span.stop⟩) :
    related (chainMeaning kind operand operator span (meanings first trees))
      (chainMeaning kind operand operator span (meanings second trees)) := by
  -- Which children are operands does not depend on what they mean.
  have operands : ∀ around, (meanings around trees).filter (·.1.kind == operand) =
      meanings around (trees.filter (·.kind == operand)) := by
    intro around
    simp only [meanings_eq_map, List.filter_map, Function.comp_def]
  unfold FilterLang.chainMeaning
  rw [operands first, operands second]
  cases kept : trees.filter (·.kind == operand) with
  | nil => exact keeps.malformed _
  | cons tree rest =>
    have among : ∀ other ∈ tree :: rest, other ∈ trees := fun other member =>
      (List.mem_filter.mp (kept ▸ member)).1
    rw [List.forall_mem_cons] at among
    exact keeps.joinOperands operator span.start
      (fun other member => each other (among.2 other member))
      (fun other member => places other (among.2 other member)) (each tree among.1)

/-- A negated operand is related if the operand is. -/
theorem negate (keeps : Keeps place related) {stop : Nat} {negations : List Tree}
    (places : ∀ negation ∈ negations, place ⟨negation.span.start, stop⟩) {left right : Built}
    (operand : related left right) :
    related (do return negate stop negations (← left))
      (do return negate stop negations (← right)) := by
  -- Induction on the marks: each wraps what the later ones make of the operand.
  induction negations with
  | nil => simpa [FilterLang.negate] using operand
  | cons negation negations ih =>
    rw [List.forall_mem_cons] at places
    simpa [FilterLang.negate] using keeps.negated (ih places.2) places.1

/-- The first thing below a primary expression is related if all children are. -/
theorem primaryMeaning (keeps : Keeps place related)
    (each : ∀ tree ∈ trees, related (meaning first tree) (meaning second tree)) :
    related (primaryMeaning (meanings first trees)) (primaryMeaning (meanings second trees)) := by
  -- Only the first tree counts, and a body that is none of the three is malformed on both sides.
  cases trees with
  | nil => exact keeps.malformed _
  | cons tree trees =>
    rw [List.forall_mem_cons] at each
    simp only [meanings, FilterLang.primaryMeaning]
    split <;> first | exact each.1 | exact keeps.malformed _

end Keeps

section Readings

variable {place : Span → Prop} {related : Built → Built → Prop} {source : List Char}
  {language language' : Language} {call call' : String → Span → Built}

/-- Both readings of a tree are related if those of calls and comparisons are. -/
theorem meaning_related (keeps : Keeps place related)
    (called : ∀ name span, place span → related (call name span) (call' name span))
    (compared : ∀ tree : Tree, tree.Yields place →
      related (comparisonNode ⟨source, language, call⟩ tree)
        (comparisonNode ⟨source, language', call'⟩ tree))
    (tree : Tree) (yields : tree.Yields place) :
    related (meaning ⟨source, language, call⟩ tree) (meaning ⟨source, language', call'⟩ tree) := by
  induction tree using Tree.induction with
  | node kind span children ih =>
    have below : ∀ child ∈ children, related (meaning ⟨source, language, call⟩ child)
        (meaning ⟨source, language', call'⟩ child) := fun child member =>
      ih child member (yields.child member)
    obtain ⟨-, ends⟩ := yields _ (Tree.self_mem_subtrees _)
    simp only [meaning]
    unfold combine
    rw [Tree.kind_node]
    -- One case for each kind of node that has a meaning of its own.
    split
    · exact keeps.partMeaning _ _ below
    · exact keeps.chainMeaning _ _ _ _ below fun child member => (ends child member).1
    · exact keeps.chainMeaning _ _ _ _ below fun child member => (ends child member).1
    · refine keeps.negate (fun negation member => ?_) (keeps.partMeaning _ _ below)
      exact (ends negation (List.mem_filter.mp member).1).2
    · exact keeps.primaryMeaning below
    · exact keeps.partMeaning _ _ below
    · -- The name of a call is read off the text, which is the same in both readings.
      unfold Tree.required
      split
      · exact called _ _ yields.span
      · exact keeps.malformed _
    · exact compared _ yields
    · exact keeps.malformed _

/-- Both readings of a whole tree are related if those of calls and comparisons are. -/
theorem rootMeaning_related (keeps : Keeps place related)
    (called : ∀ name span, place span → related (call name span) (call' name span))
    (compared : ∀ tree : Tree, tree.Yields place →
      related (comparisonNode ⟨source, language, call⟩ tree)
        (comparisonNode ⟨source, language', call'⟩ tree))
    (tree : Tree) (yields : tree.Yields place) :
    related (rootMeaning ⟨source, language, call⟩ tree)
      (rootMeaning ⟨source, language', call'⟩ tree) :=
  -- The root is one look-up of a part, and the part is related like any tree.
  keeps.partMeaning _ _ fun _ member =>
    meaning_related keeps called compared _ (yields.child member)

end Readings

end FilterLang
