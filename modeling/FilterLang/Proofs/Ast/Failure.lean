import FilterLang.Proofs.Ast.Success
import FilterLang.Proofs.Grammar.Hole
import FilterLang.Proofs.Number.Literal

/-! Which part of a query keeps it from having an AST. -/

namespace FilterLang

section Numbers

/-- A number that a phrase mentions is one of its tokens. -/
theorem Phrase.exists_number {category : Category} (phrase : Phrase category) {raw : String}
    (mentioned : .number raw ∈ phrase.mentions) :
    ∃ token ∈ phrase.tokens, token.kind = .number raw := by
  -- Only literals mention numbers, and the token of a literal keeps its text.
  have literal : ∀ scalar : Scalar, .number raw ∈ scalar.literal.mentions →
      scalar.token.kind = .number raw := by
    rintro ⟨literal, span⟩ own
    cases literal with
    | number other => simpa [Literal.mentions, Scalar.token, Literal.kind, eq_comm] using own
    | _ => cases own
  induction phrase with
  | bare name span => simp [Phrase.mentions] at mentioned
  | compare name span comparator operator scalar =>
    exact ⟨scalar.token, by simp [Phrase.tokens], literal scalar mentioned⟩
  | member name span membership opening listing closing =>
    obtain ⟨scalar, member, own⟩ := List.mem_flatMap.mp mentioned
    exact ⟨scalar.token, by simp [Phrase.tokens, Listing.token_mem member], literal scalar own⟩
  | call name span opening closing => simp [Phrase.mentions] at mentioned
  | group opening inside closing ih =>
    obtain ⟨token, member, kind⟩ := ih mentioned
    exact ⟨token, by simp [Phrase.tokens, member], kind⟩
  | plain operand ih => exact ih mentioned
  | negated word operand ih =>
    obtain ⟨token, member, kind⟩ := ih mentioned
    exact ⟨token, List.mem_cons_of_mem _ member, kind⟩
  | single operand ih => exact ih mentioned
  | join left word right ihLeft ihRight =>
    rcases List.mem_append.mp mentioned with before | behind
    · obtain ⟨token, member, kind⟩ := ihLeft before
      exact ⟨token, List.mem_append_left _ member, kind⟩
    · obtain ⟨token, member, kind⟩ := ihRight behind
      exact ⟨token, by simp [Phrase.tokens, member], kind⟩

/-- A number in a text can be read, be it too large or not. -/
theorem Mentions.number_readable {text raw : String} (mentions : Mentions text (.number raw))
    (fault : NumberFault) : readNumberText raw.toList ≠ .error fault := by
  -- The number of a derivation is a token of the text, and the scanner only takes numerals for
  -- numbers; every numeral can be read.
  obtain ⟨query, derives, mentioned⟩ := mentions
  obtain ⟨token, member, kind⟩ := query.exists_number mentioned
  rw [derives.1] at member
  have numeral := (scans_tokenize text).wellNumbered token member raw kind
  obtain ⟨reading, read⟩ := numeral.exists_reading
  rw [read]
  nofun

end Numbers

/-- A move puts an error at the span, if it has a place at all. -/
@[simp] theorem BuildError.span?_relocate (span : Span) (error : BuildError) :
    (error.relocate span).span? = error.span?.map fun _ => span := by
  cases error <;> rfl

/--
Why a call at a span, inside a chain of calls, means nothing, and the error that says so.

The error of something inside an expansion is at the call that opens the expansion, as is what is
wrong with the call itself.
-/
inductive CallFails (language : Language) (limit : Nat) :
    List String → String → Span → BuildError → Prop where
  -- The call closes a cycle, names no alias or goes too deep, or the expansion cannot be read.
  | refused {chain : List String} {name : String} {span : Span} {error : BuildError}
      (refused : Refused language limit language.aliases.length chain name span error) :
      CallFails language limit chain name span error
  | shorthand {chain : List String} {name field : String} {declared : Alias} (span : Span)
      (opens : Opens language limit chain name declared)
      (mentions : Mentions declared.expansion (.flag field)) (other : ¬ language.IsFlag field) :
      CallFails language limit chain name span (.invalidShorthand field span)
  | number {chain : List String} {name raw : String} {declared : Alias} (span : Span)
      (opens : Opens language limit chain name declared)
      (mentions : Mentions declared.expansion (.number raw))
      (large : readNumberText raw.toList = .ok .outOfRange) :
      CallFails language limit chain name span (.numberOutOfRange raw span)
  | inside {chain : List String} {name deeper : String} {declared : Alias} {place : Span}
      {error : BuildError} (span : Span) (opens : Opens language limit chain name declared)
      (mentions : Mentions declared.expansion (.call deeper))
      (fails : CallFails language limit (chain ++ [name]) deeper place error) :
      CallFails language limit chain name span (error.relocate span)

section CallFails

variable {language : Language} {limit rounds : Nat} {chain : List String} {name text : String}
  {span : Span} {error : BuildError}

/-- What is said of a call is said at the call. -/
theorem CallFails.span?_eq (fails : CallFails language limit chain name span error) :
    error.span? = some span := by
  -- Induction on the failure: each way to fail reports at
  -- the call, and errors from inside are moved there.
  induction fails with
  | refused refused => cases refused <;> rfl
  | shorthand span opens mentions other => rfl
  | number span opens mentions large => rfl
  | inside span opens mentions fails ih => rw [BuildError.span?_relocate, ih]; rfl

/-- With a round for each alias off the chain, an alias is unknown only if it is not declared. -/
theorem Refused.of_enough (refused : Refused language limit rounds chain name span error)
    (admissible : Admissible language chain)
    (enough : language.aliases.length ≤ rounds + chain.length) :
    Refused language limit language.aliases.length chain name span error := by
  -- Only an unknown name depends on the rounds: when they have run out, the chain holds every
  -- declared alias, and the name is not in it.
  cases refused with
  | repeated _ again => exact .repeated _ again
  | tooDeep _ fresh found deep => exact .tooDeep _ fresh found deep
  | unreadable _ fresh found room faulty => exact .unreadable _ fresh found room faulty
  | unknown _ fresh absent =>
    refine .unknown _ fresh (.inr ?_)
    rcases absent with rfl | absent
    · cases found : language.aliases.find? (·.name == name) with
      | none => rfl
      | some declared =>
        have shorter := admissible.length_lt fresh found
        omega
    · exact absent

/-- A call without an AST fails for a reason, given rounds for the aliases off the chain. -/
theorem callFails_of_callAst (admissible : Admissible language chain)
    (enough : language.aliases.length ≤ rounds + chain.length)
    (failed : callAst language limit rounds chain name = .error error) (span : Span) :
    CallFails language limit chain name span (error.relocate span) := by
  -- A call takes a round and puts a name on the chain, so the sum of both stays.
  induction rounds using Nat.strongRecOn generalizing chain name error span with
  | ind rounds ih =>
    rcases callAst_error failed with refused | ⟨fewer, declared, rfl, opens, inside⟩
    · exact .refused ((refused span).of_enough admissible enough)
    · obtain ⟨mention, mentions, fails⟩ := exists_fails_of_textAst opens.readable inside
      cases fails with
      | flag other => exact .shorthand span opens mentions other
      | number large => exact .number span opens mentions large
      | unread faulty => exact absurd faulty (mentions.number_readable _)
      | call failed =>
        -- The reason lies inside a further call, which puts its error at a place of its own.
        have longer := admissible.snoc opens.fresh opens.found
        have deeper := ih fewer (Nat.lt_succ_self fewer) longer (by simp; omega) failed (.empty 0)
        rw [← BuildError.relocate_relocate span (.empty 0)]
        exact .inside span opens mentions deeper

/-- A call in a query that means nothing fails for a reason. -/
theorem callFails_of_expandAlias
    (failed : expandAlias .standard language limit language.aliases.length [] name span =
      .error error) : CallFails language limit [] name span error := by
  have unplaced := @expandAlias_unplaced language limit language.aliases.length [] name span
  rw [failed] at unplaced
  -- The error is at the call already, so it is none other when it is put there.
  have fails := callFails_of_callAst .nil (Nat.le_add_right _ _) unplaced.symm span
  rwa [BuildError.relocate_relocate, expandAlias_error failed] at fails

/-- The error of a text that can be read has a place, given rounds for the aliases off the chain. -/
theorem span?_isSome_of_textAst (readable : (parse text).fault? = none)
    (admissible : Admissible language chain)
    (enough : language.aliases.length ≤ rounds + chain.length)
    (failed : textAst language limit rounds chain text = .error error) :
    error.span?.isSome = true := by
  -- The error comes from one mention of the text. Number faults do not happen, and every other
  -- failure of a mention is reported at a place.
  obtain ⟨mention, mentions, fails⟩ := exists_fails_of_textAst readable failed
  cases fails with
  | flag other => rfl
  | number large => rfl
  | unread faulty => exact absurd faulty (mentions.number_readable _)
  | call failed =>
    have fails := callFails_of_callAst admissible enough failed (.empty 0)
    -- Moving an error keeps it placed or unplaced, and the moved one is at the call.
    have placed := fails.span?_eq
    rw [BuildError.span?_relocate] at placed
    cases here : error.span? with
    | some place => rfl
    | none => simp [here] at placed

end CallFails

/-- The kinds of nodes that the meaning of a query is made of: comparisons and calls. -/
def NodeKind.isAtom (kind : NodeKind) : Bool :=
  kind = .comparison || kind = .aliasCall

/-- A comparison or call is one of the two. -/
theorem NodeKind.isAtom_iff {kind : NodeKind} :
    kind.isAtom = true ↔ kind = .comparison ∨ kind = .aliasCall := by
  simp [NodeKind.isAtom]

/-- The comparisons and calls in a tree, from left to right. -/
def Tree.atoms (tree : Tree) : List Tree :=
  tree.ofKinds NodeKind.isAtom

/-- The atoms of a tree are nodes in it. -/
theorem Tree.mem_atoms {tree atom : Tree} :
    atom ∈ tree.atoms ↔ atom ∈ tree.subtrees ∧ atom.kind.isAtom = true :=
  List.mem_filter

section Atoms

/-- A leaf of another kind holds no atom. -/
@[simp] theorem Tree.atoms_leaf {kind : NodeKind} (other : kind.isAtom = false) (span : Span) :
    (Tree.leaf kind span).atoms = [] :=
  Tree.ofKinds_leaf other span

/-- A node of another kind holds the atoms of its children. -/
@[simp] theorem Tree.atoms_node {kind : NodeKind} (other : kind.isAtom = false) (span : Span)
    (children : List Tree) :
    (Tree.node kind span children).atoms = children.flatMap Tree.atoms :=
  Tree.ofKinds_node other span children

/-- An inner node of another kind holds the atoms of its children. -/
@[simp] theorem atoms_inner {kind : NodeKind} (other : kind.isAtom = false)
    (children : List Tree) : (inner kind children).atoms = children.flatMap Tree.atoms :=
  ofKinds_inner other children

/-- The tree of a scalar holds no atom. -/
@[simp] theorem Scalar.atoms_tree (scalar : Scalar) : scalar.tree.atoms = [] :=
  scalar.ofKinds_tree rfl fun literal => by cases literal <;> rfl

/-- The trees of a list's inside hold no atom. -/
@[simp] theorem Listing.atoms_trees (listing : Listing) :
    listing.trees.flatMap Tree.atoms = [] :=
  listing.ofKinds_trees rfl rfl rfl fun literal => by cases literal <;> rfl

/-- No phrase's node is an atom. -/
@[simp] theorem Category.isAtom_nodeKind (category : Category) :
    category.nodeKind.isAtom = false := by
  -- Inner categories are never the node of an atom; a chain has two node kinds.
  cases category with
  | chain connective => cases connective <;> rfl
  | _ => rfl

/-- No word between operands is an atom. -/
@[simp] theorem Connective.isAtom_mark (connective : Connective) :
    connective.mark.isAtom = false := by
  cases connective <;> rfl

end Atoms

/-- Of some trees the first without a meaning fails with an error. -/
def FailsFirst (around : Surroundings) (trees : List Tree) (error : BuildError) : Prop :=
  ∃ before atom after, trees = before ++ atom :: after ∧
    (∀ earlier ∈ before, ∃ node, meaning around earlier = .ok node) ∧
    meaning around atom = .error error

/-- The atoms of an expression decide whether it has a meaning, and with which error it has none. -/
def Decide (around : Surroundings) (atoms : List Tree) : Built → Prop
  | .ok _ => ∀ atom ∈ atoms, ∃ node, meaning around atom = .ok node
  | .error error => FailsFirst around atoms error

namespace Decide

variable {around : Surroundings} {atoms left right : List Tree} {outcome one other : Built}

/-- An atom decides about itself. -/
theorem single (around : Surroundings) (atom : Tree) :
    Decide around [atom] (meaning around atom) := by
  -- One atom decides by itself: it fails first or all is well.
  cases outcome : meaning around atom with
  | ok node => exact List.forall_mem_singleton.mpr ⟨node, outcome⟩
  | error error => exact ⟨[], atom, [], rfl, nofun, outcome⟩

/-- What is done with an expression once it is there decides nothing. -/
theorem wrapped (decided : Decide around atoms outcome) (wrap : Node → Node) :
    Decide around atoms (do return wrap (← outcome)) := by
  -- Wrapping changes what is built but not whether something is.
  cases outcome with
  | ok node => exact decided
  | error error => exact decided

/-- The atoms of the left side decide before those of the right side. -/
theorem joined (first : Decide around left one) (second : Decide around right other)
    (join : Node → Node → Node) :
    Decide around (left ++ right) (do
      let early ← one
      let late ← other
      return join early late) := by
  -- The left side is built first, so its failure hides those of the right.
  cases one with
  | error error =>
    obtain ⟨before, atom, after, rfl, fine, failed⟩ := first
    exact ⟨before, atom, after ++ right, by simp, fine, failed⟩
  | ok early =>
    cases other with
    | ok late => exact List.forall_mem_append.mpr ⟨first, second⟩
    | error error =>
      obtain ⟨before, atom, after, rfl, fine, failed⟩ := second
      refine ⟨left ++ before, atom, after, by simp, ?_, failed⟩
      exact List.forall_mem_append.mpr ⟨first, fine⟩

end Decide

/-- A primary expression that is an atom is decided by it. -/
theorem Decide.primary (around : Surroundings) {kind : NodeKind} {children : List Tree}
    (atom : kind.isAtom = true) (bare : children.flatMap Tree.atoms = []) (place : Span) :
    Decide around ([inner kind children].flatMap Tree.atoms)
      (meaning around (.node .primary place [inner kind children])) := by
  -- The body is an atom itself, and none stands below it.
  have body : kind = .group ∨ kind = .aliasCall ∨ kind = .comparison :=
    .inr (NodeKind.isAtom_iff.mp atom).symm
  have own : (inner kind children).atoms = [inner kind children] := by
    rw [Tree.atoms, ofKinds_inner_of_pos atom]
    exact congrArg (inner kind children :: ·) bare
  rw [meaning_primary _ _ body, ← inner_eq_node, List.flatMap_singleton, own]
  exact .single around _

/-- The atoms of a phrase decide about the phrase. -/
theorem Phrase.decide_atoms (around : Surroundings) {category : Category} (phrase : Phrase category)
    (place : Span) :
    Decide around (phrase.parts.flatMap Tree.atoms)
      (meaning around (.node category.nodeKind place phrase.parts)) := by
  -- Comparisons and calls are atoms themselves, and all other forms leave it to their parts.
  induction phrase generalizing place with
  | bare name span =>
    exact .primary around rfl (by simp [fieldTree, NodeKind.isAtom]) place
  | compare name span comparator operator scalar =>
    exact .primary around rfl (by simp [fieldTree, NodeKind.isAtom]) place
  | member name span membership opening listing closing =>
    exact .primary around rfl (by simp [fieldTree, listTree, NodeKind.isAtom]) place
  | call name span opening closing =>
    exact .primary around rfl (by simp [NodeKind.isAtom]) place
  | group opening inside closing ih =>
    have parts : (Phrase.group opening inside closing).parts.flatMap Tree.atoms =
        inside.parts.flatMap Tree.atoms := by
      simp [Phrase.parts, NodeKind.isAtom]
    rw [parts, Category.nodeKind, Phrase.parts, meaning_primary _ _ (by simp), meaning_group,
      inner_eq_node .orExpression]
    exact ih _
  | plain operand ih =>
    have parts : (Phrase.plain operand).parts.flatMap Tree.atoms =
        operand.parts.flatMap Tree.atoms := by
      simp [Phrase.parts, NodeKind.isAtom]
    rw [parts, Category.nodeKind, Phrase.parts, meaning_plain, inner_eq_node]
    exact ih _
  | negated word operand ih =>
    have parts : (Phrase.negated word operand).parts.flatMap Tree.atoms =
        operand.parts.flatMap Tree.atoms := by
      simp [Phrase.parts, NodeKind.isAtom]
    rw [parts, Category.nodeKind, Phrase.parts, meaning_negated]
    exact (ih place).wrapped fun node => .negation node (some ⟨word.start, place.stop⟩)
  | single operand ih =>
    rw [meaning_single, Phrase.tree, inner_eq_node]
    simpa [Phrase.parts] using ih _
  | @join connective left word right ihLeft ihRight =>
    -- The left side is asked for first, and only if it has a meaning the right side.
    rw [meaning_join]
    have parts : (Phrase.join left word right).parts.flatMap Tree.atoms =
        left.parts.flatMap Tree.atoms ++ right.parts.flatMap Tree.atoms := by
      simp [Phrase.parts]
    have decided := ihRight right.tree.span
    rw [Phrase.tree, ← inner_eq_node] at decided
    rw [parts]
    exact (ihLeft place).joined decided fun first second =>
      .logical connective first second (some ⟨place.start, right.tree.span.stop⟩)

/-- The atoms of a readable text are those of the query that derives it. -/
theorem atoms_of_derives {query : Query} {text : String} (derives : query.Derives text) :
    (parse text).atoms = query.parts.flatMap Tree.atoms := by
  -- The nodes above the chain are no atoms and have no other child.
  rw [parse_of_derives derives]
  simp [Phrase.tree, NodeKind.isAtom, Category.nodeKind]

/-- A query past the checks fails with the error of its first atom that means nothing. -/
theorem failsFirst_of_buildRoot {language : Language} {limit : Nat} {text : String}
    {error : BuildError} (distinct : (language.aliases.map (·.name)).Nodup)
    (readable : (parse text).fault? = none)
    (failed : buildRoot .standard language limit (parse text) text = .error error) :
    FailsFirst (querySurroundings language limit text) (parse text).atoms error := by
  -- The root means what the chain of a derivation means, and the chain's atoms decide that.
  obtain ⟨query, derives, means⟩ := exists_meaning language limit distinct readable
  have decided := query.decide_atoms (querySurroundings language limit text) query.tree.span
  rw [← means, failed, ← atoms_of_derives derives] at decided
  exact decided

end FilterLang
