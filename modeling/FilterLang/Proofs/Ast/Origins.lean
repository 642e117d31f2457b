import FilterLang.Proofs.Ast.Failure
import FilterLang.Proofs.Ast.Placement
import FilterLang.Proofs.Ast.Substitution

/-! All that comes of a call is at the call that the query itself makes. -/

namespace FilterLang

/-- An expression and all expressions in it, each ahead of its parts. -/
def Node.expressions : Node → List Node
  | .comparison field operator value span => [.comparison field operator value span]
  | .logical operator left right span =>
    .logical operator left right span :: (left.expressions ++ right.expressions)
  | .negation expression span => .negation expression span :: expression.expressions

/-- An expression is one of the expressions in it. -/
theorem Node.singleton_sublist (node : Node) : [node].Sublist node.expressions := by
  cases node <;> simp [Node.expressions]

/-- The meaning of a call is asked for by the name that it begins with. -/
theorem meaning_of_call (around : Surroundings) {call : Tree} (kind : call.kind = .aliasCall) :
    meaning around call = call.required .identifier >>= fun name =>
      around.call (name.text around.source) call.span := by
  -- The node kind selects the rule for calls.
  obtain ⟨_, span, children⟩ := call
  obtain rfl : _ = NodeKind.aliasCall := kind
  rw [meaning]
  rfl

/-- The calls in a phrase mean expressions that stand in this order in what the phrase builds. -/
theorem Phrase.Builds.calls {around : Surroundings} {category : Category}
    {phrase : Phrase category} {place : Span} {node : Node}
    (built : phrase.Builds around place node)
    (spelled : ∀ token ∈ phrase.tokens, token.SpelledIn around.source) :
    ∃ nodes, List.Forall₂ (fun call node => call.kind = .aliasCall ∧ meaning around call = .ok node)
        (phrase.parts.flatMap Tree.calls) nodes ∧ nodes.Sublist node.expressions := by
  -- Both lists grow alike: an expression holds those of its operands, behind itself and in order.
  induction built with
  | bare span place flag => exact ⟨[], by simp [Phrase.parts, fieldTree], by simp⟩
  | compare name span comparator operator place built =>
    exact ⟨[], by simp [Phrase.parts, fieldTree], by simp⟩
  | member name span membership opening closing place each =>
    exact ⟨[], by simp [Phrase.parts, fieldTree, listTree], by simp⟩
  | @call name span opening closing node place called =>
    have named := spelled ⟨.identifier name, span⟩ List.mem_cons_self
    have means : meaning around (callTree span opening closing) = .ok node := by
      rw [callTree, inner_eq_node, meaning_call _ _ _ named]
      exact called
    refine ⟨[node], ?_, node.singleton_sublist⟩
    show List.Forall₂ _ ([callTree span opening closing].flatMap Tree.calls) [node]
    rw [List.flatMap_singleton, calls_callTree]
    exact .cons ⟨by simp [callTree], means⟩ .nil
  | group opening closing place built ih =>
    obtain ⟨nodes, means, inside⟩ := ih fun token member => spelled token (by
      simp [Phrase.tokens, member])
    exact ⟨nodes, by simpa [Phrase.parts] using means, inside⟩
  | plain place built ih =>
    obtain ⟨nodes, means, inside⟩ := ih spelled
    exact ⟨nodes, by simpa [Phrase.parts] using means, inside⟩
  | negated word built ih =>
    obtain ⟨nodes, means, inside⟩ := ih fun token member => spelled token (by
      simp [Phrase.tokens, member])
    exact ⟨nodes, by simpa [Phrase.parts] using means, inside.cons _⟩
  | single place built ih =>
    obtain ⟨nodes, means, inside⟩ := ih spelled
    exact ⟨nodes, by simpa [Phrase.parts] using means, inside⟩
  | @join connective left right place first second word early late ihLeft ihRight =>
    obtain ⟨before, means, inside⟩ := ihLeft fun token member => spelled token (by
      simp [Phrase.tokens, member])
    obtain ⟨behind, means', inside'⟩ := ihRight fun token member => spelled token (by
      simp [Phrase.tokens, member])
    have parts : (Phrase.join left word right).parts.flatMap Tree.calls =
        left.parts.flatMap Tree.calls ++ right.parts.flatMap Tree.calls := by
      simp [Phrase.parts]
    refine ⟨before ++ behind, ?_, (inside.append inside').cons _⟩
    rw [parts]
    exact List.rel_append means means'

/-- A call that has an AST has that of the alias's expansion, places aside. -/
theorem exists_expanded {language : Language} {limit : Nat}
    (distinct : (language.aliases.map (·.name)).Nodup) {name : String} {span : Span} {node : Node}
    (called : expandAlias .standard language limit language.aliases.length [] name span =
      .ok node) :
    ∃ declared ∈ language.aliases, declared.name = name ∧ ∃ inner,
      buildRoot .standard language limit (parse declared.expansion) declared.expansion =
        .ok inner ∧ node.eraseSpans = inner.eraseSpans := by
  obtain ⟨fewer, declared, root, -, opens, -, -⟩ := expandAlias_ok called
  obtain ⟨declares, rfl⟩ := declared_of_find? opens.found
  have made : callAst language limit language.aliases.length [] declared.name =
      .ok node.eraseSpans := by
    rw [← expandAlias_unplaced span, called]
    rfl
  -- Outside of the call the expansion may call no less than inside of it.
  obtain ⟨body, derives, written⟩ := group_ast_of_call distinct declares made
  rw [← textAst_of_derives derives] at written
  obtain ⟨inner, built, same⟩ := buildRoot_of_textAst distinct opens.readable written
  exact ⟨declared, declares, rfl, inner, built, same.symm⟩

/--
A call in a query gives an expression that is all at the call and that is, places aside, the AST of
the expansion of the alias that is called.
-/
structure CallGives (language : Language) (limit : Nat) (text : String) (call : Tree)
    (node : Node) : Prop where
  meant : meaning (querySurroundings language limit text) call = .ok node
  placed : ∀ entry ∈ node.items, ∀ place ∈ entry.2.places, place = some call.span
  expanded : ∃ identifier, call.required .identifier = .ok identifier ∧
    ∃ declared ∈ language.aliases, declared.name = identifier.text text.toList ∧ ∃ inner,
      buildRoot .standard language limit (parse declared.expansion) declared.expansion =
        .ok inner ∧ node.eraseSpans = inner.eraseSpans

/-- What a call means it gives. -/
theorem callGives_of_meaning {language : Language} {limit : Nat} {text : String}
    (distinct : (language.aliases.map (·.name)).Nodup) {call : Tree} {node : Node}
    (kind : call.kind = .aliasCall)
    (meant : meaning (querySurroundings language limit text) call = .ok node) :
    CallGives language limit text call node := by
  -- The name is looked up first, and then the alias is expanded at the span of the call.
  have called := meant
  rw [meaning_of_call _ kind, bind_eq_ok] at called
  obtain ⟨identifier, named, called⟩ := called
  obtain ⟨-, -, root, -, -, -, same⟩ := expandAlias_ok called
  refine ⟨meant, fun entry member => ?_, identifier, named, exists_expanded distinct called⟩
  -- The expansion was moved as a whole, so all its parts are at the call.
  rw [same] at member
  exact Node.places_relocate root 1 entry member

/-- The calls in a query with an AST give expressions that stand in it in this order. -/
theorem callsGive_of_buildRoot {language : Language} {limit : Nat} {text : String} {root : Node}
    (built : buildRoot .standard language limit (parse text) text = .ok root) :
    ∃ nodes, List.Forall₂ (CallGives language limit text) (parse text).calls nodes ∧
      nodes.Sublist root.expressions := by
  -- The derivation's calls are the tree's, in order, and each of them builds its own expression.
  obtain ⟨distinct, -⟩ := buildRoot_ok built
  obtain ⟨query, derives, builds⟩ := exists_builds built
  obtain ⟨nodes, means, inside⟩ := builds.calls derives.legible.spelled
  rw [← calls_of_derives derives] at means
  exact ⟨nodes, means.imp fun _ _ ⟨kind, meant⟩ => callGives_of_meaning distinct kind meant, inside⟩

/-- All places that a tidy tree yields lie within the tree. -/
theorem Tree.yields_within {tree : Tree} (tidy : ∀ sub ∈ tree.subtrees, sub.IsTidy) :
    tree.Yields (·.Within tree.span) := by
  have bounds := Tree.within tidy
  intro sub member
  obtain ⟨begins, -, ends⟩ := bounds sub member
  refine ⟨⟨begins, ends⟩, fun child below => ?_⟩
  -- A child of a node in the tree is a node in the tree as well.
  have among := Tree.mem_subtrees_trans member (Tree.mem_subtrees_of_mem_children below)
  obtain ⟨childBegins, -, childEnds⟩ := bounds child among
  exact ⟨⟨begins, childEnds⟩, ⟨childBegins, ends⟩⟩

/-- The error of a comparison has no place outside of the comparison. -/
theorem within_of_comparison {around : Surroundings} {tree : Tree} {error : BuildError}
    (kind : tree.kind = .comparison) (tidy : ∀ sub ∈ tree.subtrees, sub.IsTidy)
    (failed : meaning around tree = .error error) {place : Span} (here : error.span? = some place) :
    place.Within tree.span := by
  have places : Places Node.spans (·.Within tree.span) (comparisonNode around tree) :=
    comparisonNode_places (Tree.yields_within tidy)
  obtain ⟨_, span, children⟩ := tree
  obtain rfl : _ = NodeKind.comparison := kind
  rw [← meaning_comparison, failed] at places
  -- Only a report on a text would be no matter of places, and it has none.
  cases error with
  | unreadable report => exact places.elim
  | _ => exact places place here

/-- The error of a call that has a place is one of the reasons for which calls fail. -/
theorem callFails_of_meaning {language : Language} {limit : Nat} {text : String} {call : Tree}
    {error : BuildError} (kind : call.kind = .aliasCall)
    (failed : meaning (querySurroundings language limit text) call = .error error)
    (placed : error.span?.isSome = true) :
    ∃ identifier, call.required .identifier = .ok identifier ∧
      CallFails language limit [] (identifier.text text.toList) call.span error := by
  rw [meaning_of_call _ kind, bind_eq_error] at failed
  rcases failed with unnamed | ⟨identifier, named, called⟩
  · -- A call without a name would be no tree of the grammar, which is said at no place.
    unfold Tree.required at unnamed
    split at unnamed
    · cases unnamed
    · cases unnamed
      cases placed
  · exact ⟨identifier, named, callFails_of_expandAlias called⟩

/--
What comes of a call is at the call that the query itself makes, be it an AST or an error.

In the AST of a query, each call of the query gives an expression with every place at the call, and
that is otherwise the AST of the called alias's expansion. An error is about a repeated alias or a
fault of the text itself, or else it is that of the first comparison or call that means nothing.
Then it has a place: of a comparison inside the comparison, and of a call the whole call, however
deep in the expansions that it leads to the reason lies.
-/
theorem buildRoot_locates_calls (language : Language) (limit : Nat) (text : String) :
    (∀ root, buildRoot .standard language limit (parse text) text = .ok root →
      ∃ nodes, List.Forall₂ (CallGives language limit text) (parse text).calls nodes ∧
        nodes.Sublist root.expressions) ∧
    ∀ error, buildRoot .standard language limit (parse text) text = .error error →
      (∃ name, error = .duplicateAlias name ∧ ¬ (language.aliases.map (·.name)).Nodup) ∨
      (∃ report, error = .unreadable report ∧ (parse text).fault? = some report) ∨
      ∃ before atom after, (parse text).atoms = before ++ atom :: after ∧
        (∀ earlier ∈ before,
          ∃ node, meaning (querySurroundings language limit text) earlier = .ok node) ∧
        meaning (querySurroundings language limit text) atom = .error error ∧
        (atom.kind = .comparison ∧
            (∃ place, error.span? = some place ∧ place.Within atom.span) ∨
          atom.kind = .aliasCall ∧ error.span? = some atom.span ∧
            ∃ identifier, atom.required .identifier = .ok identifier ∧
              CallFails language limit [] (identifier.text text.toList) atom.span error) := by
  refine ⟨fun root => callsGive_of_buildRoot, fun error failed => ?_⟩
  rcases buildRoot_cases language limit text with
    ⟨name, refused, repeated⟩ | ⟨report, refused, faulty⟩ | ⟨distinct, readable⟩
  · exact .inl ⟨name, Except.error.inj (failed.symm.trans refused), repeated⟩
  · exact .inr (.inl ⟨report, Except.error.inj (failed.symm.trans refused), faulty⟩)
  · -- Past both checks it is left to the comparisons and calls which error there is.
    refine .inr (.inr ?_)
    obtain ⟨before, atom, after, split, fine, fails⟩ :=
      failsFirst_of_buildRoot distinct readable failed
    refine ⟨before, atom, after, split, fine, fails, ?_⟩
    -- A readable text never fails without a place, which rules out a tree that is malformed.
    have placed : error.span?.isSome = true := by
      have unplaced := @buildRoot_unplaced language limit text distinct readable
      rw [failed] at unplaced
      have located := span?_isSome_of_textAst readable .nil (Nat.le_add_right _ _) unplaced.symm
      simpa using located
    have member : atom ∈ (parse text).atoms := by simp [split]
    obtain ⟨among, kinds⟩ := Tree.mem_atoms.mp member
    rcases NodeKind.isAtom_iff.mp kinds with kind | kind
    · obtain ⟨place, here⟩ := Option.isSome_iff_exists.mp placed
      have tidy : ∀ sub ∈ atom.subtrees, sub.IsTidy := fun sub below =>
        parse_isTidy text sub (Tree.mem_subtrees_trans among below)
      exact .inl ⟨kind, place, here, within_of_comparison kind tidy fails here⟩
    · obtain ⟨identifier, named, reason⟩ := callFails_of_meaning kind fails placed
      exact .inr ⟨kind, reason.span?_eq, identifier, named, reason⟩

/-- Issues with an alias that leads, through another one, to a field that cannot stand alone. -/
def misledLanguage : Language :=
  { issueLanguage with aliases := [⟨"mine", "archived OR open()"⟩, ⟨"open", "owner"⟩] }

/-- A query that calls an alias behind a comparison. -/
def issueCall : String :=
  "archived AND mine()"

/--
A call through which another one is reached gives an expression that is all at the call. Where the
call that it reaches means nothing, the error is at the call in the query.
-/
theorem issueCall_located :
    (∃ root nodes, buildRoot .standard issueLanguage 8 (parse issueCall) issueCall = .ok root ∧
      nodes.length = 1 ∧ root.size = 9 ∧
      List.Forall₂ (CallGives issueLanguage 8 issueCall) (parse issueCall).calls nodes ∧
      nodes.Sublist root.expressions) ∧
    buildRoot .standard misledLanguage 8 (parse issueCall) issueCall =
      .error (.invalidShorthand "owner" ⟨13, 19⟩) ∧
    ∃ atom ∈ (parse issueCall).atoms, atom.kind = .aliasCall ∧ atom.span = ⟨13, 19⟩ ∧
      ∃ identifier, atom.required .identifier = .ok identifier ∧
        CallFails misledLanguage 8 [] (identifier.text issueCall.toList) ⟨13, 19⟩
          (.invalidShorthand "owner" ⟨13, 19⟩) := by
  have sized : (buildRoot .standard issueLanguage 8 (parse issueCall) issueCall).toOption.map
      Node.size = some 9 := by
    decide +kernel
  have single : (parse issueCall).calls.length = 1 := by decide +kernel
  have told : (buildRoot .standard misledLanguage 8 (parse issueCall) issueCall).map
      (fun _ => ()) = .error (.invalidShorthand "owner" ⟨13, 19⟩) := by
    decide +kernel
  have early : ∀ atom ∈ (parse issueCall).atoms, atom.kind = .comparison →
      atom.span.stop < 19 := by
    decide +kernel
  constructor
  · obtain ⟨gives, -⟩ := buildRoot_locates_calls issueLanguage 8 issueCall
    cases built : buildRoot .standard issueLanguage 8 (parse issueCall) issueCall with
    | error error =>
      rw [built] at sized
      cases sized
    | ok root =>
      rw [built] at sized
      obtain ⟨nodes, given, inside⟩ := gives root built
      exact ⟨root, nodes, rfl, given.length_eq ▸ single, Option.some.inj sized, given, inside⟩
  · obtain ⟨-, located⟩ := buildRoot_locates_calls misledLanguage 8 issueCall
    cases failed : buildRoot .standard misledLanguage 8 (parse issueCall) issueCall with
    | ok root =>
      rw [failed] at told
      cases told
    | error error =>
      rw [failed] at told
      obtain rfl := Except.error.inj told
      refine ⟨rfl, ?_⟩
      rcases located _ failed with ⟨_, other, -⟩ | ⟨_, other, -⟩ |
        ⟨before, atom, after, split, -, -, ⟨kind, place, here, -, ends⟩ | ⟨kind, here, reason⟩⟩
      · cases other
      · cases other
      · -- The only comparison of the query ends before the call.
        have short := early atom (by simp [split]) kind
        cases here
        exact absurd ends (Nat.not_le.mpr short)
      · have same : atom.span = ⟨13, 19⟩ := (Option.some.inj here).symm
        rw [same] at reason
        exact ⟨atom, by simp [split], kind, same, reason⟩

end FilterLang
