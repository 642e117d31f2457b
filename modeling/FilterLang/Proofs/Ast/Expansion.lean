import FilterLang.Proofs.Ast.Meaning

/-! What calls of aliases stand for, apart from the places in it. -/

namespace FilterLang

/-- What a call inside a chain of calls stands for. -/
def callAst (language : Language) (limit rounds : Nat) (chain : List String) (name : String) :
    Built :=
  (expandAlias .standard language limit rounds chain name (.empty 0)).unplaced

/-- What a text stands for inside a chain of calls. -/
def textAst (language : Language) (limit rounds : Nat) (chain : List String) (text : String) :
    Built :=
  (rootMeaning ⟨text.toList, language, expandAlias .standard language limit rounds chain⟩
    (parse text)).unplaced

/-- An alias that a call inside a chain opens: no check refuses the call. -/
structure Opens (language : Language) (limit : Nat) (chain : List String) (name : String)
    (declared : Alias) : Prop where
  fresh : name ∉ chain
  room : chain.length < limit
  found : language.aliases.find? (·.name == name) = some declared
  readable : (parse declared.expansion).fault? = none

variable {language : Language} {limit rounds : Nat} {chain : List String} {name text : String}

/-- Of aliases with distinct names, each is the first by its name. -/
theorem find?_of_distinct {aliases : List Alias} (distinct : (aliases.map (·.name)).Nodup)
    {declared : Alias} (declares : declared ∈ aliases) :
    aliases.find? (·.name == declared.name) = some declared := by
  induction aliases with
  | nil => cases declares
  | cons first rest ih =>
    simp only [List.map_cons, List.nodup_cons, List.mem_map, not_exists, not_and] at distinct
    rcases List.mem_cons.mp declares with rfl | later
    · simp
    · -- An alias further behind has another name than the first.
      have other : (first.name == declared.name) = false :=
        beq_eq_false_iff_ne.mpr (Ne.symm (distinct.1 declared later))
      rw [List.find?_cons, other]
      exact ih distinct.2 later

/-- An alias that is found by a name is declared and goes by the name. -/
theorem declared_of_find? {declared : Alias}
    (found : language.aliases.find? (·.name == name) = some declared) :
    declared ∈ language.aliases ∧ declared.name = name :=
  ⟨List.mem_of_find?_eq_some found, by simpa using List.find?_some found⟩

/-- The alias that a call opens is the one declared by the name. -/
theorem Opens.eq_declared (distinct : (language.aliases.map (·.name)).Nodup)
    {declared opened : Alias} (declares : declared ∈ language.aliases)
    (opens : Opens language limit chain declared.name opened) : opened = declared := by
  -- A call opens the first alias of its name, and with distinct names there is no other.
  have first := find?_of_distinct distinct declares
  rw [opens.found] at first
  exact Option.some.inj first

/-- An outcome that was put at a place has lost its own places. -/
theorem unplaced_relocated (outcome : Built) (span : Span) :
    Built.unplaced (match outcome with
      | .ok root => .ok (root.relocate (some span))
      | .error error => .error (error.relocate span)) = outcome.unplaced := by
  -- The later move wins, over nodes as over errors, and the last one is to no place at all.
  cases outcome with
  | ok root => exact congrArg Except.ok (Node.relocate_relocate none (some span) root)
  | error error => exact congrArg Except.error (BuildError.relocate_relocate _ span error)

/-- A call that opens an alias has the outcome of the expansion, put at the call. -/
theorem expandAlias_opened {declared : Alias} (opens : Opens language limit chain name declared)
    (span : Span) :
    expandAlias .standard language limit (rounds + 1) chain name span =
      match rootMeaning ⟨declared.expansion.toList, language,
        expandAlias .standard language limit rounds (chain ++ [name])⟩
        (parse declared.expansion) with
      | .ok root => .ok (root.relocate (some span))
      | .error error => .error (error.relocate span) := by
  -- The expansion is read by the grammar that was handed in, which is the standard one.
  have standard : Grammar.standard.parse declared.expansion = parse declared.expansion := rfl
  have unrepeated : ¬ chain.contains name = true := by simpa using opens.fresh
  rw [expandAlias.eq_1 _ _ _ _ _ _ _ declared opens.found, if_neg unrepeated,
    if_neg (Nat.not_le.mpr opens.room), standard]
  cases meant : rootMeaning ⟨declared.expansion.toList, language,
    expandAlias .standard language limit rounds (chain ++ [name])⟩
    (parse declared.expansion) <;> simp only [opens.readable, meant]

/-- A call that opens an alias stands for the alias's expansion, places aside. -/
theorem expandAlias_of_opens {declared : Alias} (opens : Opens language limit chain name declared)
    (span : Span) :
    (expandAlias .standard language limit (rounds + 1) chain name span).unplaced =
      textAst language limit rounds (chain ++ [name]) declared.expansion := by
  rw [expandAlias_opened opens, textAst]
  -- What the expansion means is left alone here: only where it stands matters.
  generalize rootMeaning ⟨declared.expansion.toList, language,
    expandAlias .standard language limit rounds (chain ++ [name])⟩
    (parse declared.expansion) = outcome
  exact unplaced_relocated outcome span

/-- A call of a name in the chain is refused. -/
theorem expandAlias_repeated (repeated : name ∈ chain) (span : Span) :
    expandAlias .standard language limit rounds chain name span =
      .error (.aliasCycle (chain ++ [name]) span) := by
  -- The chain is looked at before anything else.
  rw [expandAlias.eq_def]
  simp [repeated]

/-- A call of a name that no alias goes by is refused. -/
theorem expandAlias_undeclared (fresh : name ∉ chain)
    (absent : language.aliases.find? (·.name == name) = none) (span : Span) :
    expandAlias .standard language limit rounds chain name span =
      .error (.unknownAlias name span) := by
  -- The look-up comes right after the chain, before any round is spent.
  rw [expandAlias.eq_def]
  simp [fresh, absent]

/-- The rounds left matter to a call only inside the expansion of a declared alias. -/
theorem expandAlias_congr {rounds' : Nat}
    (agree : ∀ declared, name ∉ chain → language.aliases.find? (·.name == name) = some declared →
      ∃ fewer fewer', rounds = fewer + 1 ∧ rounds' = fewer' + 1 ∧
        expandAlias .standard language limit fewer (chain ++ [name]) =
          expandAlias .standard language limit fewer' (chain ++ [name])) (span : Span) :
    expandAlias .standard language limit rounds chain name span =
      expandAlias .standard language limit rounds' chain name span := by
  -- The checks for a repeated and for an unknown name come first and ask for no round.
  by_cases repeated : name ∈ chain
  · rw [expandAlias_repeated repeated, expandAlias_repeated repeated]
  · cases found : language.aliases.find? (·.name == name) with
    | none => rw [expandAlias_undeclared repeated found, expandAlias_undeclared repeated found]
    | some declared =>
      obtain ⟨fewer, fewer', rfl, rfl, inside⟩ := agree declared repeated found
      rw [expandAlias.eq_1 _ _ _ _ _ _ _ declared found,
        expandAlias.eq_1 _ _ _ _ _ _ _ declared found, inside]

/-- A call is refused before an expansion is read, for a reason that is shown at a place. -/
inductive Refused (language : Language) (limit rounds : Nat) (chain : List String)
    (name : String) : Span → BuildError → Prop where
  | repeated (span : Span) (again : name ∈ chain) :
      Refused language limit rounds chain name span (.aliasCycle (chain ++ [name]) span)
  -- Without a round no alias counts as declared.
  | unknown (span : Span) (fresh : name ∉ chain)
      (absent : rounds = 0 ∨ language.aliases.find? (·.name == name) = none) :
      Refused language limit rounds chain name span (.unknownAlias name span)
  | tooDeep {declared : Alias} (span : Span) (fresh : name ∉ chain)
      (found : language.aliases.find? (·.name == name) = some declared)
      (deep : limit ≤ chain.length) :
      Refused language limit rounds chain name span (.aliasTooDeep name limit span)
  | unreadable {declared : Alias} {report : Diagnostic} (span : Span) (fresh : name ∉ chain)
      (found : language.aliases.find? (·.name == name) = some declared)
      (room : chain.length < limit)
      (faulty : (parse declared.expansion).fault? = some report) :
      Refused language limit rounds chain name span (.invalidExpansion name report.message span)

/-- A call opens an alias, or is refused for one reason wherever it stands. -/
theorem expandAlias_cases (language : Language) (limit rounds : Nat) (chain : List String)
    (name : String) :
    (∃ fewer declared, rounds = fewer + 1 ∧ Opens language limit chain name declared) ∨
      ∃ refusal : BuildError, ∀ span,
        expandAlias .standard language limit rounds chain name span =
          .error (refusal.relocate span) ∧
        Refused language limit rounds chain name span (refusal.relocate span) := by
  -- The cases follow the checks in the order in which a call passes them.
  by_cases again : name ∈ chain
  · refine .inr ⟨.aliasCycle (chain ++ [name]) (.empty 0), fun span => ⟨?_, .repeated span again⟩⟩
    exact expandAlias_repeated again span
  · cases found : language.aliases.find? (·.name == name) with
    | none =>
      refine .inr ⟨.unknownAlias name (.empty 0), fun span => ⟨?_, ?_⟩⟩
      · exact expandAlias_undeclared again found span
      · exact .unknown span again (.inr found)
    | some declared =>
      cases rounds with
      | zero =>
        refine .inr ⟨.unknownAlias name (.empty 0), fun span => ⟨?_, ?_⟩⟩
        · rw [expandAlias.eq_def]
          simp [again, BuildError.relocate]
        · exact .unknown span again (.inl rfl)
      | succ fewer =>
        rcases Nat.lt_or_ge chain.length limit with room | deep
        · cases readable : (parse declared.expansion).fault? with
          | none => exact .inl ⟨fewer, declared, rfl, again, room, found, readable⟩
          | some report =>
            have faulty : (Grammar.standard.parse declared.expansion).fault? = some report :=
              readable
            refine .inr ⟨.invalidExpansion name report.message (.empty 0),
              fun span => ⟨?_, .unreadable span again found room readable⟩⟩
            rw [expandAlias.eq_def]
            simp [again, found, Nat.not_le.mpr room, faulty, BuildError.relocate]
        · refine .inr ⟨.aliasTooDeep name limit (.empty 0),
            fun span => ⟨?_, .tooDeep span again found deep⟩⟩
          rw [expandAlias.eq_def]
          simp [again, found, deep, BuildError.relocate]

/-- A call has an AST only by opening an alias whose expansion has one, put at the call. -/
theorem expandAlias_ok {span : Span} {node : Node}
    (built : expandAlias .standard language limit rounds chain name span = .ok node) :
    ∃ fewer declared root, rounds = fewer + 1 ∧ Opens language limit chain name declared ∧
      rootMeaning ⟨declared.expansion.toList, language,
        expandAlias .standard language limit fewer (chain ++ [name])⟩
        (parse declared.expansion) = .ok root ∧ node = root.relocate (some span) := by
  -- Of the two outcomes of a call only an opened alias builds anything.
  rcases expandAlias_cases language limit rounds chain name with
    ⟨fewer, declared, rfl, opens⟩ | ⟨refusal, refused⟩
  · rw [expandAlias_opened opens] at built
    split at built
    · rename_i root made
      exact ⟨fewer, declared, root, rfl, opens, made, (Except.ok.inj built).symm⟩
    · cases built
  · rw [(refused span).1] at built
    cases built

/-- The error of a call is at the call: moving it there changes nothing. -/
theorem expandAlias_error {span : Span} {error : BuildError}
    (failed : expandAlias .standard language limit rounds chain name span = .error error) :
    error.relocate span = error := by
  -- An error of the expansion has been moved to the call, and a refusal was made there.
  rcases expandAlias_cases language limit rounds chain name with
    ⟨fewer, declared, rfl, opens⟩ | ⟨refusal, refused⟩
  · rw [expandAlias_opened opens] at failed
    split at failed
    · cases failed
    · cases failed
      exact BuildError.relocate_relocate span span _
  · cases (refused span).1.symm.trans failed
    exact BuildError.relocate_relocate span span _

/-- What a call stands for does not depend on where it stands. -/
theorem expandAlias_unplaced (span : Span) :
    (expandAlias .standard language limit rounds chain name span).unplaced =
      callAst language limit rounds chain name := by
  -- The place of the call is used in one step only, the last one, and there it is forgotten.
  rcases expandAlias_cases language limit rounds chain name with
    ⟨fewer, declared, rfl, opens⟩ | ⟨refusal, refused⟩
  · rw [callAst, expandAlias_of_opens opens, expandAlias_of_opens opens]
  · rw [callAst, (refused _).1, (refused _).1]
    simp only [Built.unplaced, unplaced, BuildError.relocate_relocate]

/-- A call that opens an alias stands for what the alias's expansion stands for. -/
theorem callAst_of_opens {declared : Alias} (opens : Opens language limit chain name declared) :
    callAst language limit (rounds + 1) chain name =
      textAst language limit rounds (chain ++ [name]) declared.expansion :=
  expandAlias_of_opens opens (.empty 0)

/-- A call has an AST only by opening an alias whose expansion has it. -/
theorem callAst_ok {node : Node} (built : callAst language limit rounds chain name = .ok node) :
    ∃ fewer declared, rounds = fewer + 1 ∧ Opens language limit chain name declared ∧
      textAst language limit fewer (chain ++ [name]) declared.expansion = .ok node := by
  rcases expandAlias_cases language limit rounds chain name with
    ⟨fewer, declared, rfl, opens⟩ | ⟨refusal, refused⟩
  · exact ⟨fewer, declared, rfl, opens, callAst_of_opens opens ▸ built⟩
  · -- A refusal is no AST.
    rw [callAst, (refused _).1] at built
    cases built

/-- A call fails by being refused, or as the expansion of the alias that it opens fails. -/
theorem callAst_error {error : BuildError}
    (failed : callAst language limit rounds chain name = .error error) :
    (∀ span, Refused language limit rounds chain name span (error.relocate span)) ∨
      ∃ fewer declared, rounds = fewer + 1 ∧ Opens language limit chain name declared ∧
        textAst language limit fewer (chain ++ [name]) declared.expansion = .error error := by
  rcases expandAlias_cases language limit rounds chain name with
    ⟨fewer, declared, rfl, opens⟩ | ⟨refusal, refused⟩
  · exact .inr ⟨fewer, declared, rfl, opens, callAst_of_opens opens ▸ failed⟩
  · rw [callAst, (refused _).1] at failed
    obtain rfl := Except.error.inj failed
    -- Of the moves of an error only the last one shows.
    refine .inl fun span => ?_
    rw [BuildError.relocate_relocate, BuildError.relocate_relocate]
    exact (refused span).2

/-- A text that a query derives means what the query's tree means. -/
theorem rootMeaning_of_derives {query : Query} (derives : query.Derives text)
    (around : Surroundings) : rootMeaning around (parse text) = meaning around query.tree := by
  -- Above the chain of alternatives stand the node of the query and that of the expression.
  have found : [inner .expression [query.tree]].find? (·.kind == .expression) =
      some (inner .expression [query.tree]) := by
    simp
  have chain : [query.tree].find? (·.kind == .orExpression) = some query.tree := by
    simp [Phrase.tree, Category.nodeKind]
  rw [parse_of_derives derives, rootMeaning, Tree.children_node,
    partMeaning_meanings _ found, inner_eq_node, meaning, combine, Tree.kind_node]
  exact partMeaning_meanings _ chain

/-- A text shows the tokens of the query that derives it. -/
theorem Phrase.Derives.legible {query : Query} (derives : query.Derives text) :
    Legible text.toList query.tokens :=
  derives.1 ▸ legible_tokenize text

/-- A text stands for what the query that derives it stands for. -/
theorem textAst_of_derives {query : Query} (derives : query.Derives text) :
    textAst language limit rounds chain text =
      query.ast language (callAst language limit rounds chain) := by
  -- Calls in the text are expansions whose places are forgotten, as the AST has them.
  rw [textAst, rootMeaning_of_derives derives, Phrase.tree, inner_eq_node]
  exact meaning_phrase (fun _ _ => expandAlias_unplaced _) query derives.legible _

/-- No name repeats an earlier one exactly when the names are distinct and none was seen before. -/
theorem firstRepeated?_eq_none_iff (seen names : List String) :
    firstRepeated? seen names = none ↔ names.Nodup ∧ ∀ name ∈ names, name ∉ seen := by
  induction names generalizing seen with
  | nil => simp [firstRepeated?]
  | cons name names ih =>
    by_cases repeated : name ∈ seen
    · simp [firstRepeated?, repeated]
    · -- The name joins those seen, so the others must keep clear of it as well.
      simp only [firstRepeated?, List.contains_eq_mem, repeated, decide_false, Bool.false_eq_true,
        if_false, ih, List.nodup_cons, List.mem_cons, not_or]
      grind

/-- What is around a query: its own text, and no call yet. -/
def querySurroundings (language : Language) (limit : Nat) (text : String) : Surroundings where
  source := text.toList
  language := language
  call := expandAlias .standard language limit language.aliases.length []

/-- With distinct aliases and a readable text, a build is what the tree of the text means. -/
theorem buildRoot_eq (distinct : (language.aliases.map (·.name)).Nodup)
    (readable : (parse text).fault? = none) :
    buildRoot .standard language limit (parse text) text =
      rootMeaning (querySurroundings language limit text) (parse text) := by
  -- With both guards passed, building goes straight to the meaning of the root.
  have unrepeated := (firstRepeated?_eq_none_iff [] _).mpr ⟨distinct, by simp⟩
  rw [buildRoot, unrepeated]
  simp only [readable]
  rfl

/-- With distinct aliases and a readable text, a build is what the node of a query means. -/
theorem exists_meaning (language : Language) (limit : Nat) {text : String}
    (distinct : (language.aliases.map (·.name)).Nodup) (readable : (parse text).fault? = none) :
    ∃ query : Query, query.Derives text ∧
      buildRoot .standard language limit (parse text) text =
        meaning (querySurroundings language limit text)
          (.node (Category.chain .or).nodeKind query.tree.span query.parts) := by
  -- A readable text has a derivation, and below the root of its tree stands that derivation's node.
  obtain ⟨query, derives⟩ := exists_derives readable
  refine ⟨query, derives, ?_⟩
  rw [buildRoot_eq distinct readable, rootMeaning_of_derives derives, Phrase.tree, ← inner_eq_node]

/-- A build of distinct aliases and a readable text stands for what the text stands for. -/
theorem buildRoot_unplaced (distinct : (language.aliases.map (·.name)).Nodup)
    (readable : (parse text).fault? = none) :
    (buildRoot .standard language limit (parse text) text).unplaced =
      textAst language limit language.aliases.length [] text := by
  -- Past the guards the two sides are the same meaning, one of them without places.
  rw [buildRoot_eq distinct readable]
  rfl

/-- A build is refused for a repeated alias, then for a fault of the text, or goes on past both. -/
theorem buildRoot_cases (language : Language) (limit : Nat) (text : String) :
    (∃ name, buildRoot .standard language limit (parse text) text = .error (.duplicateAlias name) ∧
      ¬ (language.aliases.map (·.name)).Nodup) ∨
    (∃ report, buildRoot .standard language limit (parse text) text = .error (.unreadable report) ∧
      (parse text).fault? = some report) ∨
    ((language.aliases.map (·.name)).Nodup ∧ (parse text).fault? = none) := by
  -- The guards are tried in this order: a repeated alias is reported before a fault of the text.
  have distinct := firstRepeated?_eq_none_iff [] (language.aliases.map (·.name))
  cases repeated : firstRepeated? [] (language.aliases.map (·.name)) with
  | some name =>
    refine .inl ⟨name, by simp [buildRoot, repeated], fun unrepeated => ?_⟩
    rw [distinct.mpr ⟨unrepeated, by simp⟩] at repeated
    cases repeated
  | none =>
    cases readable : (parse text).fault? with
    | some report => exact .inr (.inl ⟨report, by simp [buildRoot, repeated, readable], rfl⟩)
    | none => exact .inr (.inr ⟨(distinct.mp repeated).1, rfl⟩)

/-- A build succeeds only with distinct aliases and a readable text. -/
theorem buildRoot_ok {root : Node}
    (built : buildRoot .standard language limit (parse text) text = .ok root) :
    (language.aliases.map (·.name)).Nodup ∧ (parse text).fault? = none := by
  -- Both refusals would have been errors.
  rcases buildRoot_cases language limit text with ⟨_, refused, -⟩ | ⟨_, refused, -⟩ | passed
  · cases refused.symm.trans built
  · cases refused.symm.trans built
  · exact passed

/-- A query with an AST stands for it inside the empty chain. -/
theorem textAst_of_buildRoot {root : Node}
    (built : buildRoot .standard language limit (parse text) text = .ok root) :
    textAst language limit language.aliases.length [] text = .ok root.eraseSpans := by
  -- What has been built passed the guards, so its meaning is the text's with the places forgotten.
  obtain ⟨distinct, readable⟩ := buildRoot_ok built
  rw [← buildRoot_unplaced distinct readable, built]
  rfl

/-- What a query stands for inside the empty chain is its AST. -/
theorem buildRoot_of_textAst (distinct : (language.aliases.map (·.name)).Nodup)
    (readable : (parse text).fault? = none) {node : Node}
    (built : textAst language limit language.aliases.length [] text = .ok node) :
    ∃ root, buildRoot .standard language limit (parse text) text = .ok root ∧
      root.eraseSpans = node := by
  -- Forgetting places turns no error into a node, so a node comes of a node.
  rw [← buildRoot_unplaced distinct readable] at built
  cases outcome : buildRoot .standard language limit (parse text) text with
  | ok root =>
    rw [outcome] at built
    exact ⟨root, rfl, Except.ok.inj built⟩
  | error error =>
    rw [outcome] at built
    cases built

/-- A report on an error is made under the error's code. -/
theorem BuildError.code_diagnostic (error : BuildError) (length : Nat) :
    (error.diagnostic length).code = error.code := by
  cases error <;> rfl

/-- An envelope carries the AST that was built. -/
theorem buildEnvelope_ok {envelope : Envelope}
    (built : buildEnvelope .standard language limit (parse text) text = .ok envelope) :
    buildRoot .standard language limit (parse text) text = .ok envelope.root := by
  -- An envelope is made of a root and cannot fail once the root is there.
  rw [buildEnvelope, bind_eq_ok] at built
  obtain ⟨root, made, carried⟩ := built
  obtain rfl := Except.ok.inj carried
  exact made

/-- An AST that was built is put into an envelope. -/
theorem exists_buildEnvelope {root : Node}
    (built : buildRoot .standard language limit (parse text) text = .ok root) :
    ∃ envelope, buildEnvelope .standard language limit (parse text) text = .ok envelope ∧
      envelope.root = root := by
  -- Nothing after the root can fail.
  rw [buildEnvelope, built]
  exact ⟨_, rfl, rfl⟩

end FilterLang
