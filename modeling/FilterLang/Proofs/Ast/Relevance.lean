import FilterLang.Proofs.Ast.Success
import FilterLang.Proofs.Compile.Reading

/-! Which aliases the outcome of a build depends on. -/

namespace FilterLang

/-- The names within reach of a text: those that it calls, and those that expansions of declared
names within reach call. -/
inductive WithinReach (language : Language) (text : String) : String → Prop where
  | called {name : String} (calls : Mentions text (.call name)) : WithinReach language text name
  | inside {declared : Alias} {name : String} (reached : WithinReach language text declared.name)
      (declares : declared ∈ language.aliases)
      (calls : Mentions declared.expansion (.call name)) : WithinReach language text name

/-- A name that a phrase calls is one of its identifiers. -/
theorem Phrase.identifier_of_calls {category : Category} (phrase : Phrase category) {name : String}
    (calls : .call name ∈ phrase.mentions) :
    ∃ token ∈ phrase.tokens, token.kind = .identifier name := by
  -- Induction on the derivation: literals mention no
  -- calls, and the name of a call is its own token.
  induction phrase with
  | bare field span => simp [Phrase.mentions] at calls
  | compare field span comparator operator scalar =>
    cases literal : scalar.literal <;> simp [Phrase.mentions, Literal.mentions, literal] at calls
  | member field span membership opening listing closing =>
    obtain ⟨scalar, -, calls⟩ := List.mem_flatMap.mp calls
    cases literal : scalar.literal <;> simp [Literal.mentions, literal] at calls
  | call other span opening closing =>
    obtain rfl : name = other := by simpa [Phrase.mentions] using calls
    exact ⟨⟨.identifier name, span⟩, by simp [Phrase.tokens], rfl⟩
  | group opening inside closing ih =>
    obtain ⟨token, member, kind⟩ := ih calls
    exact ⟨token, by simp [Phrase.tokens, member], kind⟩
  | plain operand ih => exact ih calls
  | negated word operand ih =>
    obtain ⟨token, member, kind⟩ := ih calls
    exact ⟨token, by simp [Phrase.tokens, member], kind⟩
  | single operand ih => exact ih calls
  | join left word right ihLeft ihRight =>
    rcases List.mem_append.mp calls with early | late
    · obtain ⟨token, member, kind⟩ := ihLeft early
      exact ⟨token, by simp [Phrase.tokens, member], kind⟩
    · obtain ⟨token, member, kind⟩ := ihRight late
      exact ⟨token, by simp [Phrase.tokens, member], kind⟩

/-- A name within reach of a text is an identifier of the text or of an alias's expansion. -/
theorem WithinReach.identifier {language : Language} {text name : String}
    (reached : WithinReach language text name) :
    ∃ other ∈ text :: language.aliases.map (·.expansion), ∃ token ∈ tokenize other,
      token.kind = .identifier name := by
  -- The last call on the way to the name stands in one of these texts.
  have mentioned {other : String} (calls : Mentions other (.call name)) :
      ∃ token ∈ tokenize other, token.kind = .identifier name := by
    obtain ⟨query, derives, member⟩ := calls
    exact derives.1 ▸ query.identifier_of_calls member
  cases reached with
  | called calls => exact ⟨text, by simp, mentioned calls⟩
  | @inside declared _ reached declares calls =>
    refine ⟨declared.expansion, ?_, mentioned calls⟩
    exact List.mem_cons_of_mem _ (List.mem_map_of_mem declares)

section Comparison

variable {source : List Char} {language other : Language} {call call' : String → Span → Built}

/-- What a comparison means depends on the fields of the language, and on no alias. -/
theorem meaning_comparison_congr (fields : other.fields = language.fields) (place : Span)
    (parts : List Tree) :
    meaning ⟨source, other, call'⟩ (.node .primary place [inner .comparison parts]) =
      meaning ⟨source, language, call⟩ (.node .primary place [inner .comparison parts]) := by
  -- The call of the surroundings is never used below a comparison.
  rw [meaning_primary _ _ (by simp), meaning_primary _ _ (by simp), meaning_comparison,
    meaning_comparison]
  simp only [comparisonNode, Language.field?, fields]

/-- What a phrase means depends on an alias only if the phrase calls the name. -/
theorem meaning_congr (fields : other.fields = language.fields) {category : Category}
    (phrase : Phrase category) (legible : Legible source phrase.tokens)
    (agree : ∀ name, .call name ∈ phrase.mentions → call' name = call name) (place : Span) :
    meaning ⟨source, other, call'⟩ (.node category.nodeKind place phrase.parts) =
      meaning ⟨source, language, call⟩ (.node category.nodeKind place phrase.parts) := by
  -- Of the parts of a phrase only a call asks for an alias, and it asks by the name it spells.
  induction phrase generalizing place with
  | bare name span => exact meaning_comparison_congr fields place _
  | compare name span comparator operator value => exact meaning_comparison_congr fields place _
  | member name span membership opening listing closing =>
    exact meaning_comparison_congr fields place _
  | call name span opening closing =>
    have spelled := legible.spelled ⟨.identifier name, span⟩ (by simp [Phrase.tokens])
    rw [Category.nodeKind, Phrase.parts, meaning_primary _ _ (by simp),
      meaning_primary _ _ (by simp), meaning_call _ _ _ spelled, meaning_call _ _ _ spelled]
    exact congrFun (agree name (by simp [Phrase.mentions])) _
  | group opening inside closing ih =>
    have within : inside.tokens <:+: (Phrase.group opening inside closing).tokens :=
      ⟨[⟨.openParen, opening⟩], [⟨.closeParen, closing⟩], by simp [Phrase.tokens]⟩
    rw [Category.nodeKind, Phrase.parts, meaning_primary _ _ (by simp),
      meaning_primary _ _ (by simp), meaning_group, meaning_group, inner_eq_node]
    exact ih (legible.part within) agree _
  | plain operand ih =>
    rw [Category.nodeKind, Phrase.parts, meaning_plain, meaning_plain, inner_eq_node]
    exact ih legible agree _
  | negated word operand ih =>
    have within : operand.tokens <:+: (Phrase.negated word operand).tokens :=
      (List.suffix_cons _ _).isInfix
    have same := ih (legible.part within) agree place
    rw [Category.nodeKind] at same ⊢
    rw [Phrase.parts, meaning_negated, meaning_negated, same]
  | single operand ih =>
    rw [meaning_single, meaning_single, Phrase.tree, inner_eq_node]
    exact ih legible agree _
  | join left word right ihLeft ihRight =>
    have before : left.tokens <:+: (Phrase.join left word right).tokens :=
      (List.prefix_append _ _).isInfix
    have behind : right.tokens <:+: (Phrase.join left word right).tokens :=
      ((List.suffix_cons _ _).trans (List.suffix_append _ _)).isInfix
    have first := ihLeft (legible.part before) (fun name calls =>
      agree name (List.mem_append_left _ calls)) place
    have second := ihRight (legible.part behind) (fun name calls =>
      agree name (List.mem_append_right _ calls)) right.tree.span
    rw [Phrase.tree, ← inner_eq_node] at second
    rw [meaning_join, meaning_join, first, Phrase.tree, second]

/-- What a readable text means depends on an alias only if the text calls the name. -/
theorem rootMeaning_congr (fields : other.fields = language.fields) {text : String}
    (readable : (parse text).fault? = none)
    (agree : ∀ name, Mentions text (.call name) → call' name = call name) :
    rootMeaning ⟨text.toList, other, call'⟩ (parse text) =
      rootMeaning ⟨text.toList, language, call⟩ (parse text) := by
  -- The root means what the derivation's chain means, and only names that it mentions are called.
  obtain ⟨query, derives⟩ := exists_derives readable
  rw [rootMeaning_of_derives derives, rootMeaning_of_derives derives, Phrase.tree, inner_eq_node]
  refine meaning_congr fields query derives.legible (fun name calls => ?_) _
  exact agree name ⟨query, derives, calls⟩

end Comparison

/-- Two languages that declare the names within reach of a text alike. -/
structure AgreeWithinReach (language other : Language) (text : String) : Prop where
  fields : other.fields = language.fields
  distinct : (language.aliases.map (·.name)).Nodup
  distinctOther : (other.aliases.map (·.name)).Nodup
  declared : ∀ name, WithinReach language text name → ∀ expansion,
    (⟨name, expansion⟩ : Alias) ∈ other.aliases ↔ ⟨name, expansion⟩ ∈ language.aliases

namespace AgreeWithinReach

variable {language other : Language} {text : String}

/-- A name within reach is found in both languages or in neither. -/
theorem find?_eq (agree : AgreeWithinReach language other text) {name : String}
    (reached : WithinReach language text name) :
    other.aliases.find? (·.name == name) = language.aliases.find? (·.name == name) := by
  have same := agree.declared name reached
  cases found : language.aliases.find? (·.name == name) with
  | some declared =>
    obtain ⟨declares, rfl⟩ := declared_of_find? found
    exact find?_of_distinct agree.distinctOther ((same declared.expansion).mpr declares)
  | none =>
    cases found' : other.aliases.find? (·.name == name) with
    | none => rfl
    | some declared =>
      -- The first language declares the alias as well, so the name would have been found in it.
      obtain ⟨declares, rfl⟩ := declared_of_find? found'
      have first := find?_of_distinct agree.distinct ((same declared.expansion).mp declares)
      cases found.symm.trans first

/-- A call comes out alike if the calls in the expansion do, one call deeper. -/
theorem expandAlias_step (agree : AgreeWithinReach language other text) {limit rounds rounds' : Nat}
    {chain : List String} {name : String} (reached : WithinReach language text name)
    (inside : ∀ declared, name ∉ chain →
      language.aliases.find? (·.name == name) = some declared →
      ∃ fewer fewer', rounds = fewer + 1 ∧ rounds' = fewer' + 1 ∧
        ∀ called, Mentions declared.expansion (.call called) →
          expandAlias .standard other limit fewer' (chain ++ [name]) called =
            expandAlias .standard language limit fewer (chain ++ [name]) called) :
    expandAlias .standard other limit rounds' chain name =
      expandAlias .standard language limit rounds chain name := by
  -- The checks read the chain, the declaration and the limit, which are the same on both sides.
  funext span
  have same := agree.find?_eq reached
  by_cases repeated : name ∈ chain
  · rw [expandAlias_repeated repeated, expandAlias_repeated repeated]
  · cases found : language.aliases.find? (·.name == name) with
    | none =>
      rw [expandAlias_undeclared repeated found,
        expandAlias_undeclared repeated (same.trans found)]
    | some declared =>
      obtain ⟨fewer, fewer', rfl, rfl, calls⟩ := inside declared repeated found
      rw [expandAlias.eq_1 _ _ _ _ _ _ _ declared found,
        expandAlias.eq_1 _ _ _ _ _ _ _ declared (same.trans found)]
      cases readable : (Grammar.standard.parse declared.expansion).fault? with
      | some report => simp only [readable]
      | none =>
        -- The expansion is read by the grammar that was handed in, which is the standard one.
        have means : rootMeaning ⟨declared.expansion.toList, other,
            expandAlias .standard other limit fewer' (chain ++ [name])⟩
            (Grammar.standard.parse declared.expansion) =
          rootMeaning ⟨declared.expansion.toList, language,
            expandAlias .standard language limit fewer (chain ++ [name])⟩
            (Grammar.standard.parse declared.expansion) :=
          rootMeaning_congr agree.fields readable calls
        simp only [means]

/-- Calls of names within reach come out alike when rounds are left for all further aliases. -/
theorem expandAlias_eq (agree : AgreeWithinReach language other text) (limit : Nat)
    {rounds rounds' : Nat} {chain : List String} {name : String}
    (reached : WithinReach language text name)
    (admissible : Admissible language chain) (admissible' : Admissible other chain)
    (enough : language.aliases.length ≤ rounds + chain.length)
    (enough' : other.aliases.length ≤ rounds' + chain.length) :
    expandAlias .standard other limit rounds' chain name =
      expandAlias .standard language limit rounds chain name := by
  -- Every declared name that joins the chain uses up a round in each of the two languages.
  induction rounds generalizing rounds' chain name with
  | zero =>
    refine agree.expandAlias_step reached fun declared fresh found => ?_
    have room := admissible.length_lt fresh found
    omega
  | succ rounds ih =>
    refine agree.expandAlias_step reached fun declared fresh found => ?_
    have found' := (agree.find?_eq reached).trans found
    have room := admissible'.length_lt fresh found'
    obtain ⟨fewer', rfl⟩ : ∃ fewer', rounds' = fewer' + 1 := ⟨rounds' - 1, by omega⟩
    refine ⟨rounds, fewer', rfl, rfl, fun called calls => ?_⟩
    obtain ⟨declares, rfl⟩ := declared_of_find? found
    apply ih (.inside reached declares calls) (admissible.snoc fresh found)
      (admissible'.snoc fresh found')
    · simp only [List.length_append, List.length_singleton]
      omega
    · simp only [List.length_append, List.length_singleton]
      omega

/-- Languages that agree within reach of a text give it the same AST or the same error. -/
theorem buildRoot_eq (agree : AgreeWithinReach language other text) (limit : Nat) :
    buildRoot .standard other limit (parse text) text =
      buildRoot .standard language limit (parse text) text := by
  cases readable : (parse text).fault? with
  | some report =>
    -- No alias is asked for, and with distinct names only the fault of the text is left to report.
    have unrepeated := (firstRepeated?_eq_none_iff [] _).mpr ⟨agree.distinct, by simp⟩
    have unrepeated' := (firstRepeated?_eq_none_iff [] _).mpr ⟨agree.distinctOther, by simp⟩
    rw [buildRoot, buildRoot, unrepeated, unrepeated']
    simp only [readable]
  | none =>
    rw [FilterLang.buildRoot_eq agree.distinct readable,
      FilterLang.buildRoot_eq agree.distinctOther readable]
    refine rootMeaning_congr agree.fields readable fun name calls => ?_
    exact agree.expandAlias_eq limit (.called calls) .nil .nil (Nat.le_add_right _ _)
      (Nat.le_add_right _ _)

end AgreeWithinReach

/-- Distinct aliases are declared alike wherever unrelated ones are put in among them. -/
theorem agreeWithinReach_of_perm {language : Language} {text : String}
    {aliases unrelated : List Alias} (reordered : aliases.Perm (language.aliases ++ unrelated))
    (distinct : (aliases.map (·.name)).Nodup)
    (unreached : ∀ declared ∈ unrelated, ¬ WithinReach language text declared.name) :
    AgreeWithinReach language { language with aliases := aliases } text where
  fields := rfl
  distinct := by
    have all := (reordered.map (·.name)).nodup_iff.mp distinct
    rw [List.map_append] at all
    exact (List.nodup_append.mp all).1
  distinctOther := distinct
  declared name reached expansion := by
    rw [reordered.mem_iff, List.mem_append]
    -- An unrelated alias goes by no name within reach.
    refine ⟨fun declares => declares.resolve_right fun member => ?_, .inl⟩
    exact unreached _ member reached

/--
Only aliases within reach of a query matter: languages with the same fields that declare these
alike build the query alike, so the order of the aliases and unrelated ones change nothing.
-/
theorem buildEnvelope_within_reach (language : Language) (limit : Nat) (text : String)
    (distinct : (language.aliases.map (·.name)).Nodup) :
    (∀ other : Language, other.fields = language.fields → (other.aliases.map (·.name)).Nodup →
      (∀ name, WithinReach language text name → ∀ expansion,
        (⟨name, expansion⟩ : Alias) ∈ other.aliases ↔ ⟨name, expansion⟩ ∈ language.aliases) →
      buildEnvelope .standard other limit (parse text) text =
        buildEnvelope .standard language limit (parse text) text) ∧
    ∀ aliases unrelated : List Alias, aliases.Perm (language.aliases ++ unrelated) →
      (aliases.map (·.name)).Nodup →
      (∀ declared ∈ unrelated, ¬ WithinReach language text declared.name) →
      buildEnvelope .standard { language with aliases := aliases } limit (parse text) text =
        buildEnvelope .standard language limit (parse text) text := by
  -- An envelope is made of the AST and of the text.
  have envelope {other : Language} (agree : AgreeWithinReach language other text) :
      buildEnvelope .standard other limit (parse text) text =
        buildEnvelope .standard language limit (parse text) text := by
    rw [buildEnvelope, buildEnvelope, agree.buildRoot_eq]
  constructor
  · intro other fields distinctOther declared
    exact envelope ⟨fields, distinct, distinctOther, declared⟩
  · intro aliases unrelated reordered distinctOther unreached
    exact envelope (agreeWithinReach_of_perm reordered distinctOther unreached)

/-- Aliases that have no AST: one calls itself, and one cannot be read. -/
def hopelessAliases : List Alias :=
  [⟨"loop", "NOT loop()"⟩, ⟨"broken", "owner = ("⟩]

/-- The issue language in a later version, with its second alias first and the other one spoilt. -/
def revisedLanguage : Language :=
  { issueLanguage with
    version := "2"
    aliases := [⟨"open", "not archived"⟩, ⟨"mine", "mine() AND"⟩] }

/--
A query that calls only the alias that was kept is built as before, and hopeless aliases ahead of
the reordered ones do not change what becomes of a query that calls neither.
-/
theorem issueLanguage_within_reach :
    (issueLanguage.aliases.map (·.name)).Nodup ∧
    ¬ WithinReach issueLanguage "NOT open()" "mine" ∧
    buildEnvelope .standard revisedLanguage 1 (parse "NOT open()") "NOT open()" =
      buildEnvelope .standard issueLanguage 1 (parse "NOT open()") "NOT open()" ∧
    (∀ declared ∈ hopelessAliases, ¬ WithinReach issueLanguage "mine() AND gone()" declared.name) ∧
    buildEnvelope .standard
        { issueLanguage with aliases := hopelessAliases ++ issueLanguage.aliases.reverse } 8
        (parse "mine() AND gone()") "mine() AND gone()" =
      buildEnvelope .standard issueLanguage 8 (parse "mine() AND gone()") "mine() AND gone()" := by
  have distinct : (issueLanguage.aliases.map (·.name)).Nodup := by decide
  -- A name that is in none of the texts that could be read is out of reach.
  have apart : ∀ other ∈ "NOT open()" :: issueLanguage.aliases.map (·.expansion),
      ∀ token ∈ tokenize other, token.kind ≠ .identifier "mine" := by
    decide +kernel
  have absent : ∀ other ∈ "mine() AND gone()" :: issueLanguage.aliases.map (·.expansion),
      ∀ token ∈ tokenize other, ∀ declared ∈ hopelessAliases,
        token.kind ≠ .identifier declared.name := by
    decide +kernel
  have unreached : ¬ WithinReach issueLanguage "NOT open()" "mine" := by
    intro reached
    obtain ⟨other, among, token, spelled, kind⟩ := reached.identifier
    exact apart other among token spelled kind
  have hopeless : ∀ declared ∈ hopelessAliases,
      ¬ WithinReach issueLanguage "mine() AND gone()" declared.name := by
    intro declared member reached
    obtain ⟨other, among, token, spelled, kind⟩ := reached.identifier
    exact absent other among token spelled declared member kind
  refine ⟨distinct, unreached, ?_, hopeless, ?_⟩
  · apply (buildEnvelope_within_reach _ _ _ distinct).1 revisedLanguage rfl (by decide)
    intro name reached expansion
    have other : name ≠ "mine" := fun same => unreached (same ▸ reached)
    simp [revisedLanguage, issueLanguage, other]
  · exact (buildEnvelope_within_reach _ _ _ distinct).2 _ hopelessAliases (by decide) (by decide)
      hopeless

end FilterLang
