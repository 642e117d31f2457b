import FilterLang.Proofs.Ast.Expansion
import Mathlib.Data.List.Perm.Subperm

/-! When a query has an AST. -/

namespace FilterLang

/-- What the AST of a phrase depends on besides the phrase. -/
inductive Mention where
  | call (name : String)
  | flag (name : String)
  | number (raw : String)
deriving DecidableEq, Repr

/-- What a literal mentions. -/
def Literal.mentions : Literal → List Mention
  | number raw => [.number raw]
  | _ => []

/-- What a phrase mentions. -/
def Phrase.mentions : {category : Category} → Phrase category → List Mention
  | _, bare name _ => [.flag name]
  | _, compare _ _ _ _ scalar => scalar.literal.mentions
  | _, member _ _ _ _ listing _ => listing.scalars.flatMap (·.literal.mentions)
  | _, call name _ _ _ => [.call name]
  | _, group _ inside _ => inside.mentions
  | _, plain operand => operand.mentions
  | _, negated _ operand => operand.mentions
  | _, single operand => operand.mentions
  | _, join left _ right => left.mentions ++ right.mentions

/-- A text mentions what a query that derives it mentions. -/
def Mentions (text : String) (mention : Mention) : Prop :=
  ∃ query : Query, query.Derives text ∧ mention ∈ query.mentions

/-- Whether the first declaration of a field makes it boolean. -/
def Language.IsFlag (language : Language) (name : String) : Prop :=
  ∃ field, language.field? name = some field ∧ field.type = .boolean

/-- Whether a number's text reads as a finite number. -/
def FiniteNumber (raw : String) : Prop :=
  ∃ value, readNumberText raw.toList = .ok (.finite value)

/-- A mention does not keep a phrase from having an AST. -/
def Mention.Met (language : Language) (expand : String → Built) : Mention → Prop
  | call name => ∃ node, expand name = .ok node
  | flag name => language.IsFlag name
  | number raw => FiniteNumber raw

/-- A literal has a value exactly when what it mentions does not prevent it. -/
theorem Literal.value_ok_iff (language : Language) (expand : String → Built) (literal : Literal) :
    (∃ value, literal.value = .ok value) ↔
      ∀ mention ∈ literal.mentions, mention.Met language expand := by
  -- Only a number can fail to have a value, and then it is not finite.
  cases literal with
  | string raw => simp [Literal.value, Literal.mentions]
  | number raw => simp [Literal.value_number, Literal.mentions, Mention.Met, FiniteNumber]
  | boolean value => simp [Literal.value, Literal.mentions]

/-- A result that is only wrapped up is there when the result is. -/
theorem exists_wrapped {α β : Type} {outcome : Except BuildError α} {wrap : α → β} :
    (∃ result, (do return wrap (← outcome)) = Except.ok result) ↔ ∃ first, outcome = .ok first := by
  cases outcome <;> simp [bind, Except.bind, pure, Except.pure]

/-- Two results that are only joined are there when both are. -/
theorem exists_joined {α β γ : Type} {left : Except BuildError α} {right : Except BuildError β}
    {join : α → β → γ} :
    (∃ result, (do let first ← left; let second ← right; return join first second) =
      Except.ok result) ↔ (∃ first, left = .ok first) ∧ ∃ second, right = .ok second := by
  cases left <;> cases right <;> simp [bind, Except.bind, pure, Except.pure]

/-- Several literals have values exactly when each has. -/
theorem mapM_value_ok_iff (language : Language) (expand : String → Built) (scalars : List Scalar) :
    (∃ values, scalars.mapM (·.literal.value) = .ok values) ↔
      ∀ mention ∈ scalars.flatMap (·.literal.mentions), mention.Met language expand := by
  induction scalars with
  | nil => simp [pure, Except.pure]
  | cons scalar scalars ih =>
    -- What several literals mention is what the first and what the others mention.
    rw [List.flatMap_cons, List.forall_mem_append, ← Literal.value_ok_iff, ← ih, List.mapM_cons]
    exact exists_joined

/-- A phrase has an AST exactly when nothing that it mentions prevents it. -/
theorem Phrase.ast_ok_iff (language : Language) (expand : String → Built) {category : Category}
    (phrase : Phrase category) :
    (∃ node, phrase.ast language expand = .ok node) ↔
      ∀ mention ∈ phrase.mentions, mention.Met language expand := by
  induction phrase with
  | bare name span =>
    simp only [Phrase.ast, Phrase.mentions, List.forall_mem_singleton, Mention.Met, Language.IsFlag]
    -- A field that stands alone is refused when it is unknown and when it is not boolean.
    cases language.field? name with
    | none => simp
    | some field =>
      obtain ⟨name, type, operators, values⟩ := field
      cases type <;> simp
  | compare name span comparator operator scalar =>
    exact exists_wrapped.trans (scalar.literal.value_ok_iff language expand)
  | member name span membership opening listing closing =>
    exact exists_wrapped.trans (exists_wrapped.trans (mapM_value_ok_iff language expand _))
  | call name span opening closing => simp [Phrase.ast, Phrase.mentions, Mention.Met]
  | group opening inside closing ih => exact ih
  | plain operand ih => exact ih
  | negated word operand ih => exact exists_wrapped.trans ih
  | single operand ih => exact ih
  | join left word right ihLeft ihRight =>
    rw [Phrase.mentions, List.forall_mem_append, ← ihLeft, ← ihRight]
    exact exists_joined

/-- A mention keeps a phrase from having an AST, with an error that is put at no place. -/
inductive Mention.Fails (language : Language) (expand : String → Built) :
    Mention → BuildError → Prop where
  | call {name : String} {error : BuildError} (failed : expand name = .error error) :
      Fails language expand (.call name) error
  | flag {name : String} (other : ¬ language.IsFlag name) :
      Fails language expand (.flag name) (.invalidShorthand name (.empty 0))
  | number {raw : String} (large : readNumberText raw.toList = .ok .outOfRange) :
      Fails language expand (.number raw) (.numberOutOfRange raw (.empty 0))
  | unread {raw : String} {fault : NumberFault}
      (faulty : readNumberText raw.toList = .error fault) :
      Fails language expand (.number raw) (.malformed (.invalidNumber raw fault))

section Failure

variable {language : Language} {expand : String → Built} {error : BuildError}

/-- A literal has no value because of what it mentions. -/
theorem Literal.value_error {literal : Literal} (failed : literal.value = .error error) :
    ∃ mention ∈ literal.mentions, mention.Fails language expand error := by
  -- Only numbers fail, in one of two ways.
  cases literal with
  | string raw => cases failed
  | boolean value => cases failed
  | number raw =>
    refine ⟨.number raw, by simp [Literal.mentions], ?_⟩
    rw [Literal.value] at failed
    split at failed <;> cases failed
    · exact .number ‹_›
    · exact .unread ‹_›

/-- Several literals have no values because of what one of them mentions. -/
theorem mapM_value_error {scalars : List Scalar}
    (failed : scalars.mapM (·.literal.value) = .error error) :
    ∃ mention ∈ scalars.flatMap (·.literal.mentions), mention.Fails language expand error := by
  -- The first literal that fails is reported, so all before it have values.
  induction scalars with
  | nil => cases failed
  | cons scalar scalars ih =>
    rw [List.mapM_cons, bind_eq_error] at failed
    rcases failed with first | ⟨value, -, others⟩
    · obtain ⟨mention, member, fails⟩ := Literal.value_error first
      exact ⟨mention, List.mem_append_left _ member, fails⟩
    · rw [bind_eq_error] at others
      rcases others with rest | ⟨_, -, impossible⟩
      · obtain ⟨mention, member, fails⟩ := ih rest
        exact ⟨mention, List.mem_append_right _ member, fails⟩
      · cases impossible

/-- A phrase has no AST because of what it mentions. -/
theorem Phrase.ast_error {category : Category} (phrase : Phrase category)
    (failed : phrase.ast language expand = .error error) :
    ∃ mention ∈ phrase.mentions, mention.Fails language expand error := by
  induction phrase with
  | bare name span =>
    refine ⟨.flag name, by simp [Phrase.mentions], ?_⟩
    rw [Phrase.ast] at failed
    split at failed
    · cases failed
    · rename_i other
      cases failed
      refine .flag ?_
      -- The first declaration of a flag would have been the other case.
      rintro ⟨⟨name', type, operators, values⟩, found, rfl⟩
      exact other name' operators values found
  | compare name span comparator operator scalar =>
    rw [Phrase.ast, bind_eq_error] at failed
    rcases failed with value | ⟨_, -, impossible⟩
    · exact Literal.value_error value
    · cases impossible
  | member name span membership opening listing closing =>
    simp only [Phrase.ast, Listing.value, bind_eq_error] at failed
    rcases failed with (values | ⟨_, -, impossible⟩) | ⟨_, -, impossible⟩
    · exact mapM_value_error values
    · cases impossible
    · cases impossible
  | call name span opening closing =>
    exact ⟨.call name, by simp [Phrase.mentions], .call failed⟩
  | group opening inside closing ih => exact ih failed
  | plain operand ih => exact ih failed
  | negated word operand ih =>
    rw [Phrase.ast, bind_eq_error] at failed
    rcases failed with inside | ⟨_, -, impossible⟩
    · exact ih inside
    · cases impossible
  | single operand ih => exact ih failed
  | join left word right ihLeft ihRight =>
    simp only [Phrase.ast, bind_eq_error] at failed
    rcases failed with before | ⟨_, -, behind | ⟨_, -, impossible⟩⟩
    · obtain ⟨mention, member, fails⟩ := ihLeft before
      exact ⟨mention, List.mem_append_left _ member, fails⟩
    · obtain ⟨mention, member, fails⟩ := ihRight behind
      exact ⟨mention, List.mem_append_right _ member, fails⟩
    · cases impossible

end Failure

/-- Names of which each is called in the expansion of the one before, the first in a text. -/
inductive CallChain (language : Language) : String → List String → Prop where
  | last {text name : String} (calls : Mentions text (.call name)) : CallChain language text [name]
  | more {text : String} {declared : Alias} {names : List String}
      (calls : Mentions text (.call declared.name)) (declares : declared ∈ language.aliases)
      (rest : CallChain language declared.expansion names) :
      CallChain language text (declared.name :: names)

/-- The texts that calls lead to from a text, the text itself included. -/
inductive Reaches (language : Language) : String → String → Prop where
  | here {text : String} : Reaches language text text
  | through {text other : String} {declared : Alias}
      (calls : Mentions text (.call declared.name)) (declares : declared ∈ language.aliases)
      (rest : Reaches language declared.expansion other) : Reaches language text other

/-- A name that an alias with a readable expansion goes by. -/
def Language.Callable (language : Language) (name : String) : Prop :=
  ∃ declared ∈ language.aliases, declared.name = name ∧ (parse declared.expansion).fault? = none

/-- Everything that a text needs in order to have an AST inside a chain of calls. -/
structure Expandable (language : Language) (limit : Nat) (chain : List String) (text : String) :
    Prop where
  readable : (parse text).fault? = none
  calls : ∀ names, CallChain language text names →
    (∀ name ∈ names, language.Callable name) ∧ (chain ++ names).Nodup ∧
      (chain ++ names).length ≤ limit
  flags : ∀ other name, Reaches language text other → Mentions other (.flag name) →
    language.IsFlag name
  numbers : ∀ other raw, Reaches language text other → Mentions other (.number raw) →
    FiniteNumber raw

/-- The names that a chain of calls can be made of: those of distinct aliases. -/
structure Admissible (language : Language) (chain : List String) : Prop where
  unrepeated : chain.Nodup
  declared : ∀ name ∈ chain, name ∈ language.aliases.map (·.name)

section Expandable

variable {language : Language} {limit rounds : Nat} {chain : List String} {text name : String}

/-- Every query starts from the empty chain. -/
theorem Admissible.nil : Admissible language [] :=
  ⟨.nil, nofun⟩

/-- A declared name that is not in the chain yet may lengthen it. -/
theorem Admissible.snoc {declared : Alias} (admissible : Admissible language chain)
    (fresh : name ∉ chain) (found : language.aliases.find? (·.name == name) = some declared) :
    Admissible language (chain ++ [name]) where
  unrepeated := by
    -- The new name is at the end and was not there before.
    refine List.nodup_append.mpr ⟨admissible.unrepeated, by simp, ?_⟩
    intro earlier member last same
    rw [List.mem_singleton.mp same]
    rintro rfl
    exact fresh member
  declared other member := by
    rcases List.mem_append.mp member with earlier | last
    · exact admissible.declared other earlier
    · -- It is declared, since it has been found.
      obtain ⟨declares, rfl⟩ := declared_of_find? found
      rw [List.mem_singleton.mp last]
      exact List.mem_map_of_mem declares

/-- A chain is no longer than there are aliases. -/
theorem Admissible.length_le (admissible : Admissible language chain) :
    chain.length ≤ language.aliases.length := by
  -- Distinct names that are all declared fit among the declared ones.
  have bound := (List.subperm_of_subset admissible.unrepeated admissible.declared).length_le
  rwa [List.length_map] at bound

/-- A chain that a declared name may lengthen leaves out an alias. -/
theorem Admissible.length_lt {declared : Alias} (admissible : Admissible language chain)
    (fresh : name ∉ chain) (found : language.aliases.find? (·.name == name) = some declared) :
    chain.length < language.aliases.length := by
  -- The chain can be made longer by this name, and no chain is longer than the declarations.
  have longer := (admissible.snoc fresh found).length_le
  simp only [List.length_append, List.length_singleton] at longer
  omega

/-- What a text needs, the expansions that it calls need one call deeper. -/
theorem Expandable.inside (needs : Expandable language limit chain text) {declared : Alias}
    (calls : Mentions text (.call declared.name)) (declares : declared ∈ language.aliases)
    (readable : (parse declared.expansion).fault? = none) :
    Expandable language limit (chain ++ [declared.name]) declared.expansion where
  readable := readable
  calls names inner := by
    -- A chain inside the expansion is one of the text, with the call put before it.
    have outer := needs.calls (declared.name :: names) (.more calls declares inner)
    simpa using ⟨fun name member => outer.1 name (by simp [member]), by simpa using outer.2⟩
  flags other name reaches := needs.flags other name (.through calls declares reaches)
  numbers other raw reaches := needs.numbers other raw (.through calls declares reaches)

/-- What a text with an AST mentions does not prevent it. -/
theorem met_of_textAst {node : Node} (built : textAst language limit rounds chain text = .ok node)
    {mention : Mention} (mentions : Mentions text mention) :
    mention.Met language (callAst language limit rounds chain) := by
  -- A text is built when all that it mentions is met.
  obtain ⟨query, derives, member⟩ := mentions
  rw [textAst_of_derives derives] at built
  exact (query.ast_ok_iff language _).mp ⟨node, built⟩ mention member

/-- A call in a text with an AST opens an alias whose expansion has one. -/
theorem opens_of_textAst {node : Node} (built : textAst language limit rounds chain text = .ok node)
    (calls : Mentions text (.call name)) :
    ∃ fewer declared inner, Opens language limit chain name declared ∧
      textAst language limit fewer (chain ++ [name]) declared.expansion = .ok inner := by
  -- A call that is met has opened an alias, and the expansion of the alias has been built.
  obtain ⟨inner, expanded⟩ := met_of_textAst built calls
  obtain ⟨fewer, declared, -, opens, inside⟩ := callAst_ok expanded
  exact ⟨fewer, declared, inner, opens, inside⟩

/-- The alias that a call opens makes its name callable. -/
theorem Opens.callable {declared : Alias} (opens : Opens language limit chain name declared) :
    language.Callable name :=
  -- An alias that opens is declared and can be read.
  have ⟨declares, named⟩ := declared_of_find? opens.found
  ⟨declared, declares, named, opens.readable⟩

/-- The chains of calls in a text with an AST neither repeat a name nor pass the limit. -/
theorem calls_of_textAst (distinct : (language.aliases.map (·.name)).Nodup) {names : List String}
    (called : CallChain language text names) {node : Node}
    (built : textAst language limit rounds chain text = .ok node)
    (admissible : Admissible language chain) :
    (∀ name ∈ names, language.Callable name) ∧ (chain ++ names).Nodup ∧
      (chain ++ names).length ≤ limit := by
  -- Each call moves its name from the chain ahead to the chain behind, so both are left open.
  induction called generalizing rounds chain node with
  | @last text name calls =>
    obtain ⟨fewer, declared, inner, opens, -⟩ := opens_of_textAst built calls
    have room : (chain ++ [name]).length ≤ limit := by simpa using Nat.succ_le_of_lt opens.room
    have unrepeated := (admissible.snoc opens.fresh opens.found).unrepeated
    exact ⟨by simpa using opens.callable, unrepeated, room⟩
  | @more text declared names calls declares rest ih =>
    obtain ⟨fewer, opened, inner, opens, inside⟩ := opens_of_textAst built calls
    obtain rfl := opens.eq_declared distinct declares
    obtain ⟨callable, fresh, room⟩ := ih inside (admissible.snoc opens.fresh opens.found)
    exact ⟨List.forall_mem_cons.mpr ⟨opens.callable, callable⟩, by simpa using fresh,
      by simpa using room⟩

/-- Every text that calls lead to from a text with an AST has one too, deeper in the chain. -/
theorem reaches_of_textAst (distinct : (language.aliases.map (·.name)).Nodup) {other : String}
    (reaches : Reaches language text other) {node : Node}
    (built : textAst language limit rounds chain text = .ok node) :
    ∃ rounds chain node, textAst language limit rounds chain other = .ok node := by
  -- Induction along the calls: each expansion that is reached has been built on the way.
  induction reaches generalizing rounds chain node with
  | here => exact ⟨rounds, chain, node, built⟩
  | through calls declares rest ih =>
    obtain ⟨fewer, opened, inner, opens, inside⟩ := opens_of_textAst built calls
    obtain rfl := opens.eq_declared distinct declares
    exact ih inside

/-- A text with an AST has everything that it needs. -/
theorem expandable_of_textAst (distinct : (language.aliases.map (·.name)).Nodup)
    (readable : (parse text).fault? = none) {node : Node}
    (built : textAst language limit rounds chain text = .ok node)
    (admissible : Admissible language chain) : Expandable language limit chain text where
  -- What is reached was built, so all that it mentions was met.
  readable := readable
  calls names called := calls_of_textAst distinct called built admissible
  flags other name reaches mentions := by
    obtain ⟨_, _, _, inside⟩ := reaches_of_textAst distinct reaches built
    exact met_of_textAst inside mentions
  numbers other raw reaches mentions := by
    obtain ⟨_, _, _, inside⟩ := reaches_of_textAst distinct reaches built
    exact met_of_textAst inside mentions

/-- A call in a text that has everything it needs is not refused. -/
theorem Expandable.opens (distinct : (language.aliases.map (·.name)).Nodup)
    (needs : Expandable language limit chain text) (calls : Mentions text (.call name)) :
    ∃ declared ∈ language.aliases, declared.name = name ∧
      Opens language limit chain name declared := by
  -- The call alone is a chain of calls, and what is said of chains answers every check.
  obtain ⟨callable, unrepeated, room⟩ := needs.calls [name] (.last calls)
  obtain ⟨declared, declares, rfl, readable⟩ := callable name (by simp)
  refine ⟨declared, declares, rfl, ?_, ?_, find?_of_distinct distinct declares, readable⟩
  · intro repeated
    exact (List.nodup_append.mp unrepeated).2.2 _ repeated _ (by simp) rfl
  · exact Nat.lt_of_succ_le (by simpa using room)

/-- A text that has everything it needs has an AST once its calls have. -/
theorem Expandable.textAst_ok (needs : Expandable language limit chain text)
    (calls : ∀ name, Mentions text (.call name) →
      ∃ node, callAst language limit rounds chain name = .ok node) :
    ∃ node, textAst language limit rounds chain text = .ok node := by
  -- Of the three kinds of mention, calls are met by assumption and
  -- the others by the conditions on what is reached.
  obtain ⟨query, derives⟩ := exists_derives needs.readable
  rw [textAst_of_derives derives, Phrase.ast_ok_iff]
  intro mention member
  cases mention with
  | call name => exact calls name ⟨query, derives, member⟩
  | flag name => exact needs.flags text name .here ⟨query, derives, member⟩
  | number raw => exact needs.numbers text raw .here ⟨query, derives, member⟩

/-- A text that has everything it needs has an AST, given rounds for the aliases off the chain. -/
theorem textAst_of_expandable (distinct : (language.aliases.map (·.name)).Nodup)
    (needs : Expandable language limit chain text) (admissible : Admissible language chain)
    (enough : language.aliases.length ≤ rounds + chain.length) :
    ∃ node, textAst language limit rounds chain text = .ok node := by
  -- A call takes a round and puts a name on the chain, so the sum of both stays.
  induction rounds generalizing chain text with
  | zero =>
    refine needs.textAst_ok fun name calls => ?_
    -- All aliases are in the chain, so none is left to be called.
    obtain ⟨declared, -, -, opens⟩ := needs.opens distinct calls
    have shorter := admissible.length_lt opens.fresh opens.found
    omega
  | succ rounds ih =>
    refine needs.textAst_ok fun name calls => ?_
    obtain ⟨declared, declares, rfl, opens⟩ := needs.opens distinct calls
    rw [callAst_of_opens opens]
    refine ih (needs.inside calls declares opens.readable)
      (admissible.snoc opens.fresh opens.found) ?_
    simp only [List.length_append, List.length_singleton]
    omega

/-- Rounds beyond those for the aliases off the chain make no difference. -/
theorem expandAlias_rounds (admissible : Admissible language chain)
    (enough : language.aliases.length ≤ rounds + chain.length) (extra : Nat) :
    expandAlias .standard language limit (rounds + extra) chain =
      expandAlias .standard language limit rounds chain := by
  induction rounds generalizing chain with
  | zero =>
    funext name span
    refine expandAlias_congr (fun declared fresh found => ?_) span
    -- A declared name off the chain would need a round more than there are.
    have shorter := admissible.length_lt fresh found
    omega
  | succ rounds ih =>
    funext name span
    refine expandAlias_congr (fun declared fresh found => ?_) span
    refine ⟨rounds + extra, rounds, by omega, rfl, ih (admissible.snoc fresh found) ?_⟩
    simp only [List.length_append, List.length_singleton]
    omega

/-- A readable text without an AST mentions what keeps it from having one. -/
theorem exists_fails_of_textAst (readable : (parse text).fault? = none)
    {error : BuildError} (failed : textAst language limit rounds chain text = .error error) :
    ∃ mention, Mentions text mention ∧
      mention.Fails language (callAst language limit rounds chain) error := by
  -- A derivation fails at one of its mentions.
  obtain ⟨query, derives⟩ := exists_derives readable
  rw [textAst_of_derives derives] at failed
  obtain ⟨mention, member, fails⟩ := query.ast_error failed
  exact ⟨mention, ⟨query, derives, member⟩, fails⟩

/-- With a limit for all aliases no text fails on the depth of calls. -/
theorem textAst_not_tooDeep (roomy : language.aliases.length ≤ limit)
    (readable : (parse text).fault? = none) (admissible : Admissible language chain)
    {error : BuildError} (failed : textAst language limit rounds chain text = .error error) :
    error.code ≠ .aliasDepthExceeded := by
  intro deep
  induction rounds using Nat.strongRecOn generalizing chain text with
  | ind rounds ih =>
    obtain ⟨mention, -, fails⟩ := exists_fails_of_textAst readable failed
    -- Only calls fail on the depth of calls, for fields and numbers have errors of their own.
    cases fails with
    | flag other => cases deep
    | number large => cases deep
    | unread faulty => cases deep
    | @call name _ refused =>
      rcases callAst_error refused with reason | ⟨fewer, _, rfl, opens, inside⟩
      · have shown := reason (.empty 0)
        rw [← BuildError.code_relocate (.empty 0)] at deep
        generalize error.relocate (.empty 0) = refusal at shown deep
        cases shown with
        | repeated _ again => cases deep
        | unknown _ fresh absent => cases deep
        | unreadable _ fresh found room faulty => cases deep
        | tooDeep _ fresh found reached =>
          -- The chain has reached the limit, yet there is an alias outside of it.
          have shorter := admissible.length_lt fresh found
          omega
      · -- The failure lies inside an expansion, which has a round less.
        exact ih fewer (Nat.lt_succ_self fewer) opens.readable
          (admissible.snoc opens.fresh opens.found) inside

/-- A text that cannot be read is not reported on as too deep. -/
theorem fault?_code {tree : Tree} {report : Diagnostic} (faulty : tree.fault? = some report) :
    report.code ≠ .aliasDepthExceeded := by
  -- Faults of a text are reported with codes of their own.
  simp only [Tree.fault?, Option.map_eq_some_iff] at faulty
  obtain ⟨visit, -, rfl⟩ := faulty
  intro deep
  split at deep <;> cases deep

/-- With a limit for all aliases no build fails on the depth of calls. -/
theorem buildRoot_not_tooDeep (roomy : language.aliases.length ≤ limit) {error : BuildError}
    (failed : buildRoot .standard language limit (parse text) text = .error error) :
    error.code ≠ .aliasDepthExceeded := by
  intro deep
  rcases buildRoot_cases language limit text with
    ⟨name, repeated, -⟩ | ⟨report, unreadable, faulty⟩ | ⟨distinct, readable⟩
  · cases repeated.symm.trans failed
    cases deep
  · cases unreadable.symm.trans failed
    exact fault?_code faulty deep
  · -- Past both checks the failure is that of the text, but for its place.
    have unplaced := @buildRoot_unplaced language limit text distinct readable
    rw [failed] at unplaced
    refine textAst_not_tooDeep roomy readable .nil unplaced.symm ?_
    rw [BuildError.code_relocate]
    exact deep

/-- A query has an AST exactly when its aliases are distinct and its text has what it needs. -/
theorem buildRoot_ok_iff :
    (∃ root, buildRoot .standard language limit (parse text) text = .ok root) ↔
      (language.aliases.map (·.name)).Nodup ∧ Expandable language limit [] text := by
  -- Both guards and the expansion: what has been built met them
  -- all, and the rounds suffice for what meets them all.
  constructor
  · rintro ⟨root, built⟩
    obtain ⟨distinct, readable⟩ := buildRoot_ok built
    exact ⟨distinct, expandable_of_textAst distinct readable (textAst_of_buildRoot built) .nil⟩
  · rintro ⟨distinct, needs⟩
    obtain ⟨node, made⟩ := textAst_of_expandable distinct needs .nil (Nat.le_add_right _ _)
    obtain ⟨root, built, -⟩ := buildRoot_of_textAst distinct needs.readable made
    exact ⟨root, built⟩

end Expandable

/--
A query has an AST exactly when its aliases are distinct, its text and all expansions that calls
lead to can be read, no chain of calls repeats a name or passes the limit, every field that stands
alone is boolean and every number is finite.

A limit for all aliases is never passed, and expanding ends by itself: no number of further rounds
changes what a call stands for.
-/
theorem buildEnvelope_succeeds_iff (language : Language) (limit : Nat) (text : String) :
    ((∃ envelope, buildEnvelope .standard language limit (parse text) text = .ok envelope) ↔
      (language.aliases.map (·.name)).Nodup ∧ (parse text).fault? = none ∧
      (∀ names, CallChain language text names →
        (∀ name ∈ names, ∃ declared ∈ language.aliases, declared.name = name ∧
          (parse declared.expansion).fault? = none) ∧ names.Nodup ∧ names.length ≤ limit) ∧
      (∀ other name, Reaches language text other → Mentions other (.flag name) →
        ∃ field, language.field? name = some field ∧ field.type = .boolean) ∧
      ∀ other raw, Reaches language text other → Mentions other (.number raw) →
        ∃ value, readNumberText raw.toList = .ok (.finite value)) ∧
    ¬ (language.aliases.length ≤ limit ∧ ∃ error,
      buildEnvelope .standard language limit (parse text) text = .error error ∧
        error.code = .aliasDepthExceeded) ∧
    ∀ extra, expandAlias .standard language limit (language.aliases.length + extra) [] =
      expandAlias .standard language limit language.aliases.length [] := by
  -- The envelope only wraps the AST, and the empty chain adds nothing to the chains of calls.
  refine ⟨exists_wrapped.trans (buildRoot_ok_iff.trans ⟨?_, ?_⟩), ?_,
    expandAlias_rounds .nil (Nat.le_add_right _ _)⟩
  · rintro ⟨distinct, needs⟩
    exact ⟨distinct, needs.readable, needs.calls, needs.flags, needs.numbers⟩
  · rintro ⟨distinct, readable, calls, flags, numbers⟩
    exact ⟨distinct, readable, calls, flags, numbers⟩
  · rintro ⟨roomy, error, failed, deep⟩
    rw [buildEnvelope, bind_eq_error] at failed
    rcases failed with failed | ⟨_, -, impossible⟩
    · exact buildRoot_not_tooDeep roomy failed deep
    · cases impossible

end FilterLang
