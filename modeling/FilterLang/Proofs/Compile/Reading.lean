import FilterLang.Compile
import FilterLang.Proofs.Ast.Expansion
import FilterLang.Proofs.Text.Quoted
import Mathlib.Data.List.Forall2

/-! Compiled queries mean what their derivations say. -/

namespace FilterLang

/-- Which comparisons hold: those of a field, by an operator, with a value. -/
abbrev Truth := String → String → IrValue → Bool

/-- Whether a connective of two conditions holds. -/
def Connective.holds : Connective → Bool → Bool → Bool
  | .and, left, right => left && right
  | .or, left, right => left || right

/-- Whether an expression holds. -/
def Ir.eval (truth : Truth) : Ir → Bool
  | .logical operator left right => operator.holds (left.eval truth) (right.eval truth)
  | .negation expression => !expression.eval truth
  | .comparison field operator value => truth field operator value

/-- A literal denotes a value. -/
inductive Literal.Denotes : Literal → IrValue → Prop where
  | string {raw value : String} (quoted : Quoted raw value) : Denotes (.string raw) (.string value)
  | number {raw : String} {value : Binary64}
      (finite : readNumberText raw.toList = .ok (.finite value)) :
      Denotes (.number raw) (.number value)
  | boolean (value : Bool) : Denotes (.boolean value) (.boolean value)

/-- What a phrase says of the comparisons that hold. -/
inductive Reads (language : Language) (truth : Truth) :
    {category : Category} → Phrase category → Bool → Prop where
  -- A field that stands alone says that it is true.
  | bare {name : String} {span : Span} :
      Reads language truth (.bare name span) (truth name "=" (.boolean true))
  | compare {name : String} {span : Span} {comparator : Comparator} {operator : Span}
      {scalar : Scalar} {value : IrValue} (denotes : scalar.literal.Denotes value) :
      Reads language truth (.compare name span comparator operator scalar)
        (truth name comparator.symbol value)
  | member {name : String} {span : Span} {membership : Membership} {opening closing : Span}
      {listing : Listing} {values : List IrValue}
      (denote : List.Forall₂ (fun scalar value => scalar.literal.Denotes value)
        listing.scalars values) :
      Reads language truth (.member name span membership opening listing closing)
        (truth name membership.symbol (.list values))
  -- A call says what the alias's expansion says.
  | call {declared : Alias} {span opening closing : Span} {body : Query} {value : Bool}
      (declares : declared ∈ language.aliases) (derives : body.Derives declared.expansion)
      (reads : Reads language truth body value) :
      Reads language truth (.call declared.name span opening closing) value
  | group {opening closing : Span} {inside : Query} {value : Bool}
      (reads : Reads language truth inside value) :
      Reads language truth (.group opening inside closing) value
  | plain {operand : Phrase .primary} {value : Bool} (reads : Reads language truth operand value) :
      Reads language truth (.plain operand) value
  | negated {word : Span} {operand : Phrase .negation} {value : Bool}
      (reads : Reads language truth operand value) :
      Reads language truth (.negated word operand) !value
  | single {connective : Connective} {operand : Phrase connective.operand} {value : Bool}
      (reads : Reads language truth operand value) :
      Reads language truth (@Phrase.single connective operand) value
  | join {connective : Connective} {left : Phrase (.chain connective)} {word : Span}
      {right : Phrase connective.operand} {before behind : Bool}
      (readsLeft : Reads language truth left before)
      (readsRight : Reads language truth right behind) :
      Reads language truth (@Phrase.join connective left word right)
        (connective.holds before behind)

namespace Reads

variable {language : Language} {truth : Truth} {value : Bool}

/-- What a field that stands alone says. -/
theorem bare_iff {name : String} {span : Span} :
    Reads language truth (.bare name span) value ↔ value = truth name "=" (.boolean true) :=
  ⟨fun | .bare => rfl, fun same => same ▸ .bare⟩

/-- What a comparison with one value says. -/
theorem compare_iff {name : String} {span : Span} {comparator : Comparator} {operator : Span}
    {scalar : Scalar} :
    Reads language truth (.compare name span comparator operator scalar) value ↔
      ∃ denoted, scalar.literal.Denotes denoted ∧ value = truth name comparator.symbol denoted :=
  ⟨fun | .compare denotes => ⟨_, denotes, rfl⟩, fun ⟨_, denotes, same⟩ => same ▸ .compare denotes⟩

/-- What a comparison with a list says. -/
theorem member_iff {name : String} {span : Span} {membership : Membership} {opening closing : Span}
    {listing : Listing} :
    Reads language truth (.member name span membership opening listing closing) value ↔
      ∃ denoted, List.Forall₂ (fun scalar value => scalar.literal.Denotes value) listing.scalars
        denoted ∧ value = truth name membership.symbol (.list denoted) :=
  ⟨fun | .member denote => ⟨_, denote, rfl⟩, fun ⟨_, denote, same⟩ => same ▸ .member denote⟩

/-- What a call says. -/
theorem call_iff {name : String} {span opening closing : Span} :
    Reads language truth (.call name span opening closing) value ↔
      ∃ declared ∈ language.aliases, declared.name = name ∧ ∃ body : Query,
        body.Derives declared.expansion ∧ Reads language truth body value :=
  ⟨fun | .call declares derives reads => ⟨_, declares, rfl, _, derives, reads⟩,
    fun ⟨_, declares, same, _, derives, reads⟩ => same ▸ .call declares derives reads⟩

/-- A group says what stands in it. -/
theorem group_iff {opening closing : Span} {inside : Query} :
    Reads language truth (.group opening inside closing) value ↔
      Reads language truth inside value :=
  ⟨fun | .group reads => reads, .group⟩

/-- An operand without negations says what its primary expression says. -/
theorem plain_iff {operand : Phrase .primary} :
    Reads language truth (.plain operand) value ↔ Reads language truth operand value :=
  ⟨fun | .plain reads => reads, .plain⟩

/-- A negation says the contrary of its operand. -/
theorem negated_iff {word : Span} {operand : Phrase .negation} :
    Reads language truth (.negated word operand) value ↔
      ∃ inner, Reads language truth operand inner ∧ value = !inner :=
  ⟨fun | .negated reads => ⟨_, reads, rfl⟩, fun ⟨_, reads, same⟩ => same ▸ .negated reads⟩

/-- A chain of one operand says what the operand says. -/
theorem single_iff {connective : Connective} {operand : Phrase connective.operand} :
    Reads language truth (@Phrase.single connective operand) value ↔
      Reads language truth operand value :=
  ⟨fun | .single reads => reads, .single⟩

/-- A longer chain says what its connective makes of both sides. -/
theorem join_iff {connective : Connective} {left : Phrase (.chain connective)} {word : Span}
    {right : Phrase connective.operand} :
    Reads language truth (@Phrase.join connective left word right) value ↔
      ∃ before behind, Reads language truth left before ∧ Reads language truth right behind ∧
        value = connective.holds before behind :=
  ⟨fun | .join before behind => ⟨_, _, before, behind, rfl⟩,
    fun ⟨_, _, before, behind, same⟩ => same ▸ .join before behind⟩

end Reads

mutual

/-- Lowering drops the places of a value, so it does not matter whether they were moved. -/
theorem Value.lower_relocate (span : Option Span) :
    ∀ value : Value, (value.relocate span).lower = value.lower
  -- Mutual recursion with the lists of values; lowering leaves spans out.
  | .string _ _ => rfl
  | .number _ _ _ => rfl
  | .boolean _ _ => rfl
  | .list items _ => by
    simp only [Value.relocate, Value.lower, Value.lowerAll_relocateAll span items]

/-- Lowering drops the places of several values. -/
theorem Value.lowerAll_relocateAll (span : Option Span) :
    ∀ values : List Value, Value.lowerAll (Value.relocateAll span values) = Value.lowerAll values
  | [] => rfl
  | value :: values => by
    simp only [Value.relocateAll, Value.lowerAll, Value.lower_relocate span value,
      Value.lowerAll_relocateAll span values]

end

/-- Lowering drops the places of an expression. -/
theorem Node.lower_eraseSpans (node : Node) : node.eraseSpans.lower = node.lower := by
  -- Induction on the expression; lowering leaves spans out.
  rw [Node.eraseSpans]
  induction node with
  | comparison field operator value span =>
    simp only [Node.relocate, Node.lower, Value.lower_relocate]
  | logical operator left right span ihLeft ihRight =>
    simp only [Node.relocate, Node.lower, ihLeft, ihRight]
  | negation expression span ih => simp only [Node.relocate, Node.lower, ih]

/-- A value built from a literal is the one that the literal denotes. -/
theorem Scalar.denotes_iff {scalar : Scalar} {value : Value}
    (built : scalar.literal.value = .ok value) (quoted : scalar.token.WellQuoted)
    (denoted : IrValue) : scalar.literal.Denotes denoted ↔ denoted = value.lower := by
  obtain ⟨literal, span⟩ := scalar
  cases literal with
  | string raw =>
    obtain ⟨text, stands⟩ := quoted raw rfl
    obtain rfl := Except.ok.inj built
    rw [stands.unquote_eq]
    constructor
    · -- A literal stands for one text only, the one that unquoting gives.
      rintro ⟨⟩
      rename_i other quotes
      rw [← stands.unquote_eq, quotes.unquote_eq]
      rfl
    · rintro rfl
      exact .string stands
  | number raw =>
    obtain ⟨number, finite, rfl⟩ := Literal.value_number.mp built
    constructor
    · -- Both numbers are read off the same text.
      rintro ⟨⟩
      rename_i other finite'
      rw [finite] at finite'
      cases finite'
      rfl
    · rintro rfl
      exact .number finite
  | boolean value =>
    obtain rfl := Except.ok.inj built
    constructor
    · rintro ⟨⟩
      rfl
    · rintro rfl
      exact .boolean value

/-- The values built from scalars are those that the scalars denote. -/
theorem denotesAll_iff {scalars : List Scalar} {values : List Value}
    (built : scalars.mapM (·.literal.value) = .ok values)
    (quoted : ∀ scalar ∈ scalars, scalar.token.WellQuoted) (denoted : List IrValue) :
    List.Forall₂ (fun scalar value => scalar.literal.Denotes value) scalars denoted ↔
      denoted = Value.lowerAll values := by
  -- Neither side is longer than the scalars, so both are taken apart along them.
  induction scalars generalizing values denoted with
  | nil =>
    obtain rfl : [] = values := Except.ok.inj built
    simp [Value.lowerAll]
  | cons scalar scalars ih =>
    simp only [List.mapM_cons, bind_eq_ok] at built
    obtain ⟨value, first, rest, others, made⟩ := built
    obtain rfl := Except.ok.inj made
    simp only [List.forall_mem_cons] at quoted
    simp [Value.lowerAll, List.forall₂_cons_left_iff, Scalar.denotes_iff first quoted.1,
      ih others quoted.2]

/-- What calls say, given the ASTs that they stand for. -/
def CallsRead (language : Language) (truth : Truth) (expand : String → Built) : Prop :=
  ∀ name node, expand name = .ok node → ∀ value,
    (∃ declared ∈ language.aliases, declared.name = name ∧ ∃ body : Query,
      body.Derives declared.expansion ∧ Reads language truth body value) ↔
      value = node.lower.eval truth

/-- A phrase says what its AST evaluates to, and nothing else. -/
theorem Phrase.reads_iff {language : Language} {truth : Truth} {expand : String → Built}
    (calls : CallsRead language truth expand) {category : Category} (phrase : Phrase category)
    (quoted : ∀ token ∈ phrase.tokens, token.WellQuoted) {node : Node}
    (built : phrase.ast language expand = .ok node) (value : Bool) :
    Reads language truth phrase value ↔ value = node.lower.eval truth := by
  induction phrase generalizing node value with
  | bare name span =>
    -- Only a boolean field has an AST when it stands alone.
    rw [Phrase.ast] at built
    split at built
    · obtain rfl := Except.ok.inj built
      exact Reads.bare_iff
    · cases built
  | compare name span comparator operator scalar =>
    simp only [Phrase.ast, bind_eq_ok] at built
    obtain ⟨literal, first, made⟩ := built
    obtain rfl := Except.ok.inj made
    have wellQuoted := quoted scalar.token (by simp [Phrase.tokens])
    simp [Reads.compare_iff, Scalar.denotes_iff first wellQuoted, Node.lower, Ir.eval]
  | member name span membership opening listing closing =>
    simp only [Phrase.ast, Listing.value, bind_eq_ok] at built
    obtain ⟨list, ⟨items, each, listed⟩, made⟩ := built
    obtain rfl := Except.ok.inj listed
    obtain rfl := Except.ok.inj made
    have wellQuoted : ∀ scalar ∈ listing.scalars, scalar.token.WellQuoted := fun scalar member =>
      quoted scalar.token (by simp [Phrase.tokens, Listing.token_mem member])
    simp [Reads.member_iff, denotesAll_iff each wellQuoted, Node.lower, Value.lower, Ir.eval]
  | call name span opening closing =>
    rw [Reads.call_iff]
    exact calls name node built value
  | group opening inside closing ih =>
    rw [Reads.group_iff]
    exact ih (fun token member => quoted token (by simp [Phrase.tokens, member])) built value
  | plain operand ih =>
    rw [Reads.plain_iff]
    exact ih quoted built value
  | negated word operand ih =>
    simp only [Phrase.ast, bind_eq_ok] at built
    obtain ⟨inside, first, made⟩ := built
    obtain rfl := Except.ok.inj made
    have reads := ih (fun token member => quoted token (by simp [Phrase.tokens, member])) first
    simp [Reads.negated_iff, reads, Node.lower, Ir.eval]
  | @single connective operand ih =>
    rw [Reads.single_iff]
    exact ih quoted built value
  | @join connective left word right ihLeft ihRight =>
    simp only [Phrase.ast, bind_eq_ok] at built
    obtain ⟨before, first, behind, second, made⟩ := built
    obtain rfl := Except.ok.inj made
    have readsLeft :=
      ihLeft (fun token member => quoted token (by simp [Phrase.tokens, member])) first
    have readsRight :=
      ihRight (fun token member => quoted token (by simp [Phrase.tokens, member])) second
    simp [Reads.join_iff, readsLeft, readsRight, Node.lower, Ir.eval]

/-- A text says what its AST evaluates to, and nothing else. -/
theorem reads_text_iff {language : Language} {truth : Truth} {limit rounds : Nat}
    {chain : List String} (calls : CallsRead language truth (callAst language limit rounds chain))
    {text : String} (readable : (parse text).fault? = none) {node : Node}
    (built : textAst language limit rounds chain text = .ok node) (value : Bool) :
    (∃ query : Query, query.Derives text ∧ Reads language truth query value) ↔
      value = node.lower.eval truth := by
  -- Every derivation of the text has the same AST, so it says the same.
  have each : ∀ query : Query, query.Derives text →
      (Reads language truth query value ↔ value = node.lower.eval truth) := by
    intro query derives
    have quoted := (scans_tokenize text).wellQuoted
    exact query.reads_iff calls (derives.1 ▸ quoted) (textAst_of_derives derives ▸ built) value
  constructor
  · rintro ⟨query, derives, reads⟩
    exact (each query derives).mp reads
  · intro same
    obtain ⟨query, derives⟩ := exists_derives readable
    exact ⟨query, derives, (each query derives).mpr same⟩

/-- Calls say what the ASTs that they stand for evaluate to. -/
theorem callsRead_callAst {language : Language} (distinct : (language.aliases.map (·.name)).Nodup)
    (truth : Truth) (limit rounds : Nat) (chain : List String) :
    CallsRead language truth (callAst language limit rounds chain) := by
  -- A call's expansion is read with a round less and one more name on the chain.
  induction rounds generalizing chain with
  | zero =>
    intro name node built
    obtain ⟨fewer, declared, impossible, -⟩ := callAst_ok built
    cases impossible
  | succ rounds ih =>
    intro name node built value
    obtain ⟨fewer, declared, same, opens, inside⟩ := callAst_ok built
    obtain rfl := Nat.succ.inj same
    rw [← reads_text_iff (ih (chain ++ [name])) opens.readable inside value]
    constructor
    · rintro ⟨other, declares, rfl, reading⟩
      -- Only one alias goes by the name.
      obtain rfl := opens.eq_declared distinct declares
      exact reading
    · intro reading
      obtain ⟨declares, named⟩ := declared_of_find? opens.found
      exact ⟨declared, declares, named, reading⟩

section Compilation

variable {config : Config} {language : Language} {text : String} {envelope : Envelope}

/-- An envelope that is handed out was built. -/
theorem analyze_envelope (handed : (analyze config language text).envelope = some envelope) :
    buildEnvelope .standard language config.aliasDepthLimit.toNat (parse text) text =
      .ok envelope := by
  simp only [analyze] at handed
  -- An envelope is handed out only past the checks of the text, of the build and of the types.
  split at handed
  · cases handed
  · split at handed
    · cases handed
    · rename_i built
      split at handed
      · cases handed
      · rw [built, Option.some.inj handed]

/-- An envelope compiles to its lowered AST. -/
theorem compileEnvelope_ir (compiled : (compileEnvelope config language envelope).success = true) :
    (compileEnvelope config language envelope).ir = some envelope.root.lower := by
  -- Success is claimed in one branch only, and that branch lowers the root.
  simp only [compileEnvelope] at compiled ⊢
  split at compiled
  · cases compiled
  · split at compiled
    · cases compiled
    · rename_i sound typed
      rw [if_neg sound, if_neg typed]

/-- A query compiles only by way of an AST, and to the lowered AST. -/
theorem compileQuery_success (compiled : (compileQuery config language text).success = true) :
    ∃ root, buildRoot .standard language config.aliasDepthLimit.toNat (parse text) text = .ok root ∧
      (compileQuery config language text).ir = some root.lower := by
  -- Without an envelope nothing has been compiled.
  unfold compileQuery at compiled ⊢
  cases handed : (analyze config language text).envelope with
  | none => simp [handed] at compiled
  | some envelope =>
    simp only [handed] at compiled ⊢
    exact ⟨envelope.root, buildEnvelope_ok (analyze_envelope handed), compileEnvelope_ir compiled⟩

end Compilation

/--
A query that compiles evaluates to the one reading of its text.

The reading of the text exists, and no derivation of the text has another one.
-/
theorem compileQuery_evaluates_reading (config : Config) (language : Language) (text : String)
    (compiled : (compileQuery config language text).success = true) :
    ∃ ir, (compileQuery config language text).ir = some ir ∧ ∀ (truth : Truth) (value : Bool),
      (∃ query : Query, query.Derives text ∧ Reads language truth query value) ↔
        value = ir.eval truth := by
  obtain ⟨root, built, lowered⟩ := compileQuery_success compiled
  obtain ⟨distinct, readable⟩ := buildRoot_ok built
  have made := textAst_of_buildRoot built
  refine ⟨root.lower, lowered, fun truth value => ?_⟩
  -- Lowering drops the places, so the AST may be taken without them.
  rw [← Node.lower_eraseSpans]
  exact reads_text_iff (callsRead_callAst distinct truth _ _ _) readable made value

/-- A language of issues, with an alias that calls another. -/
def issueLanguage : Language :=
  { Language.new "1" with
    fields := [⟨"archived", .boolean, none, none⟩, ⟨"owner", .string, none, none⟩,
      ⟨"level", .number, none, none⟩]
    aliases := [⟨"mine", "owner = \"a\\\"b\" OR open()"⟩, ⟨"open", "not archived"⟩] }

/-- A query with nested calls, negations and a list evaluates to its reading. -/
theorem issueLanguage_evaluates_reading :
    (compileQuery .default issueLanguage
      "NOT NOT mine() AND level not  IN (1, -2.5) OR archived").success = true ∧
    ∃ ir, (compileQuery .default issueLanguage
      "NOT NOT mine() AND level not  IN (1, -2.5) OR archived").ir = some ir ∧
      ∀ (truth : Truth) (value : Bool),
        (∃ query : Query, query.Derives "NOT NOT mine() AND level not  IN (1, -2.5) OR archived" ∧
          Reads issueLanguage truth query value) ↔ value = ir.eval truth :=
  ⟨by decide +kernel, compileQuery_evaluates_reading _ _ _ (by decide +kernel)⟩

end FilterLang
