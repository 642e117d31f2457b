import FilterLang.Proofs.Ast.Operators
import FilterLang.Proofs.Grammar.Placeless
import Mathlib.Data.List.Basic

/-! Layout and the capitals of keywords do not matter. -/

namespace FilterLang

/-- Two builds that come to the same but for the places. -/
def Alike (first second : Built) : Prop :=
  (∃ root other, first = .ok root ∧ second = .ok other ∧ root.eraseSpans = other.eraseSpans) ∨
    ∃ error other, first = .error error ∧ second = .error other ∧ error.code = other.code

/-- Builds that agree without their places come to the same but for the places. -/
theorem alike_of_unplaced {first second : Built} (same : first.unplaced = second.unplaced) :
    Alike first second := by
  cases first with
  | ok root =>
    cases second with
    | ok other => exact .inl ⟨root, other, rfl, rfl, Except.ok.inj same⟩
    | error other => cases same
  | error error =>
    cases second with
    | ok other => cases same
    | error other =>
      -- Errors that agree once they are moved to one place have one code.
      have codes := congrArg BuildError.code (Except.error.inj same)
      rw [BuildError.code_relocate, BuildError.code_relocate] at codes
      exact .inr ⟨error, other, rfl, rfl, codes⟩

section Respelled

variable {first second : String} {language : Language} {limit : Nat}

/-- A query that derives a text derives, at other places, every text of the same kinds. -/
theorem exists_respelled (same : (tokenize first).map (·.kind) = (tokenize second).map (·.kind))
    {query : Query} (derives : query.Derives first) :
    ∃ other : Query, other.Derives second ∧
      ∀ language expand, other.ast language expand = query.ast language expand := by
  -- Only the places of the tokens differ, and no group is opened by a place.
  have kinds : (tokenize second).map (·.kind) = query.tokens.map (·.kind) := by
    rw [derives.1, same]
  obtain ⟨other, tokens, nesting, agree⟩ := query.exists_replaced kinds
  exact ⟨other, ⟨tokens, nesting ▸ derives.2⟩, agree⟩

/-- Texts of the same kinds are built alike. -/
theorem buildRoot_respelled
    (same : (tokenize first).map (·.kind) = (tokenize second).map (·.kind)) :
    Alike (buildRoot .standard language limit (parse first) first)
      (buildRoot .standard language limit (parse second) second) := by
  by_cases distinct : (language.aliases.map (·.name)).Nodup
  · cases fault : (parse first).fault? with
    | none =>
      -- One query derives both texts, at different places, and has one AST.
      obtain ⟨query, derives⟩ := exists_derives fault
      obtain ⟨other, derives', agree⟩ := exists_respelled same derives
      refine alike_of_unplaced ?_
      rw [buildRoot_unplaced distinct fault,
        buildRoot_unplaced distinct (fault_of_derives derives'),
        textAst_of_derives derives, textAst_of_derives derives', agree]
    | some report =>
      -- The trees are of one shape, so the other text has a fault of the same code.
      have codes := (parse first).code_fault?_unplaced
      rw [unplaced_parse same, Tree.code_fault?_unplaced, fault, Option.map_some,
        Option.map_eq_some_iff] at codes
      obtain ⟨report', fault', code⟩ := codes
      have unrepeated := (firstRepeated?_eq_none_iff [] _).mpr ⟨distinct, by simp⟩
      refine .inr ⟨.unreadable report, .unreadable report', ?_, ?_, code.symm⟩
      · rw [buildRoot, unrepeated]
        simp only [fault]
      · rw [buildRoot, unrepeated]
        simp only [fault']
  · -- An alias that is declared twice spoils both texts.
    obtain ⟨name, repeated⟩ := Option.ne_none_iff_exists'.mp fun none =>
      distinct ((firstRepeated?_eq_none_iff [] _).mp none).1
    refine .inr ⟨.duplicateAlias name, .duplicateAlias name, ?_, ?_, rfl⟩
    · rw [buildRoot, repeated]
    · rw [buildRoot, repeated]

end Respelled

/-- A token of a text comes right behind one token only. -/
theorem eq_of_precedes {text : String} {left right token : Token}
    (first : [left, token] <:+: tokenize text) (second : [right, token] <:+: tokenize text) :
    left = right := by
  obtain ⟨front, back, split⟩ := first
  obtain ⟨front', back', split'⟩ := second
  have parts : front ++ [left] ++ token :: back = tokenize text := by simpa using split
  have parts' : front' ++ [right] ++ token :: back' = tokenize text := by simpa using split'
  -- Tokens begin strictly one after the other, so this one occurs once.
  have order := (scans_tokenize text).pairwise_start
  rw [← parts, List.pairwise_append, List.pairwise_cons] at order
  obtain ⟨-, ⟨late, -⟩, early⟩ := order
  have before : token ∉ front ++ [left] := fun member =>
    absurd (early token member token List.mem_cons_self) (Nat.lt_irrefl _)
  have behind : token ∉ back := fun member => absurd (late token member) (Nat.lt_irrefl _)
  have same := (List.append_cons_inj_of_notMem before behind).mp (parts.trans parts'.symm)
  exact List.singleton_inj.mp (List.append_inj' same.1 rfl).2

section Stored

variable {text : String} {root : Node}

/-- The operator stored for a comparison operator's token is the token's symbol. -/
theorem Stores.symbol (stores : Stores (tokenize text) root) {mark : Token}
    (member : mark ∈ tokenize text) {symbol : String}
    (named : mark.kind.comparisonSymbol? = some symbol) :
    ∃ name field, [⟨.identifier name, field⟩, mark] <:+: tokenize text ∧
      root.operatorsAt field = [symbol] := by
  -- The operator on record is spelled by the mark that
  -- ends it, and a comparison has only that mark.
  have ends : mark.kind.endsOperator = true := by simp [TokenKind.endsOperator, named]
  obtain ⟨name, field, front, stored, spells, inside, here⟩ := stores.stored mark member ends
  cases spells with
  | compare own =>
    obtain rfl := Option.some.inj (named.symm.trans own)
    exact ⟨name, field, inside, here⟩
  | isIn word => cases named
  | notIn negation word => cases named

/-- The operator stored for the word of a list is negated exactly if a negation stands before it. -/
theorem Stores.membership (stores : Stores (tokenize text) root) {word : Span}
    (member : ⟨.inWord, word⟩ ∈ tokenize text) :
    ∃ name field operator, root.operatorsAt field = [operator] ∧
      (operator = "IN" ∨ operator = "NOT IN") ∧
      (operator = "IN" ↔ [⟨.identifier name, field⟩, ⟨.inWord, word⟩] <:+: tokenize text) ∧
      (operator = "NOT IN" ↔ ∃ negation,
        [⟨.identifier name, field⟩, ⟨.notWord, negation⟩, ⟨.inWord, word⟩] <:+: tokenize text) := by
  obtain ⟨name, field, front, stored, spells, inside, here⟩ := stores.stored _ member rfl
  -- The token right before the word is the field or a negation, and it cannot be both.
  have apart : ∀ negation : Span,
      [(⟨.identifier name, field⟩ : Token), ⟨.inWord, word⟩] <:+: tokenize text →
      ¬ [(⟨.identifier name, field⟩ : Token), ⟨.notWord, negation⟩, ⟨.inWord, word⟩] <:+:
        tokenize text := by
    intro negation plain negated
    have close : [(⟨.notWord, negation⟩ : Token), ⟨.inWord, word⟩] <:+: tokenize text :=
      (List.suffix_cons _ _).isInfix.trans negated
    cases eq_of_precedes plain close
  cases spells with
  | compare named => cases named
  | isIn =>
    refine ⟨name, field, "IN", here, .inl rfl, ⟨fun _ => inside, fun _ => rfl⟩, nofun, ?_⟩
    rintro ⟨negation, negated⟩
    exact (apart negation inside negated).elim
  | notIn negation =>
    refine ⟨name, field, "NOT IN", here, .inr rfl, ⟨nofun, fun plain => ?_⟩,
      ⟨fun _ => ⟨negation, inside⟩, fun _ => rfl⟩⟩
    exact (apart negation plain inside).elim

end Stored

/--
Layout and the capitals of keywords do not matter.

Two texts whose tokens agree in kind are built to ASTs that differ in their places only, or both
fail with one code. In what is built, each comparison operator is stored as the symbol of its token,
and the operator of a list is negated exactly if the word of a negation stands between it and the
field.
-/
theorem buildEnvelope_respelled (language : Language) (limit : Nat) :
    (∀ first second : String,
      (tokenize first).map (·.kind) = (tokenize second).map (·.kind) →
      (∃ envelope other,
        buildEnvelope .standard language limit (parse first) first = .ok envelope ∧
        buildEnvelope .standard language limit (parse second) second = .ok other ∧
        envelope.root.eraseSpans = other.root.eraseSpans) ∨
      ∃ error other,
        buildEnvelope .standard language limit (parse first) first = .error error ∧
        buildEnvelope .standard language limit (parse second) second = .error other ∧
        (error.diagnostic (byteSize first)).code = (other.diagnostic (byteSize second)).code) ∧
    ∀ (text : String) (envelope : Envelope),
      buildEnvelope .standard language limit (parse text) text = .ok envelope →
      (∀ mark ∈ tokenize text, ∀ symbol, mark.kind.comparisonSymbol? = some symbol →
        ∃ name field, [⟨.identifier name, field⟩, mark] <:+: tokenize text ∧
          envelope.root.operatorsAt field = [symbol]) ∧
      ∀ word, ⟨.inWord, word⟩ ∈ tokenize text →
        ∃ name field operator, envelope.root.operatorsAt field = [operator] ∧
          (operator = "IN" ∨ operator = "NOT IN") ∧
          (operator = "IN" ↔ [⟨.identifier name, field⟩, ⟨.inWord, word⟩] <:+: tokenize text) ∧
          (operator = "NOT IN" ↔ ∃ negation,
            [⟨.identifier name, field⟩, ⟨.notWord, negation⟩, ⟨.inWord, word⟩] <:+:
              tokenize text) := by
  -- The first part is about roots; an envelope adds nothing that the tokens do not fix.
  refine ⟨fun first second same => ?_, fun text envelope built => ?_⟩
  · rcases buildRoot_respelled same with
      ⟨root, other, built, built', erased⟩ | ⟨error, other, failed, failed', codes⟩
    · obtain ⟨envelope, carried, rfl⟩ := exists_buildEnvelope built
      obtain ⟨envelope', carried', rfl⟩ := exists_buildEnvelope built'
      exact .inl ⟨envelope, envelope', carried, carried', erased⟩
    · refine .inr ⟨error, other, ?_, ?_, ?_⟩
      · rw [buildEnvelope, failed]
        rfl
      · rw [buildEnvelope, failed']
        rfl
      · rw [BuildError.code_diagnostic, BuildError.code_diagnostic, codes]
  · -- Every word that ends an operator has left that operator at its field.
    have stores := buildRoot_stores (buildEnvelope_ok built)
    exact ⟨fun mark member symbol named => stores.symbol member named,
      fun word member => stores.membership member⟩

/-- A query with keywords in capitals and single blanks. -/
def plainText : String :=
  "owner NOT IN (\"a\") AND level CONTAINS 2"

/-- The same query with other capitals and other white space. -/
def spacedText : String :=
  "owner not\u2003iN(\"a\")\tand level Contains  2"

/-- Both texts have one AST but for the places, and the wide blank does not hide the negation. -/
theorem plainText_respelled :
    (tokenize plainText).map (·.kind) = (tokenize spacedText).map (·.kind) ∧
    ∃ envelope other,
      buildEnvelope .standard (Language.new "1") 0 (parse plainText) plainText = .ok envelope ∧
      buildEnvelope .standard (Language.new "1") 0 (parse spacedText) spacedText = .ok other ∧
      envelope.root.eraseSpans = other.root.eraseSpans ∧
      ∃ name field negation, other.root.operatorsAt field = ["NOT IN"] ∧
        [⟨.identifier name, field⟩, ⟨.notWord, negation⟩, ⟨.inWord, ⟨12, 14⟩⟩] <:+:
          tokenize spacedText := by
  have same : (tokenize plainText).map (·.kind) = (tokenize spacedText).map (·.kind) := by
    decide +kernel
  have succeeds : (buildEnvelope .standard (Language.new "1") 0 (parse plainText)
      plainText).toOption.isSome = true := by
    decide +kernel
  obtain ⟨alike, stored⟩ := buildEnvelope_respelled (Language.new "1") 0
  rcases alike plainText spacedText same with
    ⟨envelope, other, built, built', erased⟩ | ⟨error, other, failed, -⟩
  · obtain ⟨name, field, operator, here, either, plain, negated⟩ :=
      (stored spacedText other built').2 ⟨12, 14⟩ (by decide +kernel)
    -- Right before the word stands a negation, and so no field.
    have close : [(⟨.notWord, ⟨6, 9⟩⟩ : Token), ⟨.inWord, ⟨12, 14⟩⟩] <:+: tokenize spacedText := by
      decide +kernel
    have two : operator = "NOT IN" := by
      refine either.resolve_left fun single => ?_
      cases eq_of_precedes (plain.mp single) close
    obtain ⟨negation, inside⟩ := negated.mp two
    rw [two] at here
    exact ⟨same, envelope, other, built, built', erased, name, field, negation, here, inside⟩
  · rw [failed] at succeeds
    cases succeeds

end FilterLang
