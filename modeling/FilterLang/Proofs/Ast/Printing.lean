import FilterLang.Proofs.Ast.Substitution
import FilterLang.Proofs.Token.Joining

/-! ASTs written as queries, and read back from them. -/

namespace FilterLang

mutual

/-- A value as a query writes it. -/
def Value.print : Value → String
  | .string text _ => quote text
  -- A number keeps the spelling that it was read from.
  | .number _ raw _ => raw
  | .boolean true _ => "true"
  | .boolean false _ => "false"
  | .list items _ => "(" ++ Value.printItems items ++ ")"

/-- The items of a list as a query writes them. -/
def Value.printItems : List Value → String
  | [] => ""
  | [item] => item.print
  | item :: next :: items => item.print ++ ", " ++ Value.printItems (next :: items)

end

/-- An expression as a query writes it. -/
def Node.print : Node → String
  | .comparison field operator value _ => field.name ++ " " ++ operator ++ " " ++ value.print
  | .logical connective left right _ =>
    "(" ++ left.print ++ ") " ++ connective.name ++ " (" ++ right.print ++ ")"
  | .negation expression _ => "NOT (" ++ expression.print ++ ")"

/-- How many groups are open at once where the written form opens most. -/
def Node.groups : Node → Nat
  | .comparison _ _ _ _ => 0
  | .logical _ left right _ => max left.groups right.groups + 1
  | .negation expression _ => expression.groups + 1

/-- A scalar that a query can write. -/
inductive Value.IsWritable : Value → Prop where
  | string (text : String) (span : Option Span) : IsWritable (.string text span)
  | number {double : Binary64} {raw : String} (span : Option Span)
      (whole : (tokenize raw).map (·.kind) = [.number raw])
      (reads : readNumberText raw.toList = .ok (.finite double)) :
      IsWritable (.number double raw span)
  | boolean (truth : Bool) (span : Option Span) : IsWritable (.boolean truth span)

/-- A name that a query can write: it is cut off as one identifier, with nothing left over. -/
def IsName (name : String) : Prop :=
  (tokenize name).map (·.kind) = [.identifier name]

instance (name : String) : Decidable (IsName name) :=
  inferInstanceAs (Decidable ((tokenize name).map (·.kind) = [.identifier name]))

/-- An expression that a query can write. -/
inductive Node.IsExpressible : Node → Prop where
  | compare {field : FieldRef} {operator : String} {value : Value} (span : Option Span)
      (named : IsName field.name)
      (compares : operator ∈ ["=", "!=", ">", ">=", "<", "<=", "CONTAINS"])
      (writable : value.IsWritable) : IsExpressible (.comparison field operator value span)
  | member {field : FieldRef} {operator : String} {items : List Value} (place span : Option Span)
      (named : IsName field.name) (lists : operator ∈ ["IN", "NOT IN"])
      (writable : ∀ item ∈ items, item.IsWritable) :
      IsExpressible (.comparison field operator (.list items place) span)
  | logical {left right : Node} (connective : Connective) (span : Option Span)
      (before : IsExpressible left) (behind : IsExpressible right) :
      IsExpressible (.logical connective left right span)
  | negation {expression : Node} (span : Option Span) (inside : IsExpressible expression) :
      IsExpressible (.negation expression span)

/-- A scalar that a query can write is a literal with the scalar as its value. -/
theorem Value.IsWritable.exists_literal {value : Value} (writable : value.IsWritable) :
    ∃ literal : Literal, Cuts value.print.toList [literal.kind] ∧
      literal.value = .ok (value.relocate none) := by
  cases writable with
  | string text span =>
    refine ⟨.string (quote text), cuts_quote text, ?_⟩
    -- The escapes of the literal resolve to the text that was quoted.
    rw [Literal.value, (quoted_quote text).unquote_eq, Value.relocate]
  | @number double raw span whole reads =>
    -- What is cut off as one token alone is cut off so wherever it stands.
    have cuts : Cuts raw.toList [.number raw] := .of_tokenize whole (by simp)
    exact ⟨.number raw, cuts, Literal.value_number.mpr ⟨double, reads, rfl⟩⟩
  | boolean truth span =>
    have words : Cuts "true".toList [.trueWord] ∧ Cuts "false".toList [.falseWord] :=
      ⟨.of_tokenize (by decide) (by decide), .of_tokenize (by decide) (by decide)⟩
    refine ⟨.boolean truth, ?_, rfl⟩
    cases truth with
    | true => exact words.1
    | false => exact words.2

/-- Scalars that a query can write are the items of a list with the scalars as its values. -/
theorem exists_items {item : Value} {items : List Value}
    (writable : ∀ one ∈ item :: items, one.IsWritable) :
    ∃ list : Items, Cuts (Value.printItems (item :: items)).toList (list.tokens.map (·.kind)) ∧
      list.scalars.mapM (·.literal.value) = .ok ((item :: items).map (Value.relocate none)) := by
  -- The items are written from the first one on, with a comma before each that follows.
  induction items generalizing item with
  | nil =>
    obtain ⟨literal, cuts, value⟩ := (writable item List.mem_cons_self).exists_literal
    refine ⟨.last ⟨literal, .empty 0⟩, ?_, ?_⟩
    · rw [Value.printItems]
      exact cuts
    · simp only [Items.scalars, List.mapM_cons, List.mapM_nil, value, List.map_cons, List.map_nil]
      rfl
  | cons next items ih =>
    rw [List.forall_mem_cons] at writable
    obtain ⟨literal, cuts, value⟩ := writable.1.exists_literal
    obtain ⟨list, behind, values⟩ := ih writable.2
    refine ⟨.more ⟨literal, .empty 0⟩ (.empty 0) list, ?_, ?_⟩
    · simpa [Value.printItems, Items.tokens, Scalar.token] using cuts.listed behind
    · simp only [Items.scalars, List.mapM_cons, value, values, List.map_cons]
      rfl

/-- A list of scalars that a query can write is the inside of a list with the same value. -/
theorem exists_listing {items : List Value} (writable : ∀ item ∈ items, item.IsWritable)
    (place : Option Span) :
    ∃ listing : Listing, Cuts (Value.printItems items).toList (listing.tokens.map (·.kind)) ∧
      listing.value = .ok ((Value.list items place).relocate none) := by
  rw [Value.relocate, Value.relocateAll_eq_map]
  cases items with
  -- A list may be empty, and then nothing stands between its parentheses.
  | nil => exact ⟨none, .nil, rfl⟩
  | cons item items =>
    obtain ⟨list, cuts, values⟩ := exists_items writable
    refine ⟨some list, cuts, ?_⟩
    have same : (Listing.scalars (some list)).mapM (·.literal.value) =
        .ok ((item :: items).map (Value.relocate none)) := values
    rw [Listing.value, same]
    rfl

/-- An operator that compares with a scalar is cut off as one token. -/
theorem Comparator.cuts_symbol (comparator : Comparator) :
    Cuts comparator.symbol.toList [comparator.kind] := by
  cases comparator <;> exact .of_tokenize (by decide) (by decide)

/-- An operator that looks up in a list is cut off as one word or as two. -/
theorem Membership.cuts_symbol (membership : Membership) :
    Cuts membership.symbol.toList (membership.tokens.map (·.kind)) := by
  -- Each operator is one closed text; the second has white space inside of it.
  cases membership with
  | isIn word =>
    have cuts : Cuts "IN".toList [.inWord] := .of_tokenize (by decide) (by decide)
    exact cuts
  | notIn negation word =>
    have cuts : Cuts "NOT IN".toList [.notWord, .inWord] := .of_tokenize (by decide) (by decide)
    exact cuts

/-- A connective is cut off as one word. -/
theorem Connective.cuts_name (connective : Connective) :
    Cuts connective.name.toList [connective.word] := by
  cases connective <;> exact .of_tokenize (by decide) (by decide)

/-- The seven operators that compare with a scalar are all that there are. -/
theorem exists_comparator {operator : String}
    (compares : operator ∈ ["=", "!=", ">", ">=", "<", "<=", "CONTAINS"]) :
    ∃ comparator : Comparator, comparator.symbol = operator := by
  -- The names of the operators are the symbols of the comparators, listed in the same order.
  have all : ["=", "!=", ">", ">=", "<", "<=", "CONTAINS"] =
      [Comparator.equal, .notEqual, .greater, .greaterEqual, .less, .lessEqual, .contains].map
        Comparator.symbol := rfl
  rw [all] at compares
  obtain ⟨comparator, -, symbol⟩ := List.mem_map.mp compares
  exact ⟨comparator, symbol⟩

/-- The two operators that look up in a list are all that there are. -/
theorem exists_membership {operator : String} (lists : operator ∈ ["IN", "NOT IN"]) :
    ∃ membership : Membership, membership.symbol = operator := by
  -- As for comparators: the two names are the symbols of the two operators.
  have all : ["IN", "NOT IN"] =
      [Membership.isIn (.empty 0), .notIn (.empty 0) (.empty 0)].map Membership.symbol := rfl
  rw [all] at lists
  obtain ⟨membership, -, symbol⟩ := List.mem_map.mp lists
  exact ⟨membership, symbol⟩

/-- A query is written as a text: the text is cut into the query's tokens, and means the AST. -/
structure Phrase.Writes (query : Query) (text : String) (groups : Nat) (node : Node) : Prop where
  cuts : Cuts text.toList (query.tokens.map (·.kind))
  nesting : query.nesting = groups
  ast : ∀ language expand, query.ast language expand = .ok node

/-- A comparison with a scalar can be written. -/
theorem exists_writes_compare {name operator : String} {value : Value} (named : IsName name)
    (compares : operator ∈ ["=", "!=", ">", ">=", "<", "<=", "CONTAINS"])
    (writable : value.IsWritable) :
    ∃ query : Query, query.Writes (name ++ " " ++ operator ++ " " ++ value.print) 0
      (.comparison ⟨name, none⟩ operator (value.relocate none) none) := by
  -- The three words stand apart, so each is cut as if it stood alone.
  obtain ⟨comparator, rfl⟩ := exists_comparator compares
  obtain ⟨literal, cuts, reads⟩ := writable.exists_literal
  have field : Cuts name.toList [.identifier name] := .of_tokenize named (by simp)
  refine ⟨.single (.single (.plain
    (.compare name (.empty 0) comparator (.empty 0) ⟨literal, .empty 0⟩))), ?_, rfl, ?_⟩
  · simpa [Phrase.tokens, Scalar.token] using field.spaced (comparator.cuts_symbol.spaced cuts)
  · intro language expand
    simp only [Phrase.ast, reads]
    rfl

/-- A search in a list can be written. -/
theorem exists_writes_member {name operator : String} {items : List Value} (named : IsName name)
    (lists : operator ∈ ["IN", "NOT IN"]) (writable : ∀ item ∈ items, item.IsWritable)
    (place : Option Span) :
    ∃ query : Query, query.Writes
      (name ++ " " ++ operator ++ " " ++ (Value.list items place).print) 0
      (.comparison ⟨name, none⟩ operator ((Value.list items place).relocate none) none) := by
  -- The name, the operator and a list in parentheses, each cut by itself.
  obtain ⟨membership, rfl⟩ := exists_membership lists
  obtain ⟨listing, cuts, reads⟩ := exists_listing writable place
  have field : Cuts name.toList [.identifier name] := .of_tokenize named (by simp)
  refine ⟨.single (.single (.plain
    (.member name (.empty 0) membership (.empty 0) listing (.empty 0)))), ?_, rfl, ?_⟩
  · simpa [Phrase.tokens, Value.print] using
      field.spaced (membership.cuts_symbol.spaced (cuts.parenthesized .nil))
  · intro language expand
    simp only [Phrase.ast, reads]
    rfl

namespace Phrase.Writes

variable {text other : String} {groups more : Nat} {node partner : Node} {query second : Query}

/-- The negation of what can be written can be written. -/
theorem negation (writes : query.Writes text groups node) :
    ∃ outer : Query, outer.Writes ("NOT (" ++ text ++ ")") (groups + 1) (.negation node none) := by
  -- The operand is put in parentheses, which adds one level.
  have word : Cuts "NOT".toList [.notWord] := .of_tokenize (by decide) (by decide)
  refine ⟨.single (.single (.negated (.empty 0) (.plain (.group (.empty 0) query (.empty 0))))),
    ?_, ?_, ?_⟩
  · simpa [Phrase.tokens] using word.spaced (writes.cuts.parenthesized .nil)
  · simp only [Phrase.nesting, writes.nesting]
  · intro language expand
    simp only [Phrase.ast, writes.ast]
    rfl

/-- What can be written can be joined, each side in parentheses. -/
theorem joined (before : query.Writes text groups node) (behind : second.Writes other more partner)
    (connective : Connective) :
    ∃ outer : Query, outer.Writes
      ("(" ++ text ++ ") " ++ connective.name ++ " (" ++ other ++ ")") (max groups more + 1)
      (.logical connective node partner none) := by
  -- Both connectives are written alike, so the text is cut before they are told apart.
  have cuts := before.cuts.parenthesized
    (connective.cuts_name.spaced (behind.cuts.parenthesized .nil)).blank
  have deep : max (query.nesting + 1) (second.nesting + 1) = max groups more + 1 := by
    rw [before.nesting, behind.nesting]
    omega
  -- A conjunction is one alternative; a disjunction has two, each of one operand.
  cases connective with
  | and =>
    refine ⟨.single (.join (.single (.plain (.group (.empty 0) query (.empty 0)))) (.empty 0)
      (.plain (.group (.empty 0) second (.empty 0)))), ?_, deep, ?_⟩
    · simpa [Phrase.tokens] using cuts
    · intro language expand
      simp only [Phrase.ast, before.ast, behind.ast]
      rfl
  | or =>
    refine ⟨.join (.single (.single (.plain (.group (.empty 0) query (.empty 0))))) (.empty 0)
      (.single (.plain (.group (.empty 0) second (.empty 0)))), ?_, deep, ?_⟩
    · simpa [Phrase.tokens] using cuts
    · intro language expand
      simp only [Phrase.ast, before.ast, behind.ast]
      rfl

/-- A query is derived by each text that it is written as, and means the AST that was written. -/
theorem exists_derives (writes : query.Writes text groups node) (shallow : groups ≤ maxNesting) :
    ∃ read : Query, read.Derives text ∧ ∀ language expand, read.ast language expand = .ok node := by
  -- The query was made without places; the tokens of the text say where everything stands.
  obtain ⟨read, tokens, nesting, agree⟩ := query.exists_replaced writes.cuts.tokenize_kinds
  refine ⟨read, ⟨tokens, ?_⟩, fun language expand => ?_⟩
  · rw [nesting, writes.nesting]
    exact shallow
  · rw [agree, writes.ast]

end Phrase.Writes

/-- An expression that can be written is written by its printed form. -/
theorem Node.IsExpressible.exists_writes {node : Node} (expressible : node.IsExpressible) :
    ∃ query : Query, query.Writes node.print node.groups node.eraseSpans := by
  -- Induction on the expression: a comparison is written out, and all else in parentheses.
  induction expressible with
  | compare span named compares writable => exact exists_writes_compare named compares writable
  | member place span named lists writable =>
    exact exists_writes_member named lists writable place
  | logical connective span before behind ihBefore ihBehind =>
    obtain ⟨left, writesLeft⟩ := ihBefore
    obtain ⟨right, writesRight⟩ := ihBehind
    exact writesLeft.joined writesRight connective
  | negation span inside ih =>
    obtain ⟨query, writes⟩ := ih
    exact writes.negation

/--
Every expression that a query can write is read back from its printed form, places aside.

The form opens a group for every operand, so only the depth of the expression has a bound.
-/
theorem buildEnvelope_print {node : Node} (expressible : node.IsExpressible)
    (shallow : node.groups ≤ maxNesting) {language : Language}
    (distinct : (language.aliases.map (·.name)).Nodup) (limit : Nat) :
    ∃ envelope, buildEnvelope .standard language limit (parse node.print) node.print =
        .ok envelope ∧
      envelope.root.eraseSpans = node.eraseSpans := by
  obtain ⟨query, writes⟩ := expressible.exists_writes
  obtain ⟨read, derives, means⟩ := writes.exists_derives shallow
  -- No alias is called in the printed form, so the AST depends on no declaration.
  have ast : textAst language limit language.aliases.length [] node.print =
      .ok node.eraseSpans := by
    rw [textAst_of_derives derives, means]
  obtain ⟨root, built, erased⟩ := buildRoot_of_textAst distinct (fault_of_derives derives) ast
  obtain ⟨envelope, made, rfl⟩ := exists_buildEnvelope built
  exact ⟨envelope, made, erased⟩

/-- The double minus two and a half. -/
def minusTwoAndHalf : Binary64 :=
  ⟨true, 5629499534213120, -51, by decide⟩

/-- A number can be written with more digits than it needs. -/
theorem isWritable_minusTwoAndHalf : (Value.number minusTwoAndHalf "-2.50" none).IsWritable := by
  -- The numeral is read and rounded by computation, in two steps that stay small.
  have decimal : readDecimal? true "2.50".toList = some ⟨true, 25, -1⟩ := by decide
  have double : Binary64.ofDecimal? ⟨true, 25, -1⟩ = some minusTwoAndHalf := by decide +kernel
  have reads : readMagnitude true "2.50".toList = .ok (.finite minusTwoAndHalf) := by
    rw [readMagnitude, decimal]
    simp only [double]
  exact .number none (by decide) reads

/-- An expression with both connectives, a text that has to be escaped, and an empty list. -/
def nestedNode : Node :=
  .logical .or
    (.negation
      (.comparison ⟨"title", some ⟨3, 8⟩⟩ "CONTAINS" (.string "a \"b\" \\" none) none) none)
    (.logical .and
      (.comparison ⟨"level", none⟩ "NOT IN"
        (.list [.number minusTwoAndHalf "-2.50" none, .boolean true none] none) none)
      (.comparison ⟨"tag", none⟩ "IN" (.list [] none) none) (some ⟨0, 9⟩))
    none

/-- Every part of the nested expression can be written. -/
theorem isExpressible_nestedNode : nestedNode.IsExpressible := by
  -- Each name is cut as an identifier, and each operator is one of those listed.
  have items : ∀ item ∈ [.number minusTwoAndHalf "-2.50" none, .boolean true none],
      Value.IsWritable item := by
    simpa using ⟨isWritable_minusTwoAndHalf, .boolean true none⟩
  refine .logical .or none (.negation none (.compare none ?title (by decide) (.string _ none)))
    (.logical .and _ (.member none none ?level (by decide) items)
      (.member none none ?tag (by decide) (by simp)))
  all_goals decide

/-- The nested expression is read back from its printed form. -/
theorem nestedNode_read_back :
    nestedNode.IsExpressible ∧ nestedNode.groups ≤ maxNesting ∧
    (paddedLanguage.aliases.map (·.name)).Nodup ∧
    ∃ envelope, buildEnvelope .standard paddedLanguage 2 (parse nestedNode.print)
      nestedNode.print = .ok envelope ∧ envelope.root.eraseSpans = nestedNode.eraseSpans :=
  ⟨isExpressible_nestedNode, by decide, by decide,
    buildEnvelope_print isExpressible_nestedNode (by decide) (by decide) 2⟩

end FilterLang
