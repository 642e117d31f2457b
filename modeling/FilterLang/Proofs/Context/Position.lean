import FilterLang.Context
import FilterLang.Proofs.Grammar.Fragment

/-! Where in the grammar a half-typed query stands. -/

namespace FilterLang

/-- A place in the grammar, with what was typed last before it. -/
inductive Position where
  /-- At the beginning, or behind AND, OR or the parenthesis of a group. -/
  | clause
  /-- Behind NOT in front of an operand. -/
  | negation
  /-- Behind the name that begins a clause, or an operand of NOT. -/
  | field (name : String) (negated : Bool)
  /-- Behind a comparison operator. -/
  | comparator (field : String)
  /-- Behind IN or NOT IN. -/
  | membership (field : String)
  /-- Behind the opening parenthesis of a list. -/
  | listOpening (field : String)
  /-- Behind a comma of a list. -/
  | listComma (field : String)
  /-- Behind a value in a list. -/
  | listValue (field : String)
  /-- Behind the opening parenthesis of a call. -/
  | callOpening
  /-- Behind the value of a comparison, or the closing parenthesis of a list, call or group. -/
  | boundary
deriving DecidableEq, Repr

namespace Position

/-- Where an operand begins, which may stand behind a negation. -/
def start : Bool → Position
  | false => clause
  | true => negation

/-- Where a token leads from the end of a clause, with the number of groups that are open there. -/
def afterClause (groups : Nat) : TokenKind → Option (Nat × Position)
  | .andWord => some (groups, clause)
  | .orWord => some (groups, clause)
  | .closeParen =>
    -- A parenthesis closes the innermost group, if there is one.
    match groups with
    | 0 => none
    | groups + 1 => some (groups, boundary)
  | _ => none

/-- Where a token leads from the beginning of an operand. -/
def afterStart (negated : Bool) (groups : Nat) : TokenKind → Option (Nat × Position)
  | .notWord => some (groups, negation)
  | .openParen => some (groups + 1, clause)
  | .identifier name => some (groups, field name negated)
  | _ => none

/-- Where a token leads from a place, with the number of groups that are open there. -/
def step (groups : Nat) : Position → TokenKind → Option (Nat × Position)
  | clause, kind => afterStart false groups kind
  | negation, kind => afterStart true groups kind
  | field _ _, .openParen => some (groups, callOpening)
  | field name _, .inWord => some (groups, membership name)
  | field name _, kind =>
    -- Without an operator behind it the name is a clause of its own.
    if kind.comparisonSymbol?.isSome then some (groups, comparator name)
    else afterClause groups kind
  | comparator _, kind => if (literalKind? kind).isSome then some (groups, boundary) else none
  | membership name, .openParen => some (groups, listOpening name)
  | listOpening _, .closeParen => some (groups, boundary)
  | listOpening name, kind =>
    if (literalKind? kind).isSome then some (groups, listValue name) else none
  | listComma name, kind =>
    if (literalKind? kind).isSome then some (groups, listValue name) else none
  | listValue name, .comma => some (groups, listComma name)
  | listValue _, .closeParen => some (groups, boundary)
  | callOpening, .closeParen => some (groups, boundary)
  | boundary, kind => afterClause groups kind
  | _, _ => none

end Position

/-- The place that tokens lead to from another one, if they go together in a query. -/
def positionAfter : Nat → Position → List Token → Option Position
  | _, position, [] => some position
  -- Behind a name the two words NOT IN are one operator.
  | groups, .field name _, ⟨.notWord, _⟩ :: ⟨.inWord, _⟩ :: rest =>
    positionAfter groups (.membership name) rest
  | groups, position, token :: rest =>
    match position.step groups token.kind with
    | none => none
    | some (groups, position) => positionAfter groups position rest

/-- The context that is offered at a place, behind white space or right behind the last token. -/
def Position.context (language : Language) (spaced : Bool) : Position → Context
  | clause => .clauseStart
  | negation => .afterNot
  | field name negated =>
    if (language.field? name).isSome then .afterField name
    -- A name that is not declared may not be finished yet, unless white space follows it.
    else if spaced then .fallback
    else if negated then .partialAfterNot name
    else .partialClauseStart name
  | comparator name => .afterCompareOperator (some name)
  | membership name => .afterInOperator (some name)
  | listOpening name => .inListValueStart (some name)
  | listComma name => .inListValueStart (some name)
  | listValue _ => .fallback
  | callOpening => .fallback
  | boundary => .clauseBoundary

namespace Phrase

/-- The place behind a phrase that a negation may stand before. -/
def position (behindNot : Bool) : {category : Category} → Phrase category → Position
  | _, bare name _ => .field name behindNot
  | _, plain operand => operand.position behindNot
  | _, negated _ operand => operand.position true
  | _, single operand => operand.position behindNot
  | _, join _ _ right => right.position false
  | _, compare .. => .boundary
  | _, member .. => .boundary
  | _, call .. => .boundary
  | _, group .. => .boundary

end Phrase

namespace OpenItems

/-- The place behind the items of a list that is still open. -/
def position (field : String) (before : Position) : OpenItems → Position
  | none => before
  | last _ => .listValue field
  | more _ _ rest => rest.position field (.listComma field)

end OpenItems

namespace Fragment

/-- The place where a fragment that a negation may stand before breaks off. -/
def position (behindNot : Bool) : {category : Category} → Fragment category → Position
  | _, nothing => .start behindNot
  | _, whole phrase => phrase.position behindNot
  | _, compare name .. => .comparator name
  | _, member name .. => .membership name
  | _, list name _ _ _ items => items.position name (.listOpening name)
  | _, call .. => .callOpening
  | _, group _ inside => inside.position false
  | _, tooDeep _ => .clause
  | _, plain operand => operand.position behindNot
  | _, negated _ operand => operand.position true
  | _, single operand => operand.position behindNot
  | _, join _ _ right => right.position false

end Fragment

section Reading

/-- A token that leads on by itself does so in front of any others. -/
theorem positionAfter_cons {groups after : Nat} {position : Position} (next : Position)
    {token : Token} (leads : position.step groups token.kind = some (after, next))
    (rest : List Token) :
    positionAfter groups position (token :: rest) = positionAfter after next rest := by
  rw [positionAfter.eq_def groups position]
  split
  · rename_i empty
    cases empty
  · -- Behind a name NOT leads nowhere by itself.
    rename_i same
    cases same
    cases leads
  · rename_i same
    cases same
    rw [leads]

/-- A literal is the value of a comparison. -/
theorem positionAfter_value (groups : Nat) (name : String) (value : Scalar) (rest : List Token) :
    positionAfter groups (.comparator name) (value.token :: rest)
      = positionAfter groups .boundary rest :=
  positionAfter_cons _ (by simp [Position.step, Scalar.token]) rest

/-- A literal is an item of a list, at its beginning and behind a comma. -/
theorem positionAfter_item {before : Position} {name : String}
    (ready : before = .listOpening name ∨ before = .listComma name) (groups : Nat)
    (value : Scalar) (rest : List Token) :
    positionAfter groups before (value.token :: rest)
      = positionAfter groups (.listValue name) rest := by
  -- A literal of any kind ends the wait for an item.
  apply positionAfter_cons
  rcases ready with rfl | rfl
  · obtain ⟨literal, span⟩ := value
    cases literal with
    | boolean value => cases value <;> rfl
    | _ => rfl
  · simp [Position.step, Scalar.token]

/-- Behind the items of a list comes the place behind its last value. -/
theorem positionAfter_items {before : Position} {name : String}
    (ready : before = .listOpening name ∨ before = .listComma name) (groups : Nat)
    (items : Items) (rest : List Token) :
    positionAfter groups before (items.tokens ++ rest)
      = positionAfter groups (.listValue name) rest := by
  -- Induction on the items; a comma waits for the next one.
  induction items generalizing before with
  | last value => exact positionAfter_item ready groups value rest
  | more value comma items ih =>
    simp only [Items.tokens, List.cons_append]
    rw [positionAfter_item ready, positionAfter_cons (.listComma name) (by rfl),
      ih (.inr rfl)]

/-- Behind the items of an open list comes the place where they break off. -/
theorem positionAfter_openItems {before : Position} {name : String}
    (ready : before = .listOpening name ∨ before = .listComma name) (groups : Nat)
    (items : OpenItems) :
    positionAfter groups before items.tokens = some (items.position name before) := by
  -- Induction on the items, of which the last may still be missing.
  induction items generalizing before with
  | none => rw [OpenItems.tokens, positionAfter, OpenItems.position]
  | last value =>
    rw [OpenItems.tokens, positionAfter_item ready, positionAfter, OpenItems.position]
  | more value comma items ih =>
    rw [OpenItems.tokens, positionAfter_item ready,
      positionAfter_cons (.listComma name) (by rfl), ih (.inr rfl)]
    rfl

/-- A membership operator leads from a name to its list. -/
theorem positionAfter_membership (groups : Nat) (name : String) (negated : Bool)
    (operator : Membership) (rest : List Token) :
    positionAfter groups (.field name negated) (operator.tokens ++ rest)
      = positionAfter groups (.membership name) rest := by
  -- Both words of NOT IN are passed, and the field is still the same.
  cases operator with
  | isIn word => exact positionAfter_cons _ rfl rest
  | notIn negation word => simp [Membership.tokens, positionAfter]

/-- A comparison operator leads from a name to its value. -/
theorem positionAfter_comparator (groups : Nat) (name : String) (negated : Bool)
    (comparator : Comparator) (span : Span) (rest : List Token) :
    positionAfter groups (.field name negated) (⟨comparator.kind, span⟩ :: rest)
      = positionAfter groups (.comparator name) rest :=
  positionAfter_cons _ (by cases comparator <;> rfl) rest

/-- A name leads to the place behind it. -/
theorem positionAfter_name (groups : Nat) (behindNot : Bool) (name : String) (span : Span)
    (rest : List Token) :
    positionAfter groups (.start behindNot) (⟨.identifier name, span⟩ :: rest)
      = positionAfter groups (.field name behindNot) rest :=
  positionAfter_cons _ (by cases behindNot <;> rfl) rest

/-- An opening parenthesis opens a group. -/
theorem positionAfter_group (groups : Nat) (behindNot : Bool) (span : Span) (rest : List Token) :
    positionAfter groups (.start behindNot) (⟨.openParen, span⟩ :: rest)
      = positionAfter (groups + 1) .clause rest :=
  positionAfter_cons _ (by cases behindNot <;> rfl) rest

/-- A negation leads to its operand. -/
theorem positionAfter_not (groups : Nat) (behindNot : Bool) (span : Span) (rest : List Token) :
    positionAfter groups (.start behindNot) (⟨.notWord, span⟩ :: rest)
      = positionAfter groups .negation rest :=
  positionAfter_cons _ (by cases behindNot <;> rfl) rest

/-- Behind a phrase a token leads where it leads from the end of a clause. -/
theorem step_phrase {category : Category} (phrase : Phrase category) (behindNot : Bool)
    (groups : Nat) {kind : TokenKind} (ends : (kind ∈ [.andWord, .orWord, .closeParen])) :
    (phrase.position behindNot).step groups kind = Position.afterClause groups kind := by
  -- Induction on the derivation: wherever a phrase ends, a
  -- connective or a parenthesis goes on as after a clause.
  induction phrase generalizing behindNot with
  | bare name span =>
    simp only [List.mem_cons, List.not_mem_nil, or_false] at ends
    rcases ends with rfl | rfl | rfl <;> rfl
  | plain operand ih => exact ih behindNot
  | negated word operand ih => exact ih true
  | single operand ih => exact ih behindNot
  | join left word right _ ih => exact ih false
  | _ => rfl

/-- Behind a phrase a connective leads to the next clause. -/
theorem positionAfter_word {category : Category} (phrase : Phrase category) (behindNot : Bool)
    (groups : Nat) (connective : Connective) (span : Span) (rest : List Token) :
    positionAfter groups (phrase.position behindNot) (⟨connective.word, span⟩ :: rest)
      = positionAfter groups .clause rest := by
  -- Both connectives open the next clause.
  apply positionAfter_cons
  rw [step_phrase phrase behindNot groups (by cases connective <;> simp [Connective.word])]
  cases connective <;> rfl

/-- The tokens of a phrase lead to the place behind it, whatever follows. -/
theorem positionAfter_phrase {category : Category} (phrase : Phrase category) (behindNot : Bool)
    (groups : Nat) (rest : List Token) :
    positionAfter groups (.start behindNot) (phrase.tokens ++ rest)
      = positionAfter groups (phrase.position behindNot) rest := by
  -- Induction on the derivation, with the tokens that follow left open. A group counts one more
  -- until its parenthesis closes.
  induction phrase generalizing behindNot groups rest with
  | bare name span => exact positionAfter_name groups behindNot name span rest
  | compare name span comparator operator value =>
    simp only [Phrase.tokens, List.cons_append, List.nil_append]
    rw [positionAfter_name, positionAfter_comparator, positionAfter_value]
    rfl
  | member name span operator opening listing close =>
    simp only [Phrase.tokens, List.cons_append, List.append_assoc, List.nil_append]
    rw [positionAfter_name, positionAfter_membership,
      positionAfter_cons (.listOpening name) (by rfl)]
    cases listing with
    | none => exact positionAfter_cons _ rfl rest
    | some items =>
      show positionAfter groups (.listOpening name)
        (items.tokens ++ ⟨.closeParen, close⟩ :: rest) = _
      rw [positionAfter_items (.inl rfl)]
      exact positionAfter_cons _ rfl rest
  | call name span opening close =>
    simp only [Phrase.tokens, List.cons_append, List.nil_append]
    rw [positionAfter_name, positionAfter_cons .callOpening (by rfl)]
    exact positionAfter_cons _ rfl rest
  | group opening inside close ih =>
    simp only [Phrase.tokens, List.cons_append, List.append_assoc, List.nil_append]
    rw [positionAfter_group]
    rw [show Position.clause = .start false from rfl, ih]
    exact positionAfter_cons _ (step_phrase inside false (groups + 1) (by simp)) rest
  | plain operand ih => exact ih behindNot groups rest
  | negated word operand ih =>
    rw [Phrase.tokens, List.cons_append, positionAfter_not]
    exact ih true groups rest
  | single operand ih => exact ih behindNot groups rest
  | @join connective left word right ihLeft ihRight =>
    rw [Phrase.tokens, List.append_assoc, List.cons_append, ihLeft, positionAfter_word]
    exact ihRight false groups rest

/-- The tokens of a fragment lead to the place where it breaks off. -/
theorem positionAfter_fragment {category : Category} (fragment : Fragment category)
    (behindNot : Bool) (groups : Nat) :
    positionAfter groups (.start behindNot) fragment.tokens
      = some (fragment.position behindNot) := by
  -- Induction on the fragment: whole phrases are passed as before, and the last part breaks off.
  induction fragment generalizing behindNot groups with
  | nothing => exact positionAfter.eq_1 _ _
  | whole phrase =>
    have read := positionAfter_phrase phrase behindNot groups []
    rw [List.append_nil, positionAfter] at read
    exact read
  | compare name span comparator operator =>
    rw [Fragment.tokens, positionAfter_name, positionAfter_comparator, positionAfter]
    rfl
  | member name span operator =>
    have read := positionAfter_membership groups name behindNot operator []
    rw [List.append_nil, positionAfter] at read
    rw [Fragment.tokens, positionAfter_name]
    exact read
  | list name span operator opening items =>
    rw [Fragment.tokens, positionAfter_name, positionAfter_membership,
      positionAfter_cons (.listOpening name) (by rfl), positionAfter_openItems (.inl rfl)]
    rfl
  | call name span opening =>
    rw [Fragment.tokens, positionAfter_name, positionAfter_cons .callOpening (by rfl),
      positionAfter]
    rfl
  | group opening inside ih =>
    rw [Fragment.tokens, positionAfter_group]
    exact ih false (groups + 1)
  | tooDeep opening =>
    rw [Fragment.tokens, positionAfter_group, positionAfter]
    rfl
  | plain operand ih => exact ih behindNot groups
  | negated word operand ih =>
    rw [Fragment.tokens, positionAfter_not]
    exact ih true groups
  | single operand ih => exact ih behindNot groups
  | @join connective left word right ih =>
    rw [Fragment.tokens, positionAfter_phrase, positionAfter_word]
    exact ih false groups

end Reading

end FilterLang
