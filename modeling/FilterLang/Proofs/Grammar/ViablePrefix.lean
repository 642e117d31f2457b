import FilterLang.Proofs.Grammar.Recognition
import FilterLang.Proofs.Grammar.WellFormed
import FilterLang.Proofs.Tree.FirstError

/-! Where the report on a faulty query points. -/

namespace FilterLang

/--
The first error of the trees read off some tokens is something missing behind the first of these.

The tokens in front of it are those that were taken without objection.
-/
def Halts (textEnd : Nat) (short : List Token → Prop) (trees : List Tree) (tokens : List Token) :
    Prop :=
  ∃ taken rest what, tokens = taken ++ rest ∧
    Tree.firstMark? trees = some (missing textEnd what rest) ∧ short taken

/-- Tokens that begin something a rule reads, and on which alone the rule leaves an error. -/
structure Short (language : List Token → Prop) (trees : List Token → List Tree)
    (taken : List Token) : Prop where
  begins : ∃ more, language (taken ++ more)
  broken : (trees taken).any Tree.hasError = true

/-- A rule whose first error is where the tokens before it have to go on differently. -/
def HaltsShort (textEnd : Nat) (language : List Token → Prop) (trees : List Token → List Tree) :
    Prop :=
  ∀ tokens, (trees tokens).any Tree.hasError = true →
    Halts textEnd (Short language trees) (trees tokens) tokens

/-- The token sequences that the phrases of a category derive, however many groups these open. -/
def Category.Spells (category : Category) (tokens : List Token) : Prop :=
  ∃ phrase : Phrase category, phrase.tokens = tokens

/-- A rule whose first error is where a phrase of the category has to go on differently. -/
abbrev Rule.StopsShort (textEnd : Nat) (rule : Rule) (category : Category) : Prop :=
  HaltsShort textEnd category.Spells fun tokens => [(rule tokens).1]

namespace Halts

variable {textEnd : Nat} {short long : List Token → Prop} {trees outer : List Tree}
  {tokens : List Token}

/-- What is missing in front of all tokens is missing behind none. -/
theorem here {what : String} (mark : Tree.firstMark? trees = some (missing textEnd what tokens))
    (none : short []) : Halts textEnd short trees tokens :=
  ⟨[], tokens, what, rfl, mark, none⟩

/-- What is missing behind some tokens is missing behind those in front of them as well. -/
theorem behind {whole : List Token} (front : List Token) (halts : Halts textEnd short trees tokens)
    (split : front ++ tokens = whole)
    (mark : Tree.firstMark? outer = Tree.firstMark? trees)
    (grows : ∀ taken, taken <+: tokens → short taken → long (front ++ taken)) :
    Halts textEnd long outer whole := by
  -- The tokens in front are passed, and the first mark is still the same.
  obtain ⟨taken, rest, what, rfl, first, ends⟩ := halts
  refine ⟨front ++ taken, rest, what, ?_, mark.trans first, ?_⟩
  · rw [List.append_assoc, split]
  · exact grows taken (List.prefix_append taken rest) ends

end Halts

section Rules

variable (textEnd : Nat)

/-- The items of a list are short of an item where the first one is missing. -/
theorem listItems_haltsShort : HaltsShort textEnd
    (fun tokens => ∃ items : Items, items.tokens = tokens)
    fun tokens => (listItems textEnd tokens).1 := by
  intro tokens broken
  dsimp only at broken ⊢
  -- No token was taken for an item that is missing, and any scalar could stand there.
  have absent (tokens : List Token) (trees : List Tree) :
      Halts textEnd (Short (fun tokens => ∃ items : Items, items.tokens = tokens)
        fun tokens => (listItems textEnd tokens).1)
        (missing textEnd "list item" tokens :: trees) tokens :=
    .here (firstMark?_missing ..)
      ⟨⟨_, .last ⟨.boolean true, .empty 0⟩, rfl⟩, by simp [listItems]⟩
  -- The induction follows the reader from comma to comma.
  fun_induction listItems textEnd tokens with
  | case1 => exact absent [] []
  | case2 token kind reads item comma rest trees after read ih =>
    obtain ⟨value, rfl, tree⟩ := exists_scalar reads
    have clean : item.hasError = false := by simp [item, ← tree, NodeKind.isError]
    have later : trees.any Tree.hasError = true := by
      simpa [clean, NodeKind.isError] using broken
    rw [read] at ih
    refine (ih later).behind [value.token, ⟨.comma, comma⟩] rfl ?_ ?_
    · rw [Tree.firstMark?_cons_of_clean clean, Tree.firstMark?_leaf rfl]
    · intro taken _ short
      obtain ⟨⟨more, items, spelled⟩, broken⟩ := short
      refine ⟨⟨more, .more value comma items, by simp [Items.tokens, spelled]⟩, ?_⟩
      simp [listItems, Scalar.token, broken]
  | case3 token kind reads item rest other =>
    obtain ⟨value, rfl, tree⟩ := exists_scalar reads
    simp [item, ← tree, NodeKind.isError] at broken
  | case4 => exact absent _ _
  | case5 => exact absent _ _

/-- A closing parenthesis that is missing is missing behind no token. -/
theorem closing_halts {tokens : List Token}
    (broken : (closing textEnd tokens).1.hasError = true) :
    Halts textEnd (· = []) [(closing textEnd tokens).1] tokens := by
  -- Only a gap is broken, and nothing has been read where it stands.
  fun_cases closing textEnd tokens with
  | case1 span rest => simp [closing, NodeKind.isError] at broken
  | case2 tokens other => exact .here (firstMark?_missing ..) rfl

/-- A value that is missing is missing behind no token. -/
theorem scalar_halts {tokens : List Token} (broken : (scalar textEnd tokens).1.hasError = true) :
    Halts textEnd (· = []) [(scalar textEnd tokens).1] tokens := by
  -- Only a gap is broken, and nothing has been read where it stands.
  revert broken
  fun_cases scalar textEnd tokens with
  | case1 => exact fun _ => .here (firstMark?_missing ..) rfl
  | case2 token rest kind reads =>
    obtain ⟨value, -, tree⟩ := exists_scalar reads
    simp [← tree]
  | case3 token rest other => exact fun _ => .here (firstMark?_missing ..) rfl

/-- The token sequences that fill and close a list whose parenthesis is open. -/
def ClosesList (tokens : List Token) : Prop :=
  ∃ (listing : Listing) (close : Span), listing.tokens ++ [⟨.closeParen, close⟩] = tokens

/-- A list is short of an item or of its closing parenthesis. -/
theorem listLiteral_haltsShort (opening : Span) : HaltsShort textEnd ClosesList
    fun tokens => [(listLiteral textEnd opening tokens).1] := by
  intro tokens broken
  dsimp only at broken ⊢
  -- A list that is closed at once has nothing missing.
  have filled : ∀ span rest, tokens ≠ ⟨.closeParen, span⟩ :: rest := by
    intro span rest same
    simp [same, listLiteral, closing, NodeKind.isError] at broken
  rw [listLiteral_eq textEnd opening filled] at broken ⊢
  cases marked : (listItems textEnd tokens).1.any Tree.hasError with
  | true =>
    refine (listItems_haltsShort textEnd tokens marked).behind [] rfl ?_ ?_
    · rw [firstMark?_inner rfl, List.cons_append, Tree.firstMark?_leaf rfl,
        Tree.firstMark?_of_broken marked]
    · intro taken front short
      obtain ⟨⟨more, items, spelled⟩, marked⟩ := short
      -- What was taken of a list that is not closed at once is not closed at once either.
      have apart : ∀ span rest, taken ≠ ⟨.closeParen, span⟩ :: rest := by
        intro span rest same
        obtain ⟨after, whole⟩ := front
        exact filled span (rest ++ after) (by simp [← whole, same])
      refine ⟨⟨more ++ [⟨.closeParen, .empty 0⟩], some items, .empty 0, ?_⟩, ?_⟩
      · simp [Listing.tokens, spelled]
      · simp [listLiteral_eq textEnd opening apart, marked]
  | false =>
    -- The items are all there, and only the parenthesis is missing behind them.
    obtain ⟨items, consumed, trees⟩ := listItems_sound marked
    have unclosed : (closing textEnd (listItems textEnd tokens).2).1.hasError = true := by
      simpa [marked, NodeKind.isError] using broken
    refine (closing_halts textEnd unclosed).behind items.tokens consumed.symm ?_ ?_
    · rw [firstMark?_inner rfl, List.cons_append, Tree.firstMark?_leaf rfl,
        Tree.firstMark?_of_clean marked]
    · intro taken _ none
      obtain rfl : taken = [] := none
      rw [List.append_nil]
      refine ⟨⟨_, some items, .empty 0, rfl⟩, ?_⟩
      have apart : ∀ span rest, items.tokens ≠ ⟨.closeParen, span⟩ :: rest := by
        intro span rest same
        exact filled span _ (by rw [consumed, same]; rfl)
      have read := listItems_before textEnd items [] (by simp)
      rw [List.append_nil] at read
      simp [listLiteral_eq textEnd opening apart, read, closing]

/-- The list behind a membership operator is short of its parentheses or of an item. -/
theorem membership_haltsShort : HaltsShort textEnd
    (fun tokens => ∃ opening rest, ClosesList rest ∧ ⟨.openParen, opening⟩ :: rest = tokens)
    fun tokens => [(membership textEnd tokens).1] := by
  -- Behind the parenthesis the list decides.
  intro tokens broken
  dsimp only at broken ⊢
  revert broken
  fun_cases membership textEnd tokens with
  | case1 opening rest =>
    intro broken
    refine (listLiteral_haltsShort textEnd opening rest broken).behind
      [⟨.openParen, opening⟩] rfl rfl ?_
    intro taken _ short
    obtain ⟨⟨more, closes⟩, broken⟩ := short
    exact ⟨⟨more, opening, taken ++ more, closes, rfl⟩, broken⟩
  | case2 tokens other =>
    intro _
    -- Without a parenthesis nothing has been read, and an empty list would go on from here.
    refine .here (firstMark?_missing ..) ⟨⟨_, .empty 0, _, ⟨none, .empty 0, rfl⟩, rfl⟩, ?_⟩
    simp [membership]

/-- The name of a field has no error. -/
theorem fieldTree_clean (span : Span) (trees : List Tree) :
    Tree.firstMark? (fieldTree span :: trees) = Tree.firstMark? trees :=
  Tree.firstMark?_cons_of_clean (by simp [fieldTree, NodeKind.isError]) trees

/-- A membership test is short of what its list is short of. -/
theorem member_halts (name : String) (span : Span) (operator : Membership) {rest : List Token}
    (broken : (membership textEnd rest).1.hasError = true) :
    Halts textEnd
      (Short (fun tokens => Category.primary.Spells (⟨.identifier name, span⟩ :: tokens))
        fun tokens => [(comparison textEnd span tokens).1])
      [inner .comparison [fieldTree span, .leaf .inOperator operator.span,
        (membership textEnd rest).1]] (operator.tokens ++ rest) := by
  -- Whatever closes the list completes the comparison.
  refine (membership_haltsShort textEnd rest (by simpa using broken)).behind operator.tokens rfl
    ?_ ?_
  · rw [firstMark?_inner rfl, fieldTree_clean, Tree.firstMark?_leaf rfl]
  · intro taken _ short
    obtain ⟨⟨more, opening, after, ⟨listing, close, closes⟩, opens⟩, broken⟩ := short
    refine ⟨⟨more, .member name span operator opening listing close, ?_⟩, ?_⟩
    · simp [Phrase.tokens, ← opens, ← closes]
    · cases operator <;>
        simpa [comparison, comparisonTail, Membership.tokens, NodeKind.isError] using broken

/-- A comparison is short of its value or of what its list is short of. -/
theorem comparison_haltsShort (name : String) (span : Span) : HaltsShort textEnd
    (fun tokens => Category.primary.Spells (⟨.identifier name, span⟩ :: tokens))
    fun tokens => [(comparison textEnd span tokens).1] := by
  intro tokens broken
  have marked : (comparisonTail textEnd tokens).1.any Tree.hasError = true := by
    simpa [comparison, NodeKind.isError] using broken
  clear broken
  show Halts _ _ [inner .comparison (fieldTree span :: (comparisonTail textEnd tokens).1)] tokens
  revert marked
  -- One case for each form of what follows the name.
  fun_cases comparisonTail textEnd tokens with
  | case1 word rest list after read =>
    intro marked
    have halts := @member_halts textEnd name span (.isIn word) rest
    rw [read] at halts
    exact halts (by simpa [NodeKind.isError] using marked)
  | case2 negation word rest list after read =>
    intro marked
    have halts := @member_halts textEnd name span (.notIn negation word) rest
    rw [read] at halts
    exact halts (by simpa [NodeKind.isError] using marked)
  | case3 => simp
  | case4 token rest _ _ compares value after read =>
    intro marked
    obtain ⟨comparator, same⟩ := Comparator.exists_of_symbol compares
    have halts := @scalar_halts textEnd rest
    rw [read] at halts
    refine (halts (by simpa [NodeKind.isError] using marked)).behind [token] rfl ?_ ?_
    · rw [firstMark?_inner rfl, fieldTree_clean, Tree.firstMark?_leaf rfl]
    · intro taken _ none
      obtain rfl : taken = [] := none
      obtain ⟨kind, operator⟩ := token
      obtain rfl : comparator.kind = kind := same
      refine ⟨⟨_, .compare name span comparator operator ⟨.boolean true, .empty 0⟩, rfl⟩, ?_⟩
      cases comparator <;>
        simp [comparison, comparisonTail, Comparator.kind, TokenKind.comparisonSymbol?, scalar]
  | case5 => simp

/-- A group is short of its inside or of its closing parenthesis. -/
theorem group_haltsShort {levels : Nat} (opening : Span)
    (inside : ∀ below, levels = below + 1 →
      Rule.StopsShort textEnd (orExpression textEnd (insideAt textEnd below)) (.chain .or)) :
    HaltsShort textEnd (fun tokens => Category.primary.Spells (⟨.openParen, opening⟩ :: tokens))
      fun tokens => [(group textEnd (insideAt textEnd levels) opening tokens).1] := by
  intro tokens broken
  dsimp only at broken ⊢
  cases levels with
  | zero =>
    -- On the last level nothing is read behind the parenthesis, though a phrase could stand there.
    have body : Query := @Phrase.single .or (@Phrase.single .and (.plain (.bare "a" (.empty 0))))
    have mark : Tree.firstMark? [(group textEnd none opening tokens).1] =
        some (missing textEnd "shallower nesting" tokens) := by
      rw [group, firstMark?_inner rfl, Tree.firstMark?_leaf rfl, firstMark?_missing]
    refine .here mark ⟨⟨_, .group opening body (.empty 0), rfl⟩, ?_⟩
    simp [insideAt, group]
  | succ below =>
    rw [group_succ] at broken ⊢
    dsimp only at broken ⊢
    cases marked : (orExpression textEnd (insideAt textEnd below) tokens).1.hasError with
    | true =>
      refine (inside below rfl tokens (by simpa using marked)).behind [] rfl ?_ ?_
      · rw [firstMark?_inner rfl, Tree.firstMark?_leaf rfl,
          Tree.firstMark?_cons_of_broken (by simp [marked]), firstMark?_inner rfl]
      · intro taken _ short
        obtain ⟨⟨more, phrase, spelled⟩, broken⟩ := short
        refine ⟨⟨more ++ [⟨.closeParen, .empty 0⟩], .group opening phrase (.empty 0), ?_⟩, ?_⟩
        · simp [Phrase.tokens, spelled]
        · simp only [List.any_cons, List.any_nil, Bool.or_false] at broken
          simp [group_succ, broken]
    | false =>
      -- The inside is a whole phrase, and only the parenthesis is missing behind it.
      obtain ⟨phrase, shallow, consumed, -⟩ :=
        (orExpression_recognizes textEnd below).sound tokens marked
      have unclosed : (closing textEnd
          (orExpression textEnd (insideAt textEnd below) tokens).2).1.hasError = true := by
        simpa [marked, NodeKind.isError] using broken
      refine (closing_halts textEnd unclosed).behind phrase.tokens consumed ?_ ?_
      · rw [firstMark?_inner rfl, Tree.firstMark?_leaf rfl,
          Tree.firstMark?_cons_of_clean (by simp [marked, NodeKind.isError])]
      · intro taken _ none
        obtain rfl : taken = [] := none
        have read := (orExpression_recognizes textEnd below).complete phrase [] shallow trivial
        rw [List.append_nil] at read ⊢
        refine ⟨⟨[⟨.closeParen, .empty 0⟩], .group opening phrase (.empty 0), ?_⟩, ?_⟩
        · simp [Phrase.tokens]
        · simp [group_succ, read, closing]

/-- A primary expression is short of what its body is short of. -/
theorem primaryBody_stopsShort {levels : Nat}
    (inside : ∀ below, levels = below + 1 →
      Rule.StopsShort textEnd (orExpression textEnd (insideAt textEnd below)) (.chain .or)) :
    Rule.StopsShort textEnd (primaryBody textEnd (insideAt textEnd levels)) .primary := by
  intro tokens broken
  dsimp only at broken ⊢
  revert broken
  -- One case for each way in which the first two tokens decide what is read.
  fun_cases primaryBody textEnd (insideAt textEnd levels) tokens with
  | case1 opening rest =>
    intro broken
    refine (group_haltsShort textEnd opening inside rest broken).behind
      [⟨.openParen, opening⟩] rfl rfl ?_
    exact fun taken _ short => ⟨short.begins, short.broken⟩
  | case2 name span opening rest =>
    intro broken
    have unclosed : (closing textEnd rest).1.hasError = true := by
      simpa [aliasCall, NodeKind.isError] using broken
    refine (closing_halts textEnd unclosed).behind [⟨.identifier name, span⟩, ⟨.openParen, opening⟩]
      rfl ?_ ?_
    · simp only [aliasCall]
      rw [firstMark?_inner rfl, Tree.firstMark?_leaf rfl, Tree.firstMark?_leaf rfl]
    · intro taken _ none
      obtain rfl : taken = [] := none
      refine ⟨⟨_, .call name span opening (.empty 0), rfl⟩, ?_⟩
      simp [primaryBody, aliasCall, closing]
  | case3 name span rest apart =>
    intro broken
    refine (comparison_haltsShort textEnd name span rest broken).behind
      [⟨.identifier name, span⟩] rfl rfl ?_
    intro taken front short
    refine ⟨short.begins, ?_⟩
    -- No parenthesis follows the name in the part that was taken, since none does in the whole.
    have same : primaryBody textEnd (insideAt textEnd levels) (⟨.identifier name, span⟩ :: taken) =
        comparison textEnd span taken := by
      rw [primaryBody]
      intro opening more same
      obtain ⟨after, whole⟩ := front
      exact apart opening (more ++ after) (by simp [← whole, same])
    simpa [same] using short.broken
  | case4 tokens =>
    intro _
    refine .here (firstMark?_missing ..) ⟨⟨_, .bare "a" (.empty 0), rfl⟩, ?_⟩
    simp [primaryBody]

/-- The rule for primary expressions halts where its body does. -/
theorem primary_stopsShort {levels : Nat}
    (inside : ∀ below, levels = below + 1 →
      Rule.StopsShort textEnd (orExpression textEnd (insideAt textEnd below)) (.chain .or)) :
    Rule.StopsShort textEnd (primary textEnd (insideAt textEnd levels)) .primary := by
  -- The body is the only child, so it stops where the body stops.
  intro tokens broken
  have body := primaryBody_stopsShort textEnd inside tokens
    (by simpa [primary, NodeKind.isError] using broken)
  refine body.behind [] rfl ?_ ?_
  · simp only [primary]
    rw [firstMark?_inner rfl]
  · intro taken _ short
    exact ⟨short.begins, by simpa [primary, NodeKind.isError] using short.broken⟩

/-- Without a negation in front, a rule halts where its operand does. -/
theorem notExpression_halts_plain {inside : Option Rule}
    (operands : Rule.StopsShort textEnd (primary textEnd inside) .primary) {tokens : List Token}
    (apart : ∀ token ∈ tokens.head?, (token.kind == .notWord) = false)
    (broken : (notExpression textEnd inside tokens).1.hasError = true) :
    Halts textEnd (Short Category.negation.Spells
        fun tokens => [(notExpression textEnd inside tokens).1])
      [(notExpression textEnd inside tokens).1] tokens := by
  -- The operand is the only child, and what it has taken does not begin with a mark either.
  have operand : [(primary textEnd inside tokens).1].any Tree.hasError = true := by
    simpa [notExpression_plain textEnd inside apart, NodeKind.isError] using broken
  refine (operands tokens operand).behind [] rfl ?_ ?_
  · rw [notExpression_plain textEnd inside apart, firstMark?_inner rfl]
  · intro taken front short
    obtain ⟨⟨more, phrase, spelled⟩, broken⟩ := short
    have free : ∀ token ∈ taken.head?, (token.kind == .notWord) = false := by
      intro token first
      obtain ⟨after, rfl⟩ := front
      exact apart token (by simp [List.head?_append, Option.mem_def.mp first])
    refine ⟨⟨more, .plain phrase, spelled⟩, ?_⟩
    simpa [notExpression_plain textEnd inside free, NodeKind.isError] using broken

/-- Negations are short of what their operand is short of. -/
theorem notExpression_stopsShort {inside : Option Rule}
    (operands : Rule.StopsShort textEnd (primary textEnd inside) .primary) :
    Rule.StopsShort textEnd (notExpression textEnd inside) .negation := by
  intro tokens broken
  dsimp only at broken ⊢
  rw [List.any_cons, List.any_nil, Bool.or_false] at broken
  -- The induction takes one negation off the front at a time.
  induction tokens with
  | nil => exact notExpression_halts_plain textEnd operands (by simp) broken
  | cons token rest ih =>
    by_cases negation : token.kind = .notWord
    · obtain ⟨kind, word⟩ := token
      obtain rfl : kind = .notWord := negation
      have behind : ∀ tokens, (notExpression textEnd inside tokens).1 =
          inner .notExpression (notExpression textEnd inside tokens).1.children := by
        simp [notExpression]
      have negated : ∀ tokens,
          (notExpression textEnd inside (⟨.notWord, word⟩ :: tokens)).1.hasError
            = (notExpression textEnd inside tokens).1.hasError := by
        intro tokens
        rw [notExpression_negated, behind tokens]
        simp [NodeKind.isError]
      refine (ih (negated rest ▸ broken)).behind [⟨.notWord, word⟩] rfl ?_ ?_
      · rw [notExpression_negated, firstMark?_inner rfl, Tree.firstMark?_leaf rfl, behind rest,
          firstMark?_inner rfl, inner_children]
      · intro taken _ short
        obtain ⟨⟨more, phrase, spelled⟩, broken⟩ := short
        refine ⟨⟨more, .negated word phrase, by simp [Phrase.tokens, spelled]⟩, ?_⟩
        simpa [negated taken] using broken
    · exact notExpression_halts_plain textEnd operands (by simpa using negation) broken

/-- An operand ends before links with an error in them, since these begin with the connective. -/
theorem endsBefore_of_broken {connective : Connective} {operand : Rule} {rounds : Nat}
    {tokens : List Token} (broken : (chainTail connective.word connective.mark operand rounds
      tokens).1.any Tree.hasError = true) : connective.operand.EndsBefore tokens := by
  -- A tail without a connective has no error, so a connective is what follows.
  revert broken
  fun_cases chainTail connective.word connective.mark operand rounds tokens with
  | case1 => simp
  | case2 => simp
  | case3 rounds token rest same =>
    obtain ⟨kind, word⟩ := token
    obtain rfl : kind = connective.word := same
    exact fun _ => Category.EndsBefore.word connective word rest
  | case4 => simp

/--
Links are short of what their first faulty operand is short of.

The tokens taken go on after any chain, and the links in them are faulty however many rounds the
reader is given.
-/
theorem chainTail_halts {connective : Connective} {levels : Nat} {operand : Rule}
    (operands : Recognizes operand levels connective.operand)
    (halts : Rule.StopsShort textEnd operand connective.operand)
    (rounds : Nat) (tokens : List Token)
    (broken : (chainTail connective.word connective.mark operand rounds tokens).1.any
      Tree.hasError = true) :
    Halts textEnd (fun taken =>
        (∀ left : Phrase (.chain connective), ∃ more,
          (Category.chain connective).Spells (left.tokens ++ taken ++ more)) ∧
        ∀ rounds, taken.length ≤ rounds →
          (chainTail connective.word connective.mark operand rounds taken).1.any
            Tree.hasError = true)
      (chainTail connective.word connective.mark operand rounds tokens).1 tokens := by
  have plain : connective.mark.isError = false := by cases connective <;> rfl
  -- The induction follows the reader from operator to operator.
  fun_induction chainTail connective.word connective.mark operand rounds tokens with
  | case1 => simp at broken
  | case2 => simp at broken
  | case3 rounds token rest same next after read more remaining others ih =>
    have first : (operand rest).1 = next := by rw [read]
    cases marked : next.hasError with
    | true =>
      refine (halts rest (by simpa [first] using marked)).behind [token] rfl ?_ ?_
      · rw [Tree.firstMark?_leaf plain, Tree.firstMark?_cons_of_broken marked, ← first]
      · intro taken _ short
        obtain ⟨⟨behind, phrase, spelled⟩, broken⟩ := short
        refine ⟨fun left => ⟨behind, .join left token.span phrase, ?_⟩, ?_⟩
        · simp [Phrase.tokens, spelled, ← same]
        · -- One round is enough to read the operand that is short.
          intro rounds enough
          cases rounds with
          | zero => simp at enough
          | succ rounds =>
            have faulty : (operand taken).1.hasError = true := by simpa using broken
            simp [chainTail, same, faulty]
    | false =>
      -- The operand is whole, so the fault is in the links behind it.
      obtain ⟨phrase, shallow, consumed, -⟩ := operands.sound rest (by rw [read]; exact marked)
      rw [read] at consumed
      rw [others] at ih
      have later : more.any Tree.hasError = true := by simpa [plain, marked] using broken
      refine (ih later).behind (token :: phrase.tokens) (by simp [consumed]) ?_ ?_
      · rw [Tree.firstMark?_leaf plain, Tree.firstMark?_cons_of_clean marked]
      · intro taken _ short
        obtain ⟨begins, broken⟩ := short
        refine ⟨fun left => ?_, ?_⟩
        · obtain ⟨behind, whole, spelled⟩ := begins (left.join token.span phrase)
          refine ⟨behind, whole, ?_⟩
          simp [spelled, Phrase.tokens, ← same]
        · intro rounds enough
          -- The operand is read as before, up to the connective of the next link.
          have again := operands.complete phrase taken shallow
            (endsBefore_of_broken (broken _ (Nat.le_refl _)))
          cases rounds with
          | zero => simp at enough
          | succ rounds =>
            have fewer : taken.length ≤ rounds := by
              simp only [List.length_cons, List.length_append] at enough
              omega
            simp [chainTail, same, again, broken rounds fewer]
  | case4 => simp at broken

/-- A chain is short of what its first faulty operand is short of. -/
theorem chain_stopsShort {connective : Connective} {levels : Nat} {operand : Rule}
    (operands : Recognizes operand levels connective.operand)
    (halts : Rule.StopsShort textEnd operand connective.operand) :
    Rule.StopsShort textEnd
      (chain (Category.chain connective).nodeKind connective.word connective.mark operand)
      (.chain connective) := by
  intro tokens broken
  simp only [chain] at broken ⊢
  have plain := (Category.chain connective).isError_nodeKind
  cases marked : (operand tokens).1.hasError with
  | true =>
    refine (halts tokens (by simpa using marked)).behind [] rfl ?_ ?_
    · rw [firstMark?_inner plain, Tree.firstMark?_cons_of_broken marked]
    · intro taken _ short
      obtain ⟨⟨more, phrase, spelled⟩, broken⟩ := short
      refine ⟨⟨more, .single phrase, spelled⟩, ?_⟩
      have faulty : (operand taken).1.hasError = true := by simpa using broken
      simp [faulty]
  | false =>
    -- The first operand is whole, and the links take up where it ends.
    obtain ⟨phrase, shallow, consumed, -⟩ := operands.sound tokens marked
    have later : (chainTail connective.word connective.mark operand (operand tokens).2.length
        (operand tokens).2).1.any Tree.hasError = true := by
      simpa [plain, marked] using broken
    refine (chainTail_halts textEnd operands halts _ _ later).behind phrase.tokens consumed ?_ ?_
    · rw [firstMark?_inner plain, Tree.firstMark?_cons_of_clean marked]
    · intro taken _ short
      obtain ⟨begins, broken⟩ := short
      have again := operands.complete phrase taken shallow
        (endsBefore_of_broken (broken _ (Nat.le_refl _)))
      refine ⟨begins (.single phrase), ?_⟩
      simp [again, broken _ (Nat.le_refl _)]

/-- At every level a disjunction is short of what its first faulty part is short of. -/
theorem orExpression_stopsShort (levels : Nat) :
    Rule.StopsShort textEnd (orExpression textEnd (insideAt textEnd levels)) (.chain .or) := by
  -- The rules of one level rest on the whole expression of the level below.
  have level : ∀ levels, (∀ below, levels = below + 1 →
      Rule.StopsShort textEnd (orExpression textEnd (insideAt textEnd below)) (.chain .or)) →
      Rule.StopsShort textEnd (orExpression textEnd (insideAt textEnd levels)) (.chain .or) := by
    intro levels inside
    have negations := notExpression_recognizes (primary_recognizes
      fun below (_ : levels = below + 1) => orExpression_recognizes textEnd below)
    have conjunctions := @chain_stopsShort textEnd .and levels _ negations
      (notExpression_stopsShort textEnd (primary_stopsShort textEnd inside))
    exact @chain_stopsShort textEnd .or levels _ (@chain_recognizes .and levels _ negations)
      conjunctions
  induction levels with
  | zero => exact level 0 (by omega)
  | succ levels ih =>
    apply level
    intro below same
    obtain rfl : levels = below := by omega
    exact ih

end Rules

namespace InOrder

variable {textEnd : Nat} {front back : List Token}

/-- Tokens end before those behind them begin. -/
theorem stop_le_nextOffset (ordered : InOrder textEnd (front ++ back)) :
    ∀ token ∈ front, token.span.stop ≤ nextOffset textEnd back := by
  induction front with
  | nil => simp
  | cons token front ih =>
    have later := ih ordered.2.2
    rw [List.forall_mem_cons]
    refine ⟨?_, later⟩
    -- The next token is the first behind these, or it is one of them and ends before that begins.
    cases front with
    | nil => exact ordered.2.1
    | cons next front =>
      have first : token.span.stop ≤ next.span.start := ordered.2.1
      have filled := ordered.2.2.1
      have before := later next (by simp)
      omega

/-- Tokens end behind where the first of them begins. -/
theorem nextOffset_lt_stop (ordered : InOrder textEnd back) :
    ∀ token ∈ back, nextOffset textEnd back < token.span.stop := by
  -- Either the token is the first, or the first one ends before it begins.
  intro token member
  obtain ⟨earlier, later, rfl⟩ := List.append_of_mem member
  have filled := ordered.filled token member
  cases earlier with
  | nil => exact filled
  | cons first earlier =>
    have wide := ordered.1
    have before := ordered.stop_le_nextOffset first (by simp)
    simp only [List.cons_append, nextOffset] at before ⊢
    omega

/-- The place where some tokens begin tells them from those in front of them. -/
theorem filter_stop (ordered : InOrder textEnd (front ++ back)) :
    (front ++ back).filter (·.span.stop ≤ nextOffset textEnd back) = front ∧
      (front ++ back).filter (nextOffset textEnd back < ·.span.stop) = back := by
  -- What ends before the next token is in front, and all else behind.
  have before := ordered.stop_le_nextOffset
  have behind := ordered.of_append.nextOffset_lt_stop
  constructor
  · rw [List.filter_append, List.filter_eq_self.mpr (by simpa using before),
      List.filter_eq_nil_iff.mpr (by simpa using behind), List.append_nil]
  · rw [List.filter_append, List.filter_eq_nil_iff.mpr (by simpa using before),
      List.filter_eq_self.mpr (by simpa using behind), List.nil_append]

end InOrder

/-- The tokens of a text that end at or before an offset. -/
def tokensBefore (text : String) (offset : Nat) : List Token :=
  (tokenize text).filter (·.span.stop ≤ offset)

/-- The tokens of a text that end behind an offset. -/
def tokensBehind (text : String) (offset : Nat) : List Token :=
  (tokenize text).filter (offset < ·.span.stop)

/-- Where the later ones of a text's tokens begin, an offset divides it into both parts. -/
theorem tokens_divided {text : String} {offset : Nat} {taken rest : List Token}
    (split : tokenize text = taken ++ rest) (place : offset = nextOffset (byteSize text) rest) :
    tokensBefore text offset = taken ∧ tokensBehind text offset = rest := by
  -- Tokens in order end at the offset or before it, or else behind it.
  have ordered := inOrder_tokenize text
  rw [split] at ordered
  rw [tokensBefore, tokensBehind, split, place]
  exact ordered.filter_stop

/-- The token sequences that are accepted as whole queries. -/
def Accepted (tokens : List Token) : Prop :=
  ∃ query : Query, query.tokens = tokens ∧ query.nesting ≤ maxNesting

section Fault

variable {text : String} {report : Diagnostic} (faulty : (parse text).fault? = some report)

/-- Tokens on which the whole grammar leaves an error are no query. -/
theorem not_accepted_of_short {textEnd : Nat} {taken : List Token}
    (short : Short (Category.chain .or).Spells
      (fun tokens => [(orExpression textEnd (insideAt textEnd maxNesting) tokens).1]) taken) :
    ¬ Accepted taken := by
  -- An accepted text is read without an error, a short one is not.
  intro accepted
  obtain ⟨query, rfl, shallow⟩ := accepted
  have read := (orExpression_recognizes textEnd maxNesting).complete query [] shallow trivial
  rw [List.append_nil] at read
  have broken := short.broken
  simp [read, Phrase.tree, query.any_hasError] at broken

include faulty

/-- An error inside the disjunction is a syntax error, behind tokens that are short of a query. -/
theorem fault_of_broken (broken : (disjunctionOf text).1.hasError = true) :
    ∃ taken rest, tokenize text = taken ++ rest ∧
      report.span.start = nextOffset (byteSize text) rest ∧ report.code = .syntaxError ∧
      (∃ more, (Category.chain .or).Spells (taken ++ more)) ∧ ¬ Accepted taken := by
  obtain ⟨taken, rest, what, split, mark, short⟩ :=
    orExpression_stopsShort (byteSize text) maxNesting (tokenize text) (by simpa using broken)
  obtain ⟨visit, found, span, code⟩ := Tree.exists_firstError faulty
  have inside : (inner .expression [(disjunctionOf text).1]).hasError = true := by simp [broken]
  -- The error that is reported is the first one of the disjunction.
  have first : some visit.tree = some (missing (byteSize text) what rest) := by
    rw [← mark, ← Option.map_some, ← found, ← Tree.firstMark?_eq, parse_eq,
      Tree.firstMark?_node rfl]
    rw [Tree.firstMark?_cons_of_broken inside, firstMark?_inner rfl]
  rw [parse_eq] at found
  have deep := Tree.ancestors_of_broken rfl found (by rw [inner_kind]; rfl) inside
  refine ⟨taken, rest, split, ?_, ?_, short.begins, not_accepted_of_short short⟩
  · rw [span, Visit.span, Option.some.inj first]
    rfl
  · rw [code, if_neg (by omega)]

/-- Without an error in the disjunction the report is on the tokens behind an accepted query. -/
theorem fault_of_clean (clean : (disjunctionOf text).1.hasError = false) :
    ∃ taken first more, tokenize text = taken ++ first :: more ∧
      report.span = ⟨first.span.start, (more.getLastD first).span.stop⟩ ∧
      report.code = .unparsedTrailingInput ∧ Accepted taken := by
  obtain ⟨query, shallow, consumed, -⟩ :=
    (orExpression_recognizes (byteSize text) maxNesting).sound _ clean
  obtain ⟨visit, found, span, code⟩ := Tree.exists_firstError faulty
  rw [parse_eq] at found
  have behind := Tree.find?_of_clean rfl found (by simp [clean, NodeKind.isError])
  -- The only error behind the disjunction is the mark over the tokens that are left.
  cases left : (disjunctionOf text).2 with
  | nil => simp [left, leftOver, Tree.visitsOfAll] at behind
  | cons first more =>
    rw [left] at behind
    obtain rfl := Option.some.inj behind
    refine ⟨query.tokens, first, more, ?_, span, by rw [code]; rfl, query, rfl, shallow⟩
    rw [← left, consumed]

end Fault

/--
The report on a faulty text marks the right place.

The tokens that end before it begin some query when groups may be nested without limit, and no error
of the tree begins before it. It is on trailing input exactly when these tokens by themselves are an
accepted query; then it reaches from the first token behind them to the last one of the text.
Otherwise it is on a syntax error.
-/
theorem fault_marks_place {text : String} {report : Diagnostic}
    (faulty : (parse text).fault? = some report) :
    (∃ (query : Query) (more : List Token),
      query.tokens = tokensBefore text report.span.start ++ more) ∧
    ((∃ error ∈ (parse text).subtrees, error.kind.isError = true ∧
        error.span.start = report.span.start) ∧
      ∀ error ∈ (parse text).subtrees, error.kind.isError = true →
        report.span.start ≤ error.span.start) ∧
    (report.code = .unparsedTrailingInput ↔ Accepted (tokensBefore text report.span.start)) ∧
    (report.code = .unparsedTrailingInput → ∃ first last,
      (tokensBehind text report.span.start).head? = some first ∧
      (tokensBehind text report.span.start).getLast? = some last ∧
      report.span = ⟨first.span.start, last.span.stop⟩) ∧
    (report.code ≠ .unparsedTrailingInput → report.code = .syntaxError) := by
  -- Either the grammar stops at a gap inside of the query, or
  -- it reads a whole query and tokens are left over.
  have earliest := Tree.fault?_earliest (parse_isTidy text) faulty
  cases marked : (disjunctionOf text).1.hasError with
  | true =>
    obtain ⟨taken, rest, split, place, code, ⟨more, query, spelled⟩, refused⟩ :=
      fault_of_broken faulty marked
    obtain ⟨before, -⟩ := tokens_divided split place
    rw [before, code]
    exact ⟨⟨query, more, spelled⟩, earliest, by simpa using refused, by simp, by simp⟩
  | false =>
    obtain ⟨taken, first, more, split, span, code, accepted⟩ := fault_of_clean faulty marked
    have place : report.span.start = nextOffset (byteSize text) (first :: more) := by rw [span]; rfl
    obtain ⟨before, behind⟩ := tokens_divided split place
    rw [before, behind, code]
    refine ⟨?_, earliest, by simpa using accepted, ?_, by simp⟩
    · obtain ⟨query, spelled, -⟩ := accepted
      exact ⟨query, [], by rw [spelled, List.append_nil]⟩
    · intro _
      refine ⟨first, more.getLastD first, rfl, ?_, span⟩
      rw [List.getLast?_cons, List.getLastD_eq_getLast?]

/-- An item is missing between two commas, and more is wrong behind it. -/
def gappedText : String :=
  "NOT (owner IN (\"a\",, 2) AND ) x ="

/-- A whole query with more behind it. -/
def overlongText : String :=
  "a = 1 AND b) OR (c"

/-- The missing item is reported and not what follows; so are the tokens behind a whole query. -/
theorem faults_marked :
    (∃ report, (parse gappedText).fault? = some report ∧ report.code = .syntaxError ∧
      report.span = .empty 19 ∧
      (∃ (query : Query) (more : List Token),
        query.tokens = tokensBefore gappedText 19 ++ more) ∧
      ¬ Accepted (tokensBefore gappedText 19)) ∧
    (∃ report, (parse overlongText).fault? = some report ∧
      report.code = .unparsedTrailingInput ∧ report.span = ⟨11, 18⟩ ∧
      Accepted (tokensBefore overlongText 11)) := by
  -- The reports are computed; what they say of the tokens before them is not.
  have gapped : (parse gappedText).fault?.map (fun report => (report.code, report.span)) =
      some (.syntaxError, .empty 19) := by decide +kernel
  have overlong : (parse overlongText).fault?.map (fun report => (report.code, report.span)) =
      some (.unparsedTrailingInput, ⟨11, 18⟩) := by decide +kernel
  constructor
  · obtain ⟨report, faulty, same⟩ := Option.map_eq_some_iff.mp gapped
    obtain ⟨code, span⟩ := Prod.mk.inj same
    obtain ⟨begins, -, trailing, -⟩ := fault_marks_place faulty
    rw [span] at begins trailing
    refine ⟨report, faulty, code, span, begins, fun accepted => ?_⟩
    have wrong := trailing.mpr accepted
    rw [code] at wrong
    cases wrong
  · obtain ⟨report, faulty, same⟩ := Option.map_eq_some_iff.mp overlong
    obtain ⟨code, span⟩ := Prod.mk.inj same
    obtain ⟨-, -, trailing, -⟩ := fault_marks_place faulty
    rw [span] at trailing
    exact ⟨report, faulty, code, span, trailing.mp code⟩

end FilterLang
