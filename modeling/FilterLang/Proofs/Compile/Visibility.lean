import FilterLang.Proofs.Ast.Parallel
import FilterLang.Proofs.Compile.Transit
import FilterLang.Proofs.Compile.Typed

/-! What a language restricted to some of its fields compiles. -/

namespace FilterLang

/-- A restricted language finds the first declaration of each visible field, and of no other. -/
theorem Language.field?_restrictTo (language : Language) (visible : List String) (name : String) :
    (language.restrictTo visible).field? name =
      if name ∈ visible then language.field? name else none := by
  unfold Language.field? Language.restrictTo
  rw [List.find?_filter]
  by_cases seen : name ∈ visible
  · rw [if_pos seen]
    -- A declaration by the name passes the filter, so the first one is still the first.
    congr 1
    funext field
    by_cases named : field.name = name
    · simp [named, seen]
    · simp [named]
  · rw [if_neg seen, List.find?_eq_none]
    -- A declaration by the name is filtered out, however often it comes.
    intro field _
    by_cases named : field.name = name
    · simp [named, seen]
    · simp [named]

/-- An expression whose comparisons are all of visible fields. -/
def Node.NamesOnly (visible : List String) : Node → Prop
  | comparison field _ _ _ => field.name ∈ visible
  | logical _ left right _ => left.NamesOnly visible ∧ right.NamesOnly visible
  | negation expression _ => expression.NamesOnly visible

/-- An expression names the same fields wherever it is put. -/
theorem Node.namesOnly_relocate {visible : List String} {span : Option Span} {node : Node} :
    (node.relocate span).NamesOnly visible ↔ node.NamesOnly visible := by
  -- Induction on the expression; names are kept where spans are moved.
  induction node with
  | comparison field operator value place => rfl
  | logical operator left right place ihLeft ihRight =>
    simp only [Node.relocate, Node.NamesOnly, ihLeft, ihRight]
  | negation expression place ih => simp only [Node.relocate, Node.NamesOnly, ih]

/-- The fields found so far stay, and those of the comparisons are added. -/
theorem Ir.mem_addFields {ir : Ir} {found : List String} {name : String} :
    name ∈ ir.addFields found ↔
      name ∈ found ∨ ∃ comparison ∈ ir.comparisons, comparison.field = name := by
  induction ir generalizing found with
  | logical operator left right ihLeft ihRight =>
    rw [Ir.addFields, ihRight, ihLeft]
    simp only [Ir.comparisons, List.mem_append, or_and_right, exists_or, or_assoc]
  | negation expression ih => exact ih
  | comparison field operator value =>
    simp only [Ir.addFields, Ir.comparisons, List.mem_singleton, exists_eq_left]
    by_cases met : field ∈ found
    · -- A field that was met before adds nothing.
      simp only [List.contains_eq_mem, met, decide_true, if_true]
      constructor
      · exact .inl
      · rintro (before | rfl)
        · exact before
        · exact met
    · simp [met, eq_comm]

/-- The fields that an expression names are visible exactly if those of its form are. -/
theorem Node.namesOnly_iff {visible : List String} {node : Node} :
    node.NamesOnly visible ↔ ∀ comparison ∈ node.lower.comparisons, comparison.field ∈ visible := by
  -- Induction on the expression: its comparisons from left to right are those of what it lowers to.
  induction node with
  | comparison field operator value place => simp [Node.NamesOnly, Node.lower, Ir.comparisons]
  | logical operator left right place ihLeft ihRight =>
    rw [Node.NamesOnly, ihLeft, ihRight, Node.lower, Ir.comparisons, List.forall_mem_append]
  | negation expression place ih => exact ih

/-- The referenced fields of an executable form are those of its comparisons. -/
theorem forall_referencedFields {visible : List String} {ir : Ir} :
    (∀ name ∈ ir.referencedFields, name ∈ visible) ↔
      ∀ comparison ∈ ir.comparisons, comparison.field ∈ visible := by
  simp [Ir.referencedFields, Ir.mem_addFields]

/--
How a build under a restricted language goes with the build under the full one.

What the restricted language builds the full one builds as well, and what the full one builds out
of visible fields the restricted one builds too.
-/
structure Narrows (visible : List String) (narrow wide : Built) : Prop where
  kept : ∀ node, narrow = .ok node → wide = .ok node
  found : ∀ node, wide = .ok node → node.NamesOnly visible → narrow = .ok node

namespace Narrows

variable {visible : List String} {narrow wide : Built}

/-- A build that looks up no field goes with itself. -/
theorem refl (built : Built) : Narrows visible built built :=
  ⟨fun _ done => done, fun _ done _ => done⟩

/-- A step that is the same in both builds can be made before them. -/
theorem after {α : Type} (outcome : Except BuildError α) {next next' : α → Built}
    (each : ∀ first, Narrows visible (next first) (next' first)) :
    Narrows visible (outcome >>= next) (outcome >>= next') := by
  -- A step that both sides share fails for both or goes on for both.
  cases outcome with
  | error error => exact .refl _
  | ok first => exact each first

/-- A step that hides no field can be made behind both builds. -/
theorem wrapped (narrows : Narrows visible narrow wide) {wrap : Node → Node}
    (named : ∀ node, (wrap node).NamesOnly visible → node.NamesOnly visible) :
    Narrows visible (do return wrap (← narrow)) (do return wrap (← wide)) where
  kept node done := by
    -- The operand is the only part, so both directions go through it.
    rw [bind_eq_ok] at done ⊢
    obtain ⟨inner, built, same⟩ := done
    exact ⟨inner, narrows.kept inner built, same⟩
  found node done only := by
    rw [bind_eq_ok] at done ⊢
    obtain ⟨inner, built, same⟩ := done
    cases same
    exact ⟨inner, narrows.found inner built (named inner only), rfl⟩

/-- Two builds can be joined, and each names a part of the fields of the whole. -/
theorem joined {narrow' wide' : Built} (left : Narrows visible narrow wide)
    (right : Narrows visible narrow' wide') (operator : Connective) (span : Option Span) :
    Narrows visible (do return .logical operator (← narrow) (← narrow') span)
      (do return .logical operator (← wide) (← wide') span) where
  kept node done := by
    -- Both operands are built by both sides, and all names of either are names of the whole.
    simp only [bind_eq_ok] at done ⊢
    obtain ⟨first, built, second, built', same⟩ := done
    exact ⟨first, left.kept first built, second, right.kept second built', same⟩
  found node done only := by
    simp only [bind_eq_ok] at done ⊢
    obtain ⟨first, built, second, built', same⟩ := done
    cases same
    exact ⟨first, left.found first built only.1, second, right.found second built' only.2, rfl⟩

/-- What both builds come to can be put at one place. -/
theorem relocated (span : Span) : Narrows visible narrow wide → Narrows visible
    (match narrow with
      | .ok root => .ok (root.relocate (some span))
      | .error error => .error (error.relocate span))
    (match wide with
      | .ok root => .ok (root.relocate (some span))
      | .error error => .error (error.relocate span)) := by
  -- The names of an expansion do not change when it is moved.
  intro narrows
  constructor
  · intro node done
    cases narrow with
    | error error => cases done
    | ok root => rwa [narrows.kept root rfl]
  · intro node done only
    cases wide with
    | error error => cases done
    | ok root =>
      cases done
      rw [narrows.found root rfl (Node.namesOnly_relocate.mp only)]

end Narrows

section Meaning

variable {language : Language} {visible : List String} {source : List Char}
  {narrowCall wideCall : String → Span → Built}

/-- A comparison is built alike under both languages unless it is a hidden field alone. -/
theorem comparisonNode_narrows (tree : Tree) :
    Narrows visible (comparisonNode ⟨source, language.restrictTo visible, narrowCall⟩ tree)
      (comparisonNode ⟨source, language, wideCall⟩ tree) := by
  unfold comparisonNode
  refine .after _ fun field => .after _ fun identifier => ?_
  cases tree.child? .compareOperator with
  | some operator => exact .refl _
  | none =>
    cases tree.child? .inOperator with
    | some operator => exact .refl _
    | none =>
      -- Only here is the field looked up.
      simp only [Language.field?_restrictTo]
      by_cases seen : identifier.text source ∈ visible
      · rw [if_pos seen]
        exact .refl _
      · rw [if_neg seen]
        refine ⟨nofun, fun node done only => absurd ?_ seen⟩
        -- The full language gives a comparison of the hidden field or nothing.
        split at done <;> cases done
        exact only

/-- Negations and joins go with each other wherever they are put. -/
theorem narrows_keeps : Keeps (fun _ => True) (Narrows visible) where
  -- Negations and joins name what their operands name.
  malformed _ := .refl _
  negated narrows _ := narrows.wrapped fun _ only => only
  joined operator _ _ _ _ span left right _ := left.joined right operator (some span)

/-- A whole tree is built alike under both languages, if calls are. -/
theorem rootMeaning_narrows
    (calls : ∀ name span, Narrows visible (narrowCall name span) (wideCall name span))
    (tree : Tree) :
    Narrows visible (rootMeaning ⟨source, language.restrictTo visible, narrowCall⟩ tree)
      (rootMeaning ⟨source, language, wideCall⟩ tree) :=
  -- What is built does not depend on where it is put.
  rootMeaning_related narrows_keeps (fun name span _ => calls name span)
    (fun tree _ => comparisonNode_narrows tree) tree
    fun _ _ => ⟨trivial, fun _ _ => ⟨trivial, trivial⟩⟩

/-- A call of an alias is built alike under both languages, since aliases are not restricted. -/
theorem expandAlias_narrows (grammar : Grammar) (limit rounds : Nat) (chain : List String)
    (name : String) (span : Span) :
    Narrows visible (expandAlias grammar (language.restrictTo visible) limit rounds chain name span)
      (expandAlias grammar language limit rounds chain name span) := by
  have aliases : (language.restrictTo visible).aliases = language.aliases := rfl
  -- The calls inside an expansion have one round less.
  induction rounds generalizing chain name span with
  | zero =>
    rw [expandAlias.eq_def, expandAlias.eq_def grammar language]
    exact .refl _
  | succ rounds ih =>
    rw [expandAlias.eq_def, expandAlias.eq_def grammar language]
    simp only [aliases]
    split
    · exact .refl _
    · cases language.aliases.find? (·.name == name) with
      | none => exact .refl _
      | some declared =>
        dsimp only
        split
        · exact .refl _
        · split
          · exact .refl _
          · exact .relocated span (rootMeaning_narrows (ih (chain ++ [name])) _)

/-- A query is built alike under both languages. -/
theorem buildRoot_narrows (grammar : Grammar) (limit : Nat) (tree : Tree) (text : String) :
    Narrows visible (buildRoot grammar (language.restrictTo visible) limit tree text)
      (buildRoot grammar language limit tree text) := by
  -- Aliases are not restricted, so both sides are guarded alike.
  have aliases : (language.restrictTo visible).aliases = language.aliases := rfl
  unfold buildRoot
  rw [aliases]
  split
  · exact .refl _
  · split
    · exact .refl _
    · exact rootMeaning_narrows (expandAlias_narrows grammar limit _ []) tree

/-- The same envelope is built under both languages, if its fields are visible. -/
theorem buildEnvelope_restrictTo_iff {grammar : Grammar} {limit : Nat} {tree : Tree} {text : String}
    {envelope : Envelope} (only : envelope.root.NamesOnly visible) :
    buildEnvelope grammar (language.restrictTo visible) limit tree text = .ok envelope ↔
      buildEnvelope grammar language limit tree text = .ok envelope := by
  have narrows := @buildRoot_narrows language visible grammar limit tree text
  simp only [buildEnvelope, bind_eq_ok]
  -- The envelope shows the root that was built, and the root is the same on both sides.
  constructor
  · rintro ⟨root, built, same⟩
    exact ⟨root, narrows.kept root built, same⟩
  · rintro ⟨root, built, same⟩
    cases same
    exact ⟨root, narrows.found root built only, rfl⟩

end Meaning

/-- A restricted language allows the comparisons of visible fields that the full one allows. -/
theorem Language.allows_restrictTo_iff {language : Language} {visible : List String}
    {comparison : IrComparison} :
    (language.restrictTo visible).Allows comparison ↔
      language.Allows comparison ∧ comparison.field ∈ visible := by
  unfold Language.Allows
  rw [Language.field?_restrictTo]
  by_cases seen : comparison.field ∈ visible
  · -- The operators of types are not restricted, so the declaration takes the same.
    simp only [seen, if_true, and_true]
    constructor
    · rintro ⟨field, found, own, listed, suits, enumerated⟩
      exact ⟨field, found, own, listed, suits, enumerated⟩
    · rintro ⟨field, found, own, listed, suits, enumerated⟩
      exact ⟨field, found, own, listed, suits, enumerated⟩
  · simp [seen]

/-- The checks find a restricted language kept exactly if the full one is and no field is hidden. -/
theorem typingReports_restrictTo_iff {language : Language} {visible : List String} {node : Node} :
    typingReports (language.restrictTo visible) node = [] ↔
      typingReports language node = [] ∧ node.NamesOnly visible := by
  -- A restricted language allows what the whole one allows of visible fields.
  simp only [typingReports_eq_nil_iff, Node.namesOnly_iff, Language.allows_restrictTo_iff]
  exact forall₂_and

/-- A query compiles exactly by way of an envelope that both checks are silent on. -/
theorem compileQuery_eq_some_iff {config : Config} {language : Language} {text : String} {ir : Ir} :
    ((compileQuery config language text).success = true ∧
        (compileQuery config language text).ir = some ir) ↔
      ∃ envelope, buildEnvelope .standard language config.aliasDepthLimit.toNat (parse text) text =
          .ok envelope ∧ structureReports config envelope = [] ∧
        typingReports language envelope.root = [] ∧ envelope.root.lower = ir := by
  constructor
  · rintro ⟨compiled, lowered⟩
    unfold compileQuery at compiled lowered
    cases handed : (analyze config language text).envelope with
    | none => simp [handed] at compiled
    | some envelope =>
      simp only [handed] at compiled lowered
      -- One report from either check would have kept the envelope from compiling.
      have silent : structureReports config envelope = [] ∧
          typingReports language envelope.root = [] := by
        by_contra heard
        obtain ⟨first, rest, refused⟩ := compileEnvelope_of_report heard
        rw [refused] at compiled
        cases compiled
      rw [compileEnvelope_of_silent silent.1 silent.2] at lowered
      exact ⟨envelope, analyze_envelope handed, silent.1, silent.2, Option.some.inj lowered⟩
  · rintro ⟨envelope, built, sound, typed, rfl⟩
    -- A sound envelope keeps the limit of the length, so the text is read at all.
    have short := (limits_of_structureReports sound).1
    rw [(buildEnvelope_parts built).1] at short
    have handed : (analyze config language text).envelope = some envelope := by
      unfold analyze
      rw [if_neg (Nat.not_lt.mpr short), built]
      simp [sound, hasErrors]
    simp only [compileQuery, handed, compileEnvelope_of_silent sound typed, and_self]

/--
A restricted language compiles exactly the queries over visible fields, to what the full one does.

Neither a query nor an alias that it calls brings a hidden field into what is compiled.
-/
theorem compileQuery_restrictTo_iff (config : Config) (language : Language) (visible : List String)
    (text : String) (ir : Ir) :
    ((compileQuery config (language.restrictTo visible) text).success = true ∧
        (compileQuery config (language.restrictTo visible) text).ir = some ir) ↔
      ((compileQuery config language text).success = true ∧
        (compileQuery config language text).ir = some ir) ∧
      ∀ name ∈ ir.referencedFields, name ∈ visible := by
  -- The restriction shows in typing and in building; what is built names visible fields only, and
  -- then the two languages build the same.
  rw [compileQuery_eq_some_iff, compileQuery_eq_some_iff, forall_referencedFields]
  constructor
  · rintro ⟨envelope, built, sound, typed, rfl⟩
    obtain ⟨typed, only⟩ := typingReports_restrictTo_iff.mp typed
    rw [buildEnvelope_restrictTo_iff only] at built
    exact ⟨⟨envelope, built, sound, typed, rfl⟩, Node.namesOnly_iff.mp only⟩
  · rintro ⟨⟨envelope, built, sound, typed, rfl⟩, seen⟩
    have only := Node.namesOnly_iff.mpr seen
    rw [← buildEnvelope_restrictTo_iff only] at built
    exact ⟨envelope, built, sound, typingReports_restrictTo_iff.mpr ⟨typed, only⟩, rfl⟩

/-- An alias that comes to a hidden field through another one no longer compiles. -/
example : (compileQuery .default issueLanguage "mine()").success = true ∧
    (compileQuery .default (issueLanguage.restrictTo ["owner"]) "mine()").success = false := by
  decide +kernel

end FilterLang
