import FilterLang.Compile
import FilterLang.Proofs.Ast.Expansion
import FilterLang.Proofs.Ast.Parallel
import FilterLang.Proofs.Ast.Spans
import FilterLang.Proofs.Grammar.WellFormed

/-! Every report points into the query. -/

namespace FilterLang

/-- An error that is no report on a text, and whose place satisfies a condition. -/
def BuildError.PointsAt (holds : Span → Prop) : BuildError → Prop
  -- A report on a text has its own place, which a call does not change.
  | .unreadable _ => False
  | error => ∀ span ∈ error.span?, holds span

/-- A build all of whose places satisfy a condition, be it an expression or an error. -/
def Places {α : Type} (spans : α → List Span) (holds : Span → Prop) : Except BuildError α → Prop
  | .ok result => ∀ span ∈ spans result, holds span
  | .error error => error.PointsAt holds

namespace Places

variable {α β : Type} {spans : α → List Span} {spans' : β → List Span} {holds : Span → Prop}

/-- A malformed tree is reported without a place. -/
theorem malformed (cause : Malformation) : Places spans holds (.error (.malformed cause)) :=
  nofun

/-- A step that is made with what another one gives has its own places. -/
theorem bind {outcome : Except BuildError α} {next : α → Except BuildError β}
    (first : Places spans holds outcome)
    (each : ∀ result, outcome = .ok result → (∀ span ∈ spans result, holds span) →
      Places spans' holds (next result)) : Places spans' holds (outcome >>= next) := by
  -- An error of the first step is the error of both.
  cases outcome with
  | error error => exact first
  | ok result => exact each result rfl first

/-- Steps that are made one after the other have the places of each. -/
theorem mapM {step : β → Except BuildError α} {inputs : List β}
    (each : ∀ input ∈ inputs, Places spans holds (step input)) :
    Places (List.flatMap spans) holds (inputs.mapM step) := by
  -- Induction on the inputs; the first error ends the computation and is placed itself.
  induction inputs with
  | nil => exact nofun
  | cons input inputs ih =>
    rw [List.forall_mem_cons] at each
    rw [List.mapM_cons]
    refine .bind each.1 fun first _ placed => .bind (ih each.2) fun rest _ others => ?_
    exact List.forall_mem_append.mpr ⟨placed, others⟩

end Places

/-- A child that is required is one of the children. -/
theorem Tree.mem_children_of_required {tree child : Tree} {kind : NodeKind}
    (found : tree.required kind = .ok child) : child ∈ tree.children := by
  -- Only a child can be found.
  unfold required at found
  split at found
  · rename_i same
    cases found
    exact List.mem_of_find?_eq_some same
  · cases found

section Meaning

variable {holds : Span → Prop} {source : List Char}

/-- A missing child is reported without a place. -/
theorem required_places (tree : Tree) (kind : NodeKind) :
    Places (fun _ => []) holds (tree.required kind) := by
  -- Found or not, no span is recorded.
  unfold Tree.required
  split
  · exact nofun
  · exact .malformed _

/-- A literal's value, or its error, stands at the literal. -/
theorem literalValue_places {literal : Tree} (place : holds literal.span) :
    Places Value.spans holds (literalValue source literal) := by
  -- Both the value and the errors of a literal are at the literal's own span.
  have own : ∀ span ∈ (some literal.span).toList, holds span := by simpa using place
  unfold literalValue
  dsimp only
  split
  · exact own
  · split
    · exact own
    · exact fun span same => own span (Option.mem_toList.mpr same)
    · exact .malformed _
  · exact own
  · exact .malformed _

/-- A scalar's value stands at its literal. -/
theorem scalarValue_places {scalar : Tree} (yields : scalar.Yields holds) :
    Places Value.spans holds (scalarValue source scalar) := by
  -- The literal is the scalar's first child.
  unfold scalarValue
  split
  · rename_i literal rest below
    exact literalValue_places (yields.child (below ▸ List.mem_cons_self)).span
  · exact .malformed _

/-- The value of a list stands at the list, and its items at their literals. -/
theorem listValue_places {list : Tree} (yields : list.Yields holds) :
    Places Value.spans holds (listValue source list) := by
  -- Each item is below the list, and its scalar below the item.
  have each : ∀ item ∈ list.children.filter (·.kind == .listItem),
      Places Value.spans holds (itemValue source item) := by
    intro item member
    have below := yields.child (List.mem_filter.mp member).1
    refine .bind (required_places item _) fun scalar found _ => ?_
    exact scalarValue_places (below.child (Tree.mem_children_of_required found))
  refine .bind (.mapM each) fun items _ placed => ?_
  -- The list adds its own span to those of its items.
  show ∀ span ∈ (Value.list items (some list.span)).spans, holds span
  rw [Value.spans, Value.spansOfAll_eq, List.forall_mem_append]
  exact ⟨by simpa using yields.span, placed⟩

/-- A comparison stands at its tree, and its field and value at theirs. -/
theorem comparisonNode_places {around : Surroundings} {tree : Tree} (yields : tree.Yields holds) :
    Places Node.spans holds (comparisonNode around tree) := by
  unfold comparisonNode
  refine .bind (required_places tree _) fun fieldTree found _ => ?_
  refine .bind (required_places fieldTree _) fun identifier _ _ => ?_
  have field : holds fieldTree.span := (yields.child (Tree.mem_children_of_required found)).span
  have own := yields.span
  -- A comparison has the places of its value besides those of the field and its own.
  have whole : ∀ {value : Value} {name operator : String}, (∀ span ∈ value.spans, holds span) →
      ∀ span ∈ (Node.comparison ⟨name, some fieldTree.span⟩ operator value (some tree.span)).spans,
        holds span := by
    intro value name operator placed
    rw [Node.spans, List.forall_mem_append]
    exact ⟨by simpa using ⟨field, own⟩, placed⟩
  split
  · refine .bind (required_places tree _) fun scalar below _ => ?_
    refine .bind (scalarValue_places (yields.child (Tree.mem_children_of_required below)))
      fun value _ placed => whole placed
  · refine .bind (required_places tree _) fun list below _ => ?_
    refine .bind (listValue_places (yields.child (Tree.mem_children_of_required below)))
      fun value _ placed => whole placed
  · dsimp only
    split
    · exact whole (by simpa [Value.spans] using field)
    · simpa [Places, BuildError.PointsAt, BuildError.span?] using field

/-- Negations and joins have the places of their operands and their own. -/
theorem places_keeps : Keeps holds fun built _ => Places Node.spans holds built where
  -- Each construction adds its own span to those of its operands.
  malformed _ := .malformed _
  negated {left _ span} placed place := by
    refine .bind placed fun operand _ inside => ?_
    show ∀ place ∈ (Node.negation operand (some span)).spans, holds place
    rw [Node.spans, List.forall_mem_append]
    exact ⟨by simpa using place, inside⟩
  joined operator {left _ left' _ span} first second place := by
    refine .bind first fun one _ inside => .bind second fun other _ inside' => ?_
    show ∀ place ∈ (Node.logical operator one other (some span)).spans, holds place
    rw [Node.spans, List.forall_mem_append, List.forall_mem_append]
    exact ⟨by simpa using place, inside, inside'⟩

/-- What a whole tree means has the places that the tree yields, if calls stand where they are. -/
theorem rootMeaning_places {language : Language} {call : String → Span → Built}
    (called : ∀ name span, holds span → Places Node.spans holds (call name span)) {tree : Tree}
    (yields : tree.Yields holds) :
    Places Node.spans holds (rootMeaning ⟨source, language, call⟩ tree) :=
  -- Both readings are the same one here.
  @rootMeaning_related holds _ source language language call call places_keeps called
    (fun _ inside => comparisonNode_places inside) tree yields

end Meaning

/-- An error that was put at a place has no other. -/
theorem BuildError.pointsAt_relocate {holds free : Span → Prop} {error : BuildError} {span : Span}
    (inside : error.PointsAt free) (place : holds span) : (error.relocate span).PointsAt holds := by
  -- A report that was made inside of an expansion points where the call allows.
  cases error with
  | unreadable report => exact inside
  | duplicateAlias name => exact nofun
  | malformed cause => exact nofun
  | _ => simpa [relocate, PointsAt, span?] using place

/-- What was put at a place has no other, whatever places it had before. -/
theorem Places.relocated {holds free : Span → Prop} {span : Span} {built : Built}
    (place : holds span) : Places Node.spans free built → Places Node.spans holds
      (match built with
        | .ok root => .ok (root.relocate (some span))
        | .error error => .error (error.relocate span)) := by
  -- All spans of a moved tree are the place that it was moved to.
  intro inside
  cases built with
  | ok root => exact fun other recorded => Node.spans_relocate span root other recorded ▸ place
  | error error => exact error.pointsAt_relocate inside place

/-- Whatever comes of a call stands at the call. -/
theorem expandAlias_places (grammar : Grammar) (language : Language) (limit rounds : Nat)
    (chain : List String) (name : String) {holds : Span → Prop} {span : Span}
    (place : holds span) :
    Places Node.spans holds (expandAlias grammar language limit rounds chain name span) := by
  have own : ∀ other ∈ some span, holds other := by simpa using place
  -- The calls inside an expansion have one round less, and may stand anywhere in its text.
  induction rounds generalizing chain name holds span with
  | zero =>
    rw [expandAlias.eq_def]
    dsimp only
    split <;> exact own
  | succ rounds ih =>
    rw [expandAlias.eq_def]
    dsimp only
    split
    · exact own
    · cases language.aliases.find? (·.name == name) with
      | none => exact own
      | some declared =>
        dsimp only
        split
        · exact own
        · split
          · exact own
          · refine .relocated place (@rootMeaning_places (fun _ => True) _ _ _ ?_ _ ?_)
            · exact fun other span free => ih _ _ free fun _ _ => trivial
            · exact fun _ _ => ⟨trivial, fun _ _ => ⟨trivial, trivial⟩⟩

/-- A range of a text, with both ends between its characters. -/
structure PointsInto (text : String) (span : Span) : Prop where
  forward : span.start ≤ span.stop
  inside : span.stop ≤ byteSize text
  begins : Boundary text.toList span.start
  ends : Boundary text.toList span.stop

/-- Two boundaries in order make a range of the text. -/
theorem pointsInto {text : String} {span : Span} (forward : span.start ≤ span.stop)
    (begins : Boundary text.toList span.start) (ends : Boundary text.toList span.stop) :
    PointsInto text span :=
  ⟨forward, ends.le, begins, ends⟩

/-- The start of a text is a range of it. -/
theorem pointsInto_start (text : String) : PointsInto text (.empty 0) :=
  pointsInto (Nat.le_refl _) (boundary_zero _) (boundary_zero _)

/-- A whole text is a range of it. -/
theorem pointsInto_whole (text : String) : PointsInto text ⟨0, byteSize text⟩ :=
  pointsInto (Nat.zero_le _) (boundary_zero _) (boundary_byteLength _)

/-- The tree of a text yields ranges of the text. -/
theorem parse_yields (text : String) : (parse text).Yields (PointsInto text) := by
  intro sub member
  obtain ⟨begins, ends⟩ := parse_boundaries text sub member
  have apart := (parse_isTidy text sub member).1
  refine ⟨pointsInto apart.le begins ends, fun child below => ?_⟩
  -- The children lie within the node, so both kinds of range are in order.
  obtain ⟨left, middle, right⟩ := apart.bounds child below
  have among := Tree.mem_subtrees_trans member (Tree.mem_subtrees_of_mem_children below)
  obtain ⟨childBegins, childEnds⟩ := parse_boundaries text child among
  exact ⟨pointsInto (by simp only; omega) begins childEnds,
    pointsInto (by simp only; omega) childBegins ends⟩

/-- The report on an unreadable tree points at one of its nodes. -/
theorem fault?_span {tree : Tree} {report : Diagnostic} (found : tree.fault? = some report) :
    ∃ sub ∈ tree.subtrees, report.span = sub.span := by
  -- The fault is reported at the subtree that was found.
  obtain ⟨visit, first, rfl⟩ := Option.map_eq_some_iff.mp found
  refine ⟨visit.tree, List.mem_map.mpr ⟨visit, List.mem_of_find?_eq_some first, rfl⟩, ?_⟩
  split <;> rfl

/-- A build whose places are ranges of a text, or whose report points into it. -/
def BuiltInto (text : String) : Built → Prop
  | .ok root => ∀ span ∈ root.spans, PointsInto text span
  | .error error => PointsInto text (error.diagnostic (byteSize text)).span

/-- An error without a place of its own is reported of the whole text. -/
theorem Places.builtInto {text : String} {built : Built}
    (placed : Places Node.spans (PointsInto text) built) : BuiltInto text built := by
  -- An unreadable text is ruled out; a repeated alias and a malformed tree have no place.
  cases built with
  | ok root => exact placed
  | error error =>
    have whole := pointsInto_whole text
    cases error with
    | unreadable report => exact placed.elim
    | duplicateAlias name => exact whole
    | malformed cause => exact whole
    | _ => exact placed _ rfl

/-- What is built of a query has all its places in it. -/
theorem buildRoot_builtInto (language : Language) (limit : Nat) (text : String) :
    BuiltInto text (buildRoot .standard language limit (parse text) text) := by
  unfold buildRoot
  split
  · exact pointsInto_whole text
  · split
    · rename_i report unreadable
      obtain ⟨sub, member, same⟩ := fault?_span unreadable
      show PointsInto text report.span
      exact same ▸ (parse_yields text sub member).1
    · have called : ∀ name span, PointsInto text span → Places Node.spans (PointsInto text)
          (expandAlias .standard language limit language.aliases.length [] name span) :=
        fun name span place => expandAlias_places _ _ _ _ _ _ place
      have placed := @rootMeaning_places _ text.toList language _ called _ (parse_yields text)
      dsimp only
      -- Only the places of what the tree means matter, so its meaning is not looked into.
      generalize rootMeaning _ (parse text) = built at placed ⊢
      exact placed.builtInto

/-- Every report on reading a query points into it, and so does all of the AST. -/
theorem analyze_pointAt (config : Config) (language : Language) (text : String) :
    PointAt (PointsInto text) (analyze config language text).diagnostics ∧
      ∀ envelope, (analyze config language text).envelope = some envelope →
        ∀ span ∈ envelope.root.spans, PointsInto text span := by
  -- Three outcomes: the query is too long, it cannot be built, or it has an envelope.
  have start := pointsInto_start text
  have root := buildRoot_builtInto language config.aliasDepthLimit.toNat text
  unfold analyze
  dsimp only
  split
  · exact ⟨.error _ _ _ start, nofun⟩
  · split
    · rename_i error failed
      -- An envelope fails only by its root.
      rcases bind_eq_error.mp failed with refused | ⟨_, _, never⟩
      · rw [refused] at root
        exact ⟨List.forall_mem_singleton.mpr root, nofun⟩
      · cases never
    · rename_i envelope built
      rw [buildEnvelope_ok built] at root
      -- The spans of the root point into the text, so what is reported of them does.
      have reports : PointAt (PointsInto text) (structureReports config envelope) :=
        structureReports_pointAt config start fun span recorded _ => root span recorded
      split
      · exact ⟨reports, nofun⟩
      · refine ⟨reports, fun other same => ?_⟩
        cases same
        exact root

/-- The reports on an envelope point where those of both checks do. -/
theorem compileEnvelope_pointAt {config : Config} {language : Language} {envelope : Envelope}
    {holds : Span → Prop} (structural : PointAt holds (structureReports config envelope))
    (typing : structureReports config envelope = [] →
      PointAt holds (typingReports language envelope.root)) :
    PointAt holds (compileEnvelope config language envelope).diagnostics := by
  -- Typing is looked at only after the structure has been found sound.
  unfold compileEnvelope
  dsimp only
  split
  · exact structural
  · rename_i sound
    have clean := structureReports_eq_nil (by simpa using sound)
    split <;> exact structural.append (typing clean)

/--
Every report points into the query.

The reports on a text point at ranges of it with both ends between characters. Those on an envelope,
whatever spans it came with, point at ranges of the query that it carries.
-/
theorem diagnostics_pointInto (config : Config) (language : Language) :
    (∀ text, ∀ report ∈ (analyze config language text).diagnostics,
      PointsInto text report.span) ∧
    (∀ text, ∀ report ∈ (compileQuery config language text).diagnostics,
      PointsInto text report.span) ∧
    ∀ envelope, ∀ report ∈ (compileEnvelope config language envelope).diagnostics,
      report.span.start ≤ report.span.stop ∧ report.span.stop ≤ byteSize envelope.rawQuery := by
  -- A query's own tree points into it, so reports on its envelope do as well.
  refine ⟨fun text => (analyze_pointAt config language text).1, fun text => ?_, fun envelope => ?_⟩
  · obtain ⟨reports, spans⟩ := analyze_pointAt config language text
    have start := pointsInto_start text
    unfold compileQuery
    dsimp only
    split
    · rename_i envelope found
      have placed := spans envelope found
      exact compileEnvelope_pointAt
        (structureReports_pointAt config start fun span recorded _ => placed span recorded)
        fun _ => typingReports_pointAt language start placed
    · exact reports
  · -- An envelope from elsewhere may hold any spans, but those that do not fit are not shown, and
    -- typing is looked at only if all of them fit.
    have start : (Span.empty 0).fits (byteSize envelope.rawQuery) = true := by
      simp [Span.fits, Span.empty]
    have fitting : PointAt (fun span => span.fits (byteSize envelope.rawQuery) = true)
        (compileEnvelope config language envelope).diagnostics :=
      compileEnvelope_pointAt (structureReports_pointAt config start fun _ _ inside => inside)
        fun clean => typingReports_pointAt language start (fits_of_structureReports clean)
    intro report member
    simpa [Span.fits] using fitting report member

end FilterLang
