import FilterLang.Proofs.Ast.Structure
import FilterLang.Typing

/-! The places recorded in an expression, and the places that reports on it point at. -/

namespace FilterLang

mutual

/-- The places recorded in a value. -/
def Value.spans : Value → List Span
  | .string _ span => span.toList
  | .number _ _ span => span.toList
  | .boolean _ span => span.toList
  | .list items span => span.toList ++ Value.spansOfAll items

/-- The places recorded in several values. -/
def Value.spansOfAll : List Value → List Span
  | [] => []
  | value :: values => value.spans ++ Value.spansOfAll values

end

/-- The places recorded in an expression. -/
def Node.spans : Node → List Span
  -- The field reference has a place of its own.
  | .comparison field _ value span => (field.span.toList ++ span.toList) ++ value.spans
  | .logical _ left right span => span.toList ++ (left.spans ++ right.spans)
  | .negation expression span => span.toList ++ expression.spans

/-- The places recorded at an item of a walk, without those of what it holds. -/
def Item.spans : Item → List Span
  | .node (.comparison field _ _ span) => field.span.toList ++ span.toList
  | item => item.span.toList

/-- The place of an item is recorded at it. -/
theorem Item.mem_spans {item : Item} {span : Span} (own : span ∈ item.span) :
    span ∈ item.spans := by
  -- A comparison also holds the span of its field, in front of its own.
  unfold Item.spans
  split
  · exact List.mem_append_right _ (Option.mem_toList.mpr own)
  · exact Option.mem_toList.mpr own

/-- Several values have the places of each. -/
theorem Value.spansOfAll_eq (values : List Value) :
    Value.spansOfAll values = values.flatMap Value.spans := by
  -- Induction on the values; the spans of a list are gathered by a recursion of their own.
  induction values with
  | nil => rfl
  | cons value values ih => rw [Value.spansOfAll, ih, List.flatMap_cons]

mutual

/-- A walk over a value meets all its places. -/
theorem Value.spans_walk : ∀ (value : Value) (depth : Nat),
    (value.walk depth).flatMap (·.2.spans) = value.spans
  -- Mutual recursion with the lists of values: a value gives its own span and those of its items.
  | .string _ _, _ | .number _ _ _, _ | .boolean _ _, _ => by
    simp [Value.walk, Item.spans, Item.span, Value.span, Value.spans]
  | .list items _, depth => by
    rw [Value.walk, List.flatMap_cons, Value.spans_walkAll items (depth + 1)]
    rfl

/-- A walk over several values meets all their places. -/
theorem Value.spans_walkAll : ∀ (values : List Value) (depth : Nat),
    (Value.walkAll depth values).flatMap (·.2.spans) = Value.spansOfAll values
  | [], _ => rfl
  | value :: values, depth => by
    simp [Value.walkAll, Value.spansOfAll, Value.spans_walk value depth,
      Value.spans_walkAll values depth]

end

/-- A walk over an expression meets all its places. -/
theorem Node.spans_walk (node : Node) (depth : Nat) :
    (node.walk depth).flatMap (·.2.spans) = node.spans := by
  -- Induction on the expression: the walk meets the same parts in the same order.
  induction node generalizing depth with
  | comparison field operator value span =>
    rw [Node.walk, List.flatMap_cons, Value.spans_walk]
    rfl
  | logical operator left right span ihLeft ihRight =>
    rw [Node.walk, List.flatMap_cons, List.flatMap_append, ihLeft, ihRight]
    rfl
  | negation expression span ih =>
    rw [Node.walk, List.flatMap_cons, ih]
    rfl

mutual

/-- A value that was put at a place has no other. -/
theorem Value.spans_relocate (span : Span) :
    ∀ value : Value, ∀ place ∈ (value.relocate (some span)).spans, place = span
  -- Mutual recursion with the lists of values; no span of the parts is kept.
  | .string _ _ | .number _ _ _ | .boolean _ _ => by simp [Value.relocate, Value.spans]
  | .list items _ => by
    have inside := Value.spansOfAll_relocateAll span items
    simpa [Value.relocate, Value.spans] using inside

/-- Values that were put at a place have no other. -/
theorem Value.spansOfAll_relocateAll (span : Span) : ∀ values : List Value,
    ∀ place ∈ Value.spansOfAll (Value.relocateAll (some span) values), place = span
  | [] => by simp [Value.relocateAll, Value.spansOfAll]
  | value :: values => by
    rw [Value.relocateAll, Value.spansOfAll, List.forall_mem_append]
    exact ⟨Value.spans_relocate span value, Value.spansOfAll_relocateAll span values⟩

end

/-- An expression that was put at a place has no other. -/
theorem Node.spans_relocate (span : Span) (node : Node) :
    ∀ place ∈ (node.relocate (some span)).spans, place = span := by
  -- Induction on the expression; no span of the parts is kept.
  induction node with
  | comparison field operator value _ =>
    simpa [Node.relocate, Node.spans] using Value.spans_relocate span value
  | logical operator left right _ ihLeft ihRight =>
    rw [Node.relocate, Node.spans, List.forall_mem_append, List.forall_mem_append]
    exact ⟨by simp, ihLeft, ihRight⟩
  | negation expression _ ih =>
    rw [Node.relocate, Node.spans, List.forall_mem_append]
    exact ⟨by simp, ih⟩

/-- All reports point at places that satisfy a condition. -/
def PointAt (holds : Span → Prop) (reports : List Diagnostic) : Prop :=
  ∀ report ∈ reports, holds report.span

namespace PointAt

variable {holds : Span → Prop}

/-- No report points anywhere. -/
theorem nil : PointAt holds [] := by
  simp [PointAt]

/-- One report points at its place. -/
theorem error (origin : Origin) (code : DiagnosticCode) (message : String) {span : Span}
    (placed : holds span) : PointAt holds [.error origin code message span] := by
  simpa [PointAt, Diagnostic.error] using placed

/-- Two lists of reports point where each of them does. -/
theorem append {left right : List Diagnostic} (first : PointAt holds left)
    (second : PointAt holds right) : PointAt holds (left ++ right) :=
  List.forall_mem_append.mpr ⟨first, second⟩

/-- Either of two lists of reports points where both do. -/
theorem ite {condition : Prop} [Decidable condition] {left right : List Diagnostic}
    (first : PointAt holds left) (second : PointAt holds right) :
    PointAt holds (if condition then left else right) := by
  -- Whichever way the condition goes, one of the two lists is given.
  split
  · exact first
  · exact second

end PointAt

section Checks

variable {holds : Span → Prop}

/-- The reports on a scalar point at it, or at the comparison. -/
theorem scalarReports_pointAt (field : Field) {whenUnplaced : Span} {value : Value}
    (otherwise : holds whenUnplaced) (placed : ∀ span ∈ value.spans, holds span) :
    PointAt holds (scalarReports field whenUnplaced value) := by
  have own : holds (value.span.getD whenUnplaced) := by
    cases place : value.span with
    | none => exact otherwise
    | some span =>
      -- The place of a value is one of the places in it.
      refine placed span ?_
      cases value <;> simp_all [Value.span, Value.spans]
  unfold scalarReports
  refine .ite ?_ (.error _ _ _ own)
  split
  · unfold enumReports
    split
    · exact .nil
    · exact .ite .nil (.error _ _ _ own)
  · exact .nil

/-- The reports on a value point at a part of it, or at the comparison. -/
theorem valueReports_pointAt (field : Field) (operator : String) {span : Span} {value : Value}
    (whole : holds span) (placed : ∀ place ∈ value.spans, holds place) :
    PointAt holds (valueReports field operator span value) := by
  -- Reports about a list as a whole point at the list if it has a place, else at the comparison.
  unfold valueReports
  split
  · rename_i items listSpan
    rw [Value.spans, Value.spansOfAll_eq, List.forall_mem_append] at placed
    have list : holds (listSpan.getD span) := by
      cases listSpan with
      | none => exact whole
      | some place => exact placed.1 place (by simp)
    refine .append (.append (.ite .nil (.error _ _ _ whole)) (.ite (.error _ _ _ list) .nil)) ?_
    intro report member
    -- Each other report is about one item.
    obtain ⟨item, among, reported⟩ := List.mem_flatMap.mp member
    exact scalarReports_pointAt field whole
      (fun place inside => placed.2 place (List.mem_flatMap.mpr ⟨item, among, inside⟩))
      report reported
  · exact .append (.ite (.error _ _ _ whole) .nil) (scalarReports_pointAt field whole placed)

/-- The reports of typing point at parts of the expression, or at the start. -/
theorem typingReports_pointAt (language : Language) {node : Node} (start : holds (.empty 0))
    (placed : ∀ span ∈ node.spans, holds span) : PointAt holds (typingReports language node) := by
  induction node with
  | comparison field operator value span =>
    rw [Node.spans, List.forall_mem_append, List.forall_mem_append] at placed
    obtain ⟨⟨named, own⟩, inside⟩ := placed
    simp only [Option.mem_toList] at named own
    -- Field and comparison stand in for each other, and the start for both.
    have fieldPlace : holds ((field.span.or span).getD (.empty 0)) := by
      cases place : field.span with
      | some found => simpa using named found place
      | none =>
        cases span with
        | some found => simpa using own found rfl
        | none => exact start
    have place : holds (span.getD ((field.span.or span).getD (.empty 0))) := by
      cases span with
      | some found => exact own found rfl
      | none => exact fieldPlace
    unfold typingReports comparisonReports
    split
    · exact .error _ _ _ fieldPlace
    · exact .append (.ite .nil (.error _ _ _ place)) (valueReports_pointAt _ _ place inside)
  | logical operator left right span ihLeft ihRight =>
    rw [Node.spans, List.forall_mem_append, List.forall_mem_append] at placed
    exact .append (ihLeft placed.2.1) (ihRight placed.2.2)
  | negation expression span ih =>
    rw [Node.spans, List.forall_mem_append] at placed
    exact ih placed.2

/-- A span that is shown is the start, or one that was given and is a range of the query. -/
theorem displaySpan_holds {length : Nat} {span : Option Span} (start : holds (.empty 0))
    (placed : ∀ place ∈ span, place.fits length = true → holds place) :
    holds (displaySpan length span) := by
  -- A span that does not fit the text is not shown.
  fun_cases displaySpan length span with
  | case1 span fits => exact placed span rfl fits
  | case2 span wrong => exact start
  | case3 => exact start

/-- A wrong span is reported at the start. -/
theorem spanReports_pointAt (length : Nat) (span : Option Span) (start : holds (.empty 0)) :
    PointAt holds (spanReports length span) := by
  -- A wrong span cannot be pointed at, so the start of the text is.
  cases span with
  | none => exact .nil
  | some span => exact .ite .nil (.error _ _ _ start)

/-- The reports on an item point at it if it is a range of the query, and else at the start. -/
theorem itemReports_pointAt {limits : Limits} {length : Nat} {items : List (Nat × Item)}
    (start : holds (.empty 0))
    (placed : ∀ entry ∈ items, ∀ span ∈ entry.2.span, span.fits length = true → holds span)
    (reported : Bool) : PointAt holds (itemReports limits length reported items) := by
  -- Induction on the walk: each entry reports at its own span or at the start.
  induction items generalizing reported with
  | nil => exact .nil
  | cons entry rest ih =>
    obtain ⟨depth, item⟩ := entry
    rw [List.forall_mem_cons] at placed
    have shown := displaySpan_holds start placed.1
    -- Only comparisons and lists have content of their own to report.
    have content : PointAt holds (contentReports limits length item) := by
      unfold contentReports
      split
      · exact .append (spanReports_pointAt _ _ start) (.ite (.error _ _ _ shown) .nil)
      · exact .ite (.error _ _ _ shown) .nil
      · exact .nil
    exact .append (.append (.append (.ite (.error _ _ _ shown) .nil)
      (spanReports_pointAt _ _ start)) content) (ih placed.2 _)

/-- The reports of the structural checks point at parts within the query, or at the start. -/
theorem structureReports_pointAt (config : Config) {envelope : Envelope}
    (start : holds (.empty 0))
    (placed : ∀ span ∈ envelope.root.spans,
      span.fits (byteSize envelope.rawQuery) = true → holds span) :
    PointAt holds (structureReports config envelope) := by
  -- The walk meets every span of the root, so each entry's own span is one of them.
  have items : ∀ entry ∈ envelope.root.items, ∀ span ∈ entry.2.span,
      span.fits (byteSize envelope.rawQuery) = true → holds span := by
    intro entry member span own
    refine placed span ?_
    rw [← Node.spans_walk envelope.root 1]
    exact List.mem_flatMap.mpr ⟨entry, member, Item.mem_spans own⟩
  have noted : PointAt holds ((envelope.metadata.map (metadataReports config)).getD []) := by
    cases envelope.metadata with
    | none => exact .nil
    | some metadata =>
      exact .append (.ite .nil (.error _ _ _ start)) (.ite (.error _ _ _ start) .nil)
  -- The remaining checks are about the envelope as a whole and point at its start.
  have one : ∀ {condition : Prop} [Decidable condition] code message,
      PointAt holds (if condition then [structureError code message (.empty 0)] else []) :=
    fun code message => .ite (.error _ _ _ start) .nil
  refine .append (.append (.append (.append (.append ?_ (one _ _)) (one _ _)) ?_) (one _ _)) noted
  · exact .ite .nil (.error _ _ _ start)
  · exact itemReports_pointAt start items false

end Checks

/-- All places in an envelope that passes the structural checks are ranges of its query. -/
theorem fits_of_structureReports {config : Config} {envelope : Envelope}
    (clean : structureReports config envelope = []) :
    ∀ span ∈ envelope.root.spans, span.fits (byteSize envelope.rawQuery) = true := by
  have kept := (limits_of_structureReports clean).2.1
  -- A span is passed over in silence only if it is a range.
  have silent : ∀ {place : Option Span}, spanReports (byteSize envelope.rawQuery) place = [] →
      ∀ span ∈ place, span.fits (byteSize envelope.rawQuery) = true := by
    rintro place quiet span rfl
    simpa [spanReports] using quiet
  intro span recorded
  rw [← Node.spans_walk envelope.root 1] at recorded
  obtain ⟨⟨depth, item⟩, member, inside⟩ := List.mem_flatMap.mp recorded
  obtain ⟨-, placed, content⟩ := kept (depth, item) member
  dsimp only at inside placed content
  unfold Item.spans at inside
  split at inside
  · -- The place of the field is checked with what the comparison holds.
    rcases List.mem_append.mp inside with named | own
    · exact silent (List.append_eq_nil_iff.mp content).1 span (Option.mem_toList.mp named)
    · exact silent placed span (Option.mem_toList.mp own)
  · exact silent placed span (Option.mem_toList.mp inside)

end FilterLang
