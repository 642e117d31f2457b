import FilterLang.Proofs.Compile.Typed

/-! The typing checks report exactly what the language objects to. -/

namespace FilterLang

/-- A comparison of an expression. -/
structure Comparison where
  field : FieldRef
  operator : String
  value : Value
  span : Option Span

/-- The comparisons of an expression, from left to right. -/
def Node.comparisons : Node → List Comparison
  | .comparison field operator value span => [⟨field, operator, value, span⟩]
  | .logical _ left right _ => left.comparisons ++ right.comparisons
  | .negation expression _ => expression.comparisons

/-- The field that a name stands for is the first one declared by it. -/
def Language.Declares (language : Language) (name : String) (field : Field) : Prop :=
  ∃ before after, language.fields = before ++ field :: after ∧ field.name = name ∧
    ∀ other ∈ before, other.name ≠ name

/-- An operator that a field takes: one of its own, or of its type's if it has none of its own. -/
inductive Language.Offers (language : Language) (field : Field) (operator : String) : Prop where
  | own {operators : List String} (overriding : field.operators = some operators)
      (member : operator ∈ operators)
  | ofType {operators : List String} (plain : field.operators = none)
      (listed : language.operatorsByType.get? field.type = some operators)
      (member : operator ∈ operators)

/-- A value is a scalar of a type; a list is of none. -/
inductive Value.IsOf : Value → FieldType → Prop where
  | string (text : String) (span : Option Span) : IsOf (.string text span) .string
  | number (double : Binary64) (raw : String) (span : Option Span) :
      IsOf (.number double raw span) .number
  | boolean (truth : Bool) (span : Option Span) : IsOf (.boolean truth span) .boolean

/-- Something the language may object to, with the code that it is reported under. -/
structure Objection where
  code : DiagnosticCode
  holds : Prop

/-- What a field may object to in one scalar: its type, and only then its text. -/
def Field.objections (field : Field) (item : Value) : List Objection :=
  [⟨.typeMismatch, ¬ item.IsOf field.type⟩,
    ⟨.invalidEnumValue, item.IsOf field.type ∧ ∃ text span texts,
      item = .string text span ∧ field.enumValues = some texts ∧ text ∉ texts⟩]

/-- What the language may object to in a comparison of a declared field, in order. -/
def Comparison.objections (language : Language) (field : Field) (comparison : Comparison) :
    List Objection :=
  ⟨.unsupportedOperator, ¬ language.Offers field comparison.operator⟩ ::
    match comparison.value with
    | .list items _ =>
      ⟨.listOperatorMismatch, comparison.operator ≠ "IN" ∧ comparison.operator ≠ "NOT IN"⟩ ::
        ⟨.emptyList, items = []⟩ :: items.flatMap field.objections
    | scalar =>
      ⟨.scalarOperatorMismatch, comparison.operator = "IN" ∨ comparison.operator = "NOT IN"⟩ ::
        field.objections scalar

/-- The codes of those objections that hold, in their order. -/
inductive Raised : List Objection → List DiagnosticCode → Prop where
  | nil : Raised [] []
  | holds {objection : Objection} {objections : List Objection} {codes : List DiagnosticCode}
      (stands : objection.holds) (more : Raised objections codes) :
      Raised (objection :: objections) (objection.code :: codes)
  | fails {objection : Objection} {objections : List Objection} {codes : List DiagnosticCode}
      (falls : ¬ objection.holds) (more : Raised objections codes) :
      Raised (objection :: objections) codes

/-- The codes that a comparison draws. -/
inductive Comparison.Draws (language : Language) (comparison : Comparison) :
    List DiagnosticCode → Prop where
  -- Nothing else can be said of a field that is not declared.
  | undeclared (absent : ∀ field ∈ language.fields, field.name ≠ comparison.field.name) :
      Draws language comparison [.unknownField]
  | declared {field : Field} {codes : List DiagnosticCode}
      (declares : language.Declares comparison.field.name field)
      (raised : Raised (comparison.objections language field) codes) :
      Draws language comparison codes

namespace Raised

variable {objections : List Objection} {codes : List DiagnosticCode}

/-- Which objections hold does not depend on how they were gone through. -/
theorem unique {others : List DiagnosticCode} (one : Raised objections codes)
    (other : Raised objections others) : codes = others := by
  -- Induction on the first derivation: at each objection the other one has to go the same way.
  induction one generalizing others with
  | nil =>
    cases other
    rfl
  | holds stands more ih =>
    cases other with
    | holds _ rest => rw [ih rest]
    | fails falls _ => exact absurd stands falls
  | fails falls more ih =>
    cases other with
    | holds stands _ => exact absurd stands falls
    | fails _ rest => exact ih rest

/-- The objections of two tables one after the other. -/
theorem append {later : List Objection} {others : List DiagnosticCode}
    (first : Raised objections codes) (second : Raised later others) :
    Raised (objections ++ later) (codes ++ others) := by
  -- Induction on the derivation for the earlier objections.
  induction first with
  | nil => exact second
  | holds stands _ ih => exact .holds stands ih
  | fails falls _ ih => exact .fails falls ih

/-- The objections of a table for each of several inputs. -/
theorem flatMap {α : Type} {table : α → List Objection} {drawn : α → List DiagnosticCode}
    (each : ∀ input, Raised (table input) (drawn input)) (inputs : List α) :
    Raised (inputs.flatMap table) (inputs.flatMap drawn) := by
  -- Induction on the inputs, each with its own table.
  induction inputs with
  | nil => exact .nil
  | cons input inputs ih => exact (each input).append ih

/-- The codes that are raised are those of the objections that hold. -/
theorem mem_iff (raised : Raised objections codes) {code : DiagnosticCode} :
    code ∈ codes ↔ ∃ objection ∈ objections, objection.holds ∧ objection.code = code := by
  -- Induction on the derivation: a code is raised where its objection holds.
  induction raised with
  | nil => simp
  | holds stands more ih => simp [ih, stands, eq_comm]
  | fails falls more ih => simp [ih, falls]

/-- No code is drawn exactly when no objection holds. -/
theorem nil_iff : Raised objections [] ↔ ∀ objection ∈ objections, ¬ objection.holds := by
  -- Nothing is raised where no objection holds.
  constructor
  · intro silent objection own stands
    exact List.not_mem_nil (silent.mem_iff.mpr ⟨objection, own, stands, rfl⟩)
  · intro falls
    -- Conversely each objection in turn falls.
    induction objections with
    | nil => exact .nil
    | cons objection objections ih =>
      rw [List.forall_mem_cons] at falls
      exact .fails falls.1 (ih falls.2)

end Raised

/-- The codes of reports. -/
abbrev codesOf (reports : List Diagnostic) : List DiagnosticCode :=
  reports.map (·.code)

section Checks

variable {code : DiagnosticCode} {condition stands : Prop} [Decidable condition]

/-- What is reported only if a condition holds raises the objection that stands on it. -/
theorem raised_when (message : String) (span : Span) (same : condition ↔ stands) :
    Raised [⟨code, stands⟩]
      (codesOf (if condition then [typingError code message span] else [])) := by
  -- The report is made exactly if the condition holds.
  split
  · rename_i holds
    exact .holds (same.mp holds) .nil
  · rename_i fails
    exact .fails (fun stands => fails (same.mpr stands)) .nil

/-- What is reported unless a condition holds raises the objection that it fails. -/
theorem raised_unless (message : String) (span : Span) (same : condition ↔ ¬ stands) :
    Raised [⟨code, stands⟩]
      (codesOf (if condition then [] else [typingError code message span])) := by
  -- The report is made exactly if the condition fails, so the objection is twice negated.
  split
  · rename_i fails
    exact .fails (same.mp fails) .nil
  · rename_i holds
    exact .holds (Classical.not_not.mp fun falls => holds (same.mpr falls)) .nil

end Checks

/-- The check for a type accepts exactly the scalars of the type. -/
theorem Value.hasType_iff_isOf {value : Value} {type : FieldType} :
    value.hasType type = true ↔ value.IsOf type := by
  constructor
  · intro accepted
    -- Each accepted pair is one of the three forms.
    unfold Value.hasType at accepted
    split at accepted
    · exact .string _ _
    · exact .number _ _ _
    · exact .boolean _ _
    · cases accepted
  · rintro (_ | _ | _) <;> rfl

/-- The first field with a name is the one declared by it. -/
theorem Language.field?_eq_some_iff {language : Language} {name : String} {field : Field} :
    language.field? name = some field ↔ language.Declares name field := by
  -- The first field of the name is found: none of the fields before it has that name.
  rw [Language.field?, List.find?_eq_some_iff_append, Language.Declares]
  simp only [beq_iff_eq, Bool.not_eq_true', beq_eq_false_iff_ne]
  constructor
  · rintro ⟨named, before, after, same, others⟩
    exact ⟨before, after, same, named, others⟩
  · rintro ⟨before, after, same, named, others⟩
    exact ⟨named, before, after, same, others⟩

/-- A name stands for no field exactly when none is declared by it. -/
theorem Language.field?_eq_none_iff {language : Language} {name : String} :
    language.field? name = none ↔ ∀ field ∈ language.fields, field.name ≠ name := by
  simp [Language.field?]

/-- The operators of a field are those that it takes. -/
theorem Language.contains_operatorsFor_iff {language : Language} {field : Field}
    {operator : String} :
    (language.operatorsFor field).contains operator = true ↔ language.Offers field operator := by
  -- Operators of the field's own take precedence over those of its type.
  rw [List.contains_iff_mem, mem_operatorsFor_iff]
  constructor
  · rintro ⟨own, listed⟩
    cases overriding : field.operators with
    | some operators => exact .own overriding (own operators overriding)
    | none =>
      obtain ⟨operators, same, member⟩ := listed overriding
      exact .ofType overriding same member
  · rintro (⟨overriding, member⟩ | ⟨plain, listed, member⟩)
    · simp [overriding, member]
    · simp [plain, listed, member]

/-- The reports on a text are the enumeration's objection to it, if it is of the type. -/
theorem enumReports_raised {field : Field} {text : String} {place : Option Span}
    (typed : (Value.string text place).IsOf field.type) (span : Span) :
    Raised [⟨.invalidEnumValue, (Value.string text place).IsOf field.type ∧ ∃ said shown texts,
      Value.string text place = .string said shown ∧ field.enumValues = some texts ∧
        said ∉ texts⟩] (codesOf (enumReports field text span)) := by
  -- Without a list of values there is nothing to be outside of.
  unfold enumReports
  cases enumerated : field.enumValues with
  | none =>
    refine .fails ?_ .nil
    rintro ⟨-, _, _, _, -, ⟨⟩, -⟩
  | some texts =>
    -- A text outside of the list is the one way to be reported.
    refine raised_unless _ _ ?_
    rw [List.contains_iff_mem]
    constructor
    · rintro member ⟨-, _, _, _, ⟨⟩, ⟨⟩, outside⟩
      exact outside member
    · intro falls
      by_contra outside
      exact falls ⟨typed, text, place, texts, rfl, rfl, outside⟩

/-- The reports on a scalar are the field's objections to it. -/
theorem scalarReports_raised (field : Field) (span : Span) (value : Value) :
    Raised (field.objections value) (codesOf (scalarReports field span value)) := by
  unfold scalarReports
  by_cases accepted : value.hasType field.type = true
  · have typed := Value.hasType_iff_isOf.mp accepted
    simp only [accepted, if_true]
    refine .fails (fun mistyped => mistyped typed) ?_
    -- Only a text can be outside of an enumeration.
    cases value with
    | string text place => exact enumReports_raised typed _
    | number double raw place =>
      refine .fails ?_ .nil
      rintro ⟨-, _, _, _, ⟨⟩, -⟩
    | boolean truth place =>
      refine .fails ?_ .nil
      rintro ⟨-, _, _, _, ⟨⟩, -⟩
    | list items place => cases typed
  · have mistyped : ¬ value.IsOf field.type :=
      fun typed => accepted (Value.hasType_iff_isOf.mpr typed)
    simp only [accepted]
    exact .holds mistyped (.fails (fun both => mistyped both.1) .nil)

/-- The reports on a declared field's comparison are the language's objections to it. -/
theorem declaredReports_raised (language : Language) (field : Field) (comparison : Comparison)
    (message : String) (span : Span) :
    Raised (comparison.objections language field)
      (codesOf ((if (language.operatorsFor field).contains comparison.operator then []
        else [typingError .unsupportedOperator message span]) ++
        valueReports field comparison.operator span comparison.value)) := by
  obtain ⟨ref, operator, value, place⟩ := comparison
  have offered : (language.operatorsFor field).contains operator = true ↔
      ¬ ¬ language.Offers field operator := by
    rw [Classical.not_not, Language.contains_operatorsFor_iff]
  -- A scalar is checked after the kind of its operator.
  have scalar (value : Value) : Raised (⟨.scalarOperatorMismatch,
      operator = "IN" ∨ operator = "NOT IN"⟩ :: field.objections value)
      (codesOf ((if isListOperator operator then
        [typingError .scalarOperatorMismatch s!"'{operator}' needs a list value" span]
        else []) ++ scalarReports field span value)) := by
    rw [codesOf, List.map_append]
    exact (raised_when _ span isListOperator_iff).append (scalarReports_raised field span value)
  rw [codesOf, List.map_append]
  refine (raised_unless message span offered).append ?_
  cases value with
  | list items listPlace =>
    have membership : isListOperator operator = true ↔
        ¬ (operator ≠ "IN" ∧ operator ≠ "NOT IN") := by
      rw [isListOperator_iff, not_and_or, Classical.not_not, Classical.not_not]
    simp only [valueReports, List.append_assoc, List.map_append, List.map_flatMap]
    exact (raised_unless _ span membership).append
      ((raised_when _ _ List.isEmpty_iff).append (.flatMap (scalarReports_raised field span) items))
  | string text textPlace => exact scalar _
  | number double raw numberPlace => exact scalar _
  | boolean truth truthPlace => exact scalar _

namespace Comparison

variable {language : Language} {comparison : Comparison}

/-- The reports on a comparison. -/
def reports (language : Language) (comparison : Comparison) : List Diagnostic :=
  comparisonReports language comparison.field comparison.operator comparison.value comparison.span

/-- The reports on a comparison are under the codes that it draws. -/
theorem draws_reports (language : Language) (comparison : Comparison) :
    comparison.Draws language (codesOf (comparison.reports language)) := by
  -- A comparison is reported for its undeclared field or for what its declared one objects to.
  unfold reports comparisonReports
  cases found : language.field? comparison.field.name with
  | none => exact .undeclared (Language.field?_eq_none_iff.mp found)
  | some field =>
    exact .declared (Language.field?_eq_some_iff.mp found)
      (declaredReports_raised language field comparison _ _)

/-- A comparison draws nothing but its own codes. -/
theorem Draws.unique {codes others : List DiagnosticCode} (one : comparison.Draws language codes)
    (other : comparison.Draws language others) : codes = others := by
  -- A name cannot be both declared and not, and has one first declaration.
  cases one with
  | undeclared absent =>
    cases other with
    | undeclared _ => rfl
    | declared declares _ =>
      have found := Language.field?_eq_some_iff.mpr declares
      rw [Language.field?_eq_none_iff.mpr absent] at found
      cases found
  | declared declares raised =>
    have found := Language.field?_eq_some_iff.mpr declares
    cases other with
    | undeclared absent =>
      rw [Language.field?_eq_none_iff.mpr absent] at found
      cases found
    | declared again others =>
      have same := found.symm.trans (Language.field?_eq_some_iff.mpr again)
      obtain rfl := Option.some.inj same
      exact raised.unique others

/-- The codes that a comparison draws are those of its reports and no others. -/
theorem draws_iff {codes : List DiagnosticCode} :
    comparison.Draws language codes ↔ codes = codesOf (comparison.reports language) := by
  -- What is drawn is unique, so it is what is reported.
  constructor
  · intro draws
    exact draws.unique (draws_reports language comparison)
  · rintro rfl
    exact draws_reports language comparison

/-- A comparison draws no code exactly when its field is declared and no objection holds. -/
theorem draws_nil_iff : comparison.Draws language [] ↔
    ∃ field, language.Declares comparison.field.name field ∧
      ∀ objection ∈ comparison.objections language field, ¬ objection.holds := by
  -- An undeclared field draws a code, so silence has a declared field.
  constructor
  · rintro (_ | ⟨declares, raised⟩)
    exact ⟨_, declares, Raised.nil_iff.mp raised⟩
  · rintro ⟨field, declares, falls⟩
    exact .declared declares (Raised.nil_iff.mpr falls)

end Comparison

/-- The reports on an expression are those on its comparisons, from left to right. -/
theorem typingReports_eq_flatMap (language : Language) (node : Node) :
    typingReports language node = node.comparisons.flatMap (Comparison.reports language) := by
  -- Induction on the expression; both go through the left side before the right.
  induction node with
  | comparison field operator value span =>
    simp [typingReports, Node.comparisons, Comparison.reports]
  | logical connective left right span ihLeft ihRight =>
    rw [typingReports, ihLeft, ihRight, Node.comparisons, List.flatMap_append]
  | negation expression span ih => exact ih

/-- What each of several comparisons draws is what is reported on it. -/
theorem forall₂_draws_iff {language : Language} {comparisons : List Comparison}
    {parts : List (List DiagnosticCode)} :
    List.Forall₂ (Comparison.Draws language) comparisons parts ↔
      parts = comparisons.map fun comparison => codesOf (comparison.reports language) := by
  -- Induction on the comparisons; each draws exactly one list of codes.
  induction comparisons generalizing parts with
  | nil => simp
  | cons comparison comparisons ih =>
    rw [List.forall₂_cons_left_iff]
    constructor
    · rintro ⟨codes, more, draws, rest, rfl⟩
      rw [Comparison.draws_iff.mp draws, ih.mp rest, List.map_cons]
    · rintro rfl
      exact ⟨_, _, comparison.draws_reports language, ih.mpr rfl, rfl⟩

/-- Nothing is reported on an expression exactly when its comparisons draw nothing. -/
theorem typingReports_eq_nil_iff_draws {language : Language} {node : Node} :
    typingReports language node = [] ↔
      ∀ comparison ∈ node.comparisons, comparison.Draws language [] := by
  -- All reports are gone when those of each comparison are.
  rw [typingReports_eq_flatMap, List.flatMap_eq_nil_iff]
  refine forall₂_congr fun comparison _ => ?_
  rw [Comparison.draws_iff, eq_comm (a := []), List.map_eq_nil_iff]

/--
The typing checks report exactly what the language objects to.

All reports are of errors. Their codes are what the comparisons draw, one comparison after the
other from left to right. Only an expression with no objection to any comparison has no errors.
-/
theorem typingReports_exact (language : Language) (root : Node) :
    (∀ report ∈ typingReports language root,
      report.severity = .error ∧ report.origin = .semantic) ∧
    (∀ codes, (typingReports language root).map (·.code) = codes ↔
      ∃ parts, List.Forall₂ (Comparison.Draws language) root.comparisons parts ∧
        codes = parts.flatten) ∧
    (hasErrors (typingReports language root) = false ↔
      ∀ comparison ∈ root.comparisons, ∃ field,
        language.Declares comparison.field.name field ∧
        ∀ objection ∈ comparison.objections language field, ¬ objection.holds) := by
  -- The reports are errors, so there are none of them exactly if there is no report.
  have errors := allErrorsIn_typingReports language root
  refine ⟨errors, fun codes => ?_, ?_⟩
  · rw [typingReports_eq_flatMap, List.map_flatMap]
    simp only [forall₂_draws_iff, exists_eq_left, List.flatMap_def]
    exact eq_comm
  · rw [errors.allErrors.hasErrors_eq_false_iff, typingReports_eq_nil_iff_draws]
    exact forall₂_congr fun comparison _ => Comparison.draws_nil_iff

end FilterLang
