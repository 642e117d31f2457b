import FilterLang.Compile
import FilterLang.Proofs.Ast.Structure
import Mathlib.Data.List.Forall2

/-! Only what the language allows is compiled, wherever the envelope comes from. -/

namespace FilterLang

/-- An executable value is the image of a value: the same literals in the same lists. -/
inductive IrValue.Mirrors : IrValue → Value → Prop where
  | string (text : String) (span : Option Span) : Mirrors (.string text) (.string text span)
  | number (double : Binary64) (raw : String) (span : Option Span) :
      Mirrors (.number double) (.number double raw span)
  | boolean (truth : Bool) (span : Option Span) : Mirrors (.boolean truth) (.boolean truth span)
  | list {images : List IrValue} {items : List Value} (span : Option Span)
      (each : List.Forall₂ Mirrors images items) : Mirrors (.list images) (.list items span)

/-- An executable form is the image of an expression: the same tree over the same comparisons. -/
inductive Ir.Mirrors : Ir → Node → Prop where
  | comparison {image : IrValue} {value : Value} (field : FieldRef) (operator : String)
      (span : Option Span) (same : image.Mirrors value) :
      Mirrors (.comparison field.name operator image) (.comparison field operator value span)
  | logical {first second : Ir} {left right : Node} (connective : Connective)
      (span : Option Span) (sameLeft : Mirrors first left) (sameRight : Mirrors second right) :
      Mirrors (.logical connective first second) (.logical connective left right span)
  | negation {image : Ir} {expression : Node} (span : Option Span)
      (same : Mirrors image expression) :
      Mirrors (.negation image) (.negation expression span)

mutual

/-- Lowering a value gives its image. -/
theorem Value.mirrors_lower : ∀ value : Value, value.lower.Mirrors value
  -- Mutual recursion with the lists of values; lowering goes the same way.
  | .string text span => .string text span
  | .number double raw span => .number double raw span
  | .boolean truth span => .boolean truth span
  | .list items span => .list span (Value.mirrors_lowerAll items)

/-- Lowering several values gives their images. -/
theorem Value.mirrors_lowerAll :
    ∀ values : List Value, List.Forall₂ IrValue.Mirrors (Value.lowerAll values) values
  | [] => .nil
  | value :: values => .cons (Value.mirrors_lower value) (Value.mirrors_lowerAll values)

end

/-- Lowering an expression gives its image. -/
theorem Node.mirrors_lower (node : Node) : node.lower.Mirrors node := by
  -- Induction on the expression: lowering keeps its form.
  induction node with
  | comparison field operator value span =>
    exact .comparison field operator span value.mirrors_lower
  | logical connective left right span ihLeft ihRight =>
    exact .logical connective span ihLeft ihRight
  | negation expression span ih => exact .negation span ih

/-- A comparison of an executable form. -/
structure IrComparison where
  field : String
  operator : String
  value : IrValue

/-- The comparisons of an executable form, from left to right. -/
def Ir.comparisons : Ir → List IrComparison
  | .comparison field operator value => [⟨field, operator, value⟩]
  | .logical _ left right => left.comparisons ++ right.comparisons
  | .negation expression => expression.comparisons

namespace IrValue

/-- A scalar is of a type; a list is of none. -/
inductive HasType : IrValue → FieldType → Prop where
  | string (text : String) : HasType (.string text) .string
  | number (double : Binary64) : HasType (.number double) .number
  | boolean (truth : Bool) : HasType (.boolean truth) .boolean

/-- What a value is made of: the items of a list, or a scalar itself. -/
def parts : IrValue → List IrValue
  | .list items => items
  | value => [value]

/-- A value goes with an operator on a field of a type. -/
inductive Suits (type : FieldType) (operator : String) : IrValue → Prop where
  | scalar {value : IrValue} (typed : value.HasType type) (notIn : operator ≠ "IN")
      (notNotIn : operator ≠ "NOT IN") : Suits type operator value
  | list {items : List IrValue} (filled : items ≠ []) (typed : ∀ item ∈ items, item.HasType type)
      (membership : operator = "IN" ∨ operator = "NOT IN") : Suits type operator (.list items)

end IrValue

/-- A declared field takes an operator with a value. -/
structure Field.Takes (language : Language) (field : Field) (operator : String)
    (value : IrValue) : Prop where
  /-- The field's own operators replace those of its type. -/
  own : ∀ operators, field.operators = some operators → operator ∈ operators
  listed : field.operators = none →
    ∃ operators, language.operatorsByType.get? field.type = some operators ∧ operator ∈ operators
  suits : value.Suits field.type operator
  enumerated : ∀ texts, field.enumValues = some texts →
    ∀ text, .string text ∈ value.parts → text ∈ texts

/-- The language allows a comparison: the first declaration of its field takes it. -/
def Language.Allows (language : Language) (comparison : IrComparison) : Prop :=
  ∃ field, language.field? comparison.field = some field ∧
    field.Takes language comparison.operator comparison.value

/-- Several values are lowered one by one. -/
theorem Value.lowerAll_eq_map (items : List Value) :
    Value.lowerAll items = items.map Value.lower := by
  -- Induction on the items; lists are lowered by a recursion of their own.
  induction items with
  | nil => rfl
  | cons item items ih => rw [Value.lowerAll, ih, List.map_cons]

/-- The check for a type accepts exactly the scalars of the type. -/
theorem Value.hasType_iff {value : Value} {type : FieldType} :
    value.hasType type = true ↔ value.lower.HasType type := by
  fun_cases Value.hasType value type with
  | case1 text span => exact iff_of_true rfl (.string text)
  | case2 double raw span => exact iff_of_true rfl (.number double)
  | case3 truth span => exact iff_of_true rfl (.boolean truth)
  | case4 value type notText notNumber notTruth =>
    -- The image of a value has at most the type that was already asked for.
    refine iff_of_false Bool.false_ne_true fun typed => ?_
    cases value with
    | string text span =>
      cases typed
      exact notText text span rfl rfl
    | number double raw span =>
      cases typed
      exact notNumber double raw span rfl rfl
    | boolean truth span =>
      cases typed
      exact notTruth truth span rfl rfl
    | list items span =>
      rw [Value.lower] at typed
      cases typed

/-- Nothing is reported on a text exactly when it is in the field's enumeration, if there is one. -/
theorem enumReports_eq_nil_iff {field : Field} {text : String} {span : Span} :
    enumReports field text span = [] ↔
      ∀ texts, field.enumValues = some texts → text ∈ texts := by
  -- Without a list of values nothing is reported.
  cases declared : field.enumValues with
  | none => simp [enumReports, declared]
  | some texts => simp [enumReports, declared]

/-- Nothing is reported on a scalar exactly when it is of the field's type and enumeration. -/
theorem scalarReports_eq_nil_iff {field : Field} {span : Span} {value : Value} :
    scalarReports field span value = [] ↔ value.lower.HasType field.type ∧
      ∀ texts, field.enumValues = some texts →
        ∀ text, .string text = value.lower → text ∈ texts := by
  -- A value of the wrong type is reported for that alone, without a look at the enumeration.
  unfold scalarReports
  rw [← Value.hasType_iff]
  cases accepted : value.hasType field.type with
  | false => simp
  | true =>
    simp only [if_true, true_and]
    cases value with
    | string text place => simp [enumReports_eq_nil_iff, Value.lower]
    | number double raw place => simp [Value.lower]
    | boolean truth place => simp [Value.lower]
    | list items place => simp [Value.lower]

/-- The operators that take lists are the two of membership. -/
theorem isListOperator_iff {operator : String} :
    isListOperator operator = true ↔ operator = "IN" ∨ operator = "NOT IN" := by
  simp [isListOperator]

/-- A list suits a membership operator if it has items, all of the type. -/
theorem IrValue.suits_list_iff {type : FieldType} {operator : String} {items : List IrValue} :
    Suits type operator (.list items) ↔ isListOperator operator = true ∧ items ≠ [] ∧
      ∀ item ∈ items, item.HasType type := by
  -- Of the two ways to suit, one is for lists.
  rw [isListOperator_iff]
  constructor
  · rintro (⟨⟨⟩, -, -⟩ | ⟨filled, typed, membership⟩)
    exact ⟨membership, filled, typed⟩
  · rintro ⟨membership, filled, typed⟩
    exact .list filled typed membership

/-- Anything else suits the other operators if it is of the type. -/
theorem IrValue.suits_scalar_iff {type : FieldType} {operator : String} {value : IrValue}
    (scalar : ∀ items, value ≠ .list items) :
    Suits type operator value ↔ isListOperator operator = false ∧ value.HasType type := by
  -- Of the two ways to suit, one is for scalars, and they have to keep away from membership.
  rw [← Bool.not_eq_true, isListOperator_iff, not_or]
  constructor
  · rintro (⟨typed, notIn, notNotIn⟩ | ⟨filled, typed, membership⟩)
    · exact ⟨⟨notIn, notNotIn⟩, typed⟩
    · exact absurd rfl (scalar _)
  · rintro ⟨⟨notIn, notNotIn⟩, typed⟩
    exact .scalar typed notIn notNotIn

/-- Nothing is reported on a value exactly when it suits the field and its operator. -/
theorem valueReports_eq_nil_iff {field : Field} {operator : String} {span : Span} {value : Value} :
    valueReports field operator span value = [] ↔ value.lower.Suits field.type operator ∧
      ∀ texts, field.enumValues = some texts →
        ∀ text, .string text ∈ value.lower.parts → text ∈ texts := by
  -- All scalars are checked in the same way.
  have scalar {value : Value} (single : ∀ items, value.lower ≠ .list items)
      (whole : value.lower.parts = [value.lower])
      (reports : valueReports field operator span value = (if isListOperator operator then
        [typingError .scalarOperatorMismatch s!"'{operator}' needs a list value" span]
        else []) ++ scalarReports field span value) :
      valueReports field operator span value = [] ↔ value.lower.Suits field.type operator ∧
        ∀ texts, field.enumValues = some texts →
          ∀ text, .string text ∈ value.lower.parts → text ∈ texts := by
    rw [reports, IrValue.suits_scalar_iff single, whole, List.append_eq_nil_iff,
      scalarReports_eq_nil_iff]
    simp only [ite_eq_right_iff, List.cons_ne_nil, imp_false, Bool.not_eq_true,
      List.mem_singleton, and_assoc]
  cases value with
  | list items place =>
    -- A list is checked as a whole, and then item by item.
    rw [valueReports, Value.lower, Value.lowerAll_eq_map, IrValue.suits_list_iff, IrValue.parts]
    simp only [List.append_eq_nil_iff, List.flatMap_eq_nil_iff, scalarReports_eq_nil_iff,
      ite_eq_left_iff, ite_eq_right_iff, List.cons_ne_nil, imp_false, not_not, List.isEmpty_iff,
      ne_eq, List.map_eq_nil_iff]
    constructor
    · rintro ⟨⟨membership, filled⟩, each⟩
      refine ⟨⟨membership, filled, ?_⟩, fun texts declared text member => ?_⟩
      · exact List.forall_mem_map.mpr fun item member => (each item member).1
      · obtain ⟨item, member, same⟩ := List.mem_map.mp member
        exact (each item member).2 texts declared text same.symm
    · rintro ⟨⟨membership, filled, typed⟩, enumerated⟩
      refine ⟨⟨membership, filled⟩, fun item member => ⟨?_, fun texts declared text same => ?_⟩⟩
      · exact typed _ (List.mem_map_of_mem member)
      · exact enumerated texts declared text (same ▸ List.mem_map_of_mem member)
  | string text place => exact scalar (by simp [Value.lower]) rfl rfl
  | number double raw place => exact scalar (by simp [Value.lower]) rfl rfl
  | boolean truth place => exact scalar (by simp [Value.lower]) rfl rfl

/-- An operator is among those of a field: its own, or else those listed for its type. -/
theorem mem_operatorsFor_iff {language : Language} {field : Field} {operator : String} :
    operator ∈ language.operatorsFor field ↔
      (∀ operators, field.operators = some operators → operator ∈ operators) ∧
      (field.operators = none → ∃ operators,
        language.operatorsByType.get? field.type = some operators ∧ operator ∈ operators) := by
  -- A type that is not in the table has no operators at all.
  unfold Language.operatorsFor
  cases field.operators with
  | some operators => simp
  | none =>
    cases language.operatorsByType.get? field.type with
    | some operators => simp
    | none => simp

/-- Nothing is reported on a comparison exactly when the language allows its image. -/
theorem comparisonReports_eq_nil_iff {language : Language} {field : FieldRef} {operator : String}
    {value : Value} {span : Option Span} :
    comparisonReports language field operator value span = [] ↔
      language.Allows ⟨field.name, operator, value.lower⟩ := by
  -- Both sides look up the same declaration, the first one with the name.
  unfold comparisonReports Language.Allows
  cases language.field? field.name with
  | none => simp
  | some declared =>
    simp only [List.append_eq_nil_iff, ite_eq_left_iff, List.cons_ne_nil, imp_false, not_not,
      List.contains_iff_mem, mem_operatorsFor_iff, valueReports_eq_nil_iff, Option.some.injEq,
      exists_eq_left']
    constructor
    · rintro ⟨⟨own, listed⟩, suits, enumerated⟩
      exact ⟨own, listed, suits, enumerated⟩
    · rintro ⟨own, listed, suits, enumerated⟩
      exact ⟨⟨own, listed⟩, suits, enumerated⟩

/-- Nothing is reported on an expression exactly when the language allows all its comparisons. -/
theorem typingReports_eq_nil_iff {language : Language} {node : Node} :
    typingReports language node = [] ↔
      ∀ comparison ∈ node.lower.comparisons, language.Allows comparison := by
  -- Induction on the expression; both sides are about its comparisons from left to right.
  induction node with
  | comparison field operator value span =>
    rw [typingReports, comparisonReports_eq_nil_iff]
    simp [Node.lower, Ir.comparisons]
  | logical connective left right span ihLeft ihRight =>
    rw [typingReports, List.append_eq_nil_iff, ihLeft, ihRight, ← List.forall_mem_append]
    rfl
  | negation expression span ih => exact ih

/-- Every report on a scalar is of an error. -/
@[simp] theorem allErrorsIn_scalarReports (field : Field) (span : Span) (value : Value) :
    AllErrorsIn .semantic (scalarReports field span value) := by
  -- Whatever is reported of a scalar, its enumeration included, is an error of typing.
  have enumerated : ∀ text place, AllErrorsIn .semantic (enumReports field text place) := by
    intro text place
    unfold enumReports
    split <;> simp [typingError]
  unfold scalarReports
  split
  · split <;> simp [enumerated]
  · simp [typingError]

/-- Every report on a comparison's value is of an error. -/
@[simp] theorem allErrorsIn_valueReports (field : Field) (operator : String) (span : Span)
    (value : Value) : AllErrorsIn .semantic (valueReports field operator span value) := by
  -- Reports about the items are reports about scalars.
  have items : ∀ items : List Value,
      AllErrorsIn .semantic (items.flatMap (scalarReports field span)) := by
    intro items report member
    obtain ⟨item, -, here⟩ := List.mem_flatMap.mp member
    exact allErrorsIn_scalarReports field span item report here
  unfold valueReports
  split <;> simp [typingError, items]

/-- Every report on an expression is of an error in its typing. -/
theorem allErrorsIn_typingReports (language : Language) (node : Node) :
    AllErrorsIn .semantic (typingReports language node) := by
  -- Induction on the expression; a comparison is reported for its field or for what it holds.
  induction node with
  | comparison field operator value span =>
    unfold typingReports comparisonReports
    cases language.field? field.name with
    | none => simp [typingError]
    | some declared => simp [typingError]
  | logical connective left right span ihLeft ihRight =>
    exact allErrorsIn_append.mpr ⟨ihLeft, ihRight⟩
  | negation expression span ih => exact ih

/-- An envelope that both checks are silent on compiles to the image of its expression. -/
theorem compileEnvelope_of_silent {config : Config} {language : Language} {envelope : Envelope}
    (sound : structureReports config envelope = [])
    (typed : typingReports language envelope.root = []) :
    compileEnvelope config language envelope = ⟨true, [], some envelope.root.lower⟩ := by
  simp [compileEnvelope, sound, typed, hasErrors]

/-- An envelope that anything is reported on does not compile. -/
theorem compileEnvelope_of_report {config : Config} {language : Language} {envelope : Envelope}
    (heard : ¬ (structureReports config envelope = [] ∧
      typingReports language envelope.root = [])) :
    ∃ first rest, compileEnvelope config language envelope = ⟨false, first :: rest, none⟩ := by
  unfold compileEnvelope
  have structuralErrors := (allErrorsIn_structureReports config envelope).allErrors
  have typingErrors := (allErrorsIn_typingReports language envelope.root).allErrors
  -- All reports are of errors, so one is enough; the structure is looked at first.
  cases structural : structureReports config envelope with
  | cons first rest =>
    rw [structural] at structuralErrors
    exact ⟨first, rest, by simp [structuralErrors.hasErrors_cons]⟩
  | nil =>
    cases typing : typingReports language envelope.root with
    | cons first rest =>
      rw [typing] at typingErrors
      have quiet : hasErrors [] = false := rfl
      exact ⟨first, rest, by simp [quiet, typingErrors.hasErrors_cons]⟩
    | nil => exact absurd ⟨structural, typing⟩ heard

/--
Only what the language allows is compiled.

An envelope compiles exactly when both checks are silent, and then to the image of its expression.
-/
theorem compileEnvelope_wellTyped (config : Config) (language : Language) (envelope : Envelope) :
    ((compileEnvelope config language envelope).success = true ↔
      (compileEnvelope config language envelope).ir.isSome = true) ∧
    ((compileEnvelope config language envelope).ir.isSome = true ↔
      (compileEnvelope config language envelope).diagnostics = []) ∧
    ((compileEnvelope config language envelope).diagnostics = [] ↔
      structureReports config envelope = [] ∧ typingReports language envelope.root = []) ∧
    ∀ ir, (compileEnvelope config language envelope).ir = some ir →
      ir.Mirrors envelope.root ∧ ∀ comparison ∈ ir.comparisons, language.Allows comparison := by
  -- Either nothing is reported and everything holds, or something is and nothing comes out.
  by_cases silent : structureReports config envelope = [] ∧
      typingReports language envelope.root = []
  · rw [compileEnvelope_of_silent silent.1 silent.2]
    refine ⟨by simp, by simp, by simp [silent], fun ir same => ?_⟩
    obtain rfl := Option.some.inj same
    exact ⟨envelope.root.mirrors_lower, typingReports_eq_nil_iff.mp silent.2⟩
  · obtain ⟨first, rest, compiled⟩ := compileEnvelope_of_report silent
    simp [compiled, silent]

/-- A language with two enumerations, one of them of a field that takes no texts. -/
def markedLanguage : Language :=
  { Language.new "1" with
    fields := [⟨"archived", .boolean, none, some ["yes"]⟩,
      ⟨"state", .string, some ["IN"], some ["open", "closed"]⟩] }

/-- An envelope without places or metadata, as another writer may make it. -/
def markedEnvelope : Envelope where
  astVersion := "1"
  grammarVersion := "1"
  rawQuery := ""
  root := .logical .or (.comparison ⟨"archived", none⟩ "=" (.boolean true none) none)
    (.negation (.comparison ⟨"state", none⟩ "IN" (.list [.string "open" none] none) none) none) none
  metadata := none

/-- The envelope compiles, and only to what its language allows. -/
theorem markedEnvelope_wellTyped :
    ∃ ir, (compileEnvelope .default markedLanguage markedEnvelope).ir = some ir ∧
      ir.Mirrors markedEnvelope.root ∧
      ∀ comparison ∈ ir.comparisons, markedLanguage.Allows comparison := by
  -- That nothing is reported is computed; what this says of the result is not.
  have silent : structureReports .default markedEnvelope = [] ∧
      typingReports markedLanguage markedEnvelope.root = [] := by decide +kernel
  obtain ⟨-, returned, reported, allowed⟩ :=
    compileEnvelope_wellTyped .default markedLanguage markedEnvelope
  obtain ⟨ir, same⟩ := Option.isSome_iff_exists.mp (returned.mpr (reported.mpr silent))
  exact ⟨ir, same, allowed ir same⟩

/-- A field that takes no texts may have an enumeration, and then takes values outside of it. -/
theorem markedEnvelope_outside_enumeration :
    ¬ ∀ (config : Config) (language : Language) (envelope : Envelope) (ir : Ir),
      (compileEnvelope config language envelope).ir = some ir →
        ∀ comparison ∈ ir.comparisons, ∀ field, language.field? comparison.field = some field →
          ∀ texts, field.enumValues = some texts →
            ∀ part ∈ comparison.value.parts, ∃ text ∈ texts, part = .string text := by
  intro only
  have sound : structureReports .default markedEnvelope = [] := by decide +kernel
  have typed : typingReports markedLanguage markedEnvelope.root = [] := by decide +kernel
  have compiled := compileEnvelope_of_silent sound typed
  -- The truth value compiles although the enumeration has one text only.
  have texts := only .default markedLanguage markedEnvelope markedEnvelope.root.lower
    (by rw [compiled]) ⟨"archived", "=", .boolean true⟩ List.mem_cons_self
    ⟨"archived", .boolean, none, some ["yes"]⟩ rfl ["yes"] rfl (.boolean true) List.mem_cons_self
  simp at texts

end FilterLang
