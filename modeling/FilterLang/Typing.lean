import FilterLang.Ast
import FilterLang.Diagnostic
import FilterLang.Language

/-! Checking every comparison of a query against the declared language. -/

namespace FilterLang

/-- A report about a comparison that the language does not allow. -/
def typingError (code : DiagnosticCode) (message : String) (span : Span) : Diagnostic :=
  .error .semantic code message span

/-- Whether an operator takes a list of values. -/
def isListOperator (operator : String) : Bool :=
  operator == "IN" || operator == "NOT IN"

/-- Whether a value is a scalar of a type. -/
def Value.hasType : Value → FieldType → Bool
  | .string _ _, .string => true
  | .number _ _ _, .number => true
  | .boolean _ _, .boolean => true
  | _, _ => false

/-- The report on a text outside a field's enumeration. -/
def enumReports (field : Field) (text : String) (span : Span) : List Diagnostic :=
  match field.enumValues with
  | none => []
  | some allowed =>
    if allowed.contains text then []
    else
      let choices := String.intercalate ", " allowed
      [typingError .invalidEnumValue
        s!"'{text}' is not a valid value for '{field.name}' (expected one of: {choices})" span]

/-- The reports on one scalar of a field's comparison. -/
def scalarReports (field : Field) (whenUnplaced : Span) (value : Value) : List Diagnostic :=
  let span := value.span.getD whenUnplaced
  -- A value of the wrong type is not looked up in the enumeration.
  if value.hasType field.type then
    match value with
    | .string text _ => enumReports field text span
    | _ => []
  else
    [typingError .typeMismatch
      s!"Field '{field.name}' expects a {field.type.shown} value, found {value.typeName}" span]

/-- The reports on a comparison's value, given whether its operator takes lists. -/
def valueReports (field : Field) (operator : String) (span : Span) : Value → List Diagnostic
  | .list items listSpan =>
    (if isListOperator operator then []
    else
      [typingError .listOperatorMismatch s!"A list value needs IN or NOT IN, not '{operator}'"
        span]) ++
    (if items.isEmpty then
      [typingError .emptyList s!"The value list for '{field.name}' is empty" (listSpan.getD span)]
    else []) ++
    -- A list inside the list is an item of the wrong type.
    items.flatMap (scalarReports field span)
  | value =>
    (if isListOperator operator then
      [typingError .scalarOperatorMismatch s!"'{operator}' needs a list value" span]
    else []) ++
    scalarReports field span value

/-- The reports on one comparison; an unknown field is the only one reported of its comparison. -/
def comparisonReports (language : Language) (field : FieldRef) (operator : String) (value : Value)
    (nodeSpan : Option Span) : List Diagnostic :=
  -- Places may be missing, and each stands in for the other.
  let fieldSpan := (field.span.or nodeSpan).getD (.empty 0)
  let span := nodeSpan.getD fieldSpan
  match language.field? field.name with
  -- Without a declaration nothing else can be said.
  | none => [typingError .unknownField s!"Unknown field '{field.name}'" fieldSpan]
  | some declared =>
    (if (language.operatorsFor declared).contains operator then []
    else
      [typingError .unsupportedOperator
        s!"Operator '{operator}' is not supported for field '{field.name}'" span]) ++
    valueReports declared operator span value

/-- Everything in a query that the language does not allow, from left to right. -/
def typingReports (language : Language) : Node → List Diagnostic
  | .comparison field operator value span => comparisonReports language field operator value span
  | .logical _ left right _ => typingReports language left ++ typingReports language right
  | .negation expression _ => typingReports language expression

end FilterLang
