import FilterLang.Context
import FilterLang.Text.Quoted

/-! What can be typed at a cursor, as far as the declared language tells. -/

namespace FilterLang

/-- What a suggestion offers. -/
inductive SuggestionKind where
  | field
  | operator
  | value
  | connector
  | keyword
  /-- A call of an alias. -/
  | aliasCall
deriving DecidableEq, Repr, Inhabited

namespace SuggestionKind

/-- The word a kind is written as. -/
def name : SuggestionKind → String
  | field => "field"
  | operator => "operator"
  | value => "value"
  | connector => "connector"
  | keyword => "keyword"
  | aliasCall => "macro"

/-- The word a kind is shown as. -/
def shown : SuggestionKind → String
  | field => "Field"
  | operator => "Operator"
  | value => "Value"
  | connector => "Connector"
  | keyword => "Keyword"
  | aliasCall => "Macro"

/-- Every kind. -/
def all : List SuggestionKind :=
  [field, operator, value, connector, keyword, aliasCall]

end SuggestionKind

/-- Something that can be typed. -/
structure Suggestion where
  label : String
  kind : SuggestionKind
  detail : Option String
deriving DecidableEq, Repr, Inhabited

/-- The declared fields as suggestions. -/
def fieldSuggestions (language : Language) : List Suggestion :=
  language.fields.map fun field => ⟨field.name, .field, some field.type.shown⟩

/-- The declared aliases as suggestions. -/
def aliasSuggestions (language : Language) : List Suggestion :=
  language.aliases.map fun declared => ⟨declared.name ++ "()", .aliasCall, some declared.expansion⟩

/-- What a clause can begin with. -/
def clauseSuggestions (language : Language) (withNot : Bool) : List Suggestion :=
  fieldSuggestions language ++ aliasSuggestions language ++
    (if withNot then [⟨"NOT", .keyword, none⟩] else []) ++ [⟨"(", .keyword, none⟩]

/-- Whether as many bytes of a label as were typed are the typed text, in any capitals. -/
def extendsTyped (typed : String) (suggestion : Suggestion) : Bool :=
  -- A label that is shorter, or cut inside a character, does not begin with the text.
  (takeBytes (byteSize typed) suggestion.label.toList).any (sameLetters · typed.toList)

/-- The literals that a field is known to take. -/
def valueLabels (field : Field) : List String :=
  match field.type, field.enumValues with
  -- An enumeration of another type than string says nothing about literals.
  | .string, some allowed => allowed.map quote
  | .boolean, _ => ["true", "false"]
  | _, _ => []

/-- The first labels up to a cap. -/
def capped {α : Type} (cap : Option UInt64) (labels : List α) : List α :=
  match cap with
  | some cap => labels.take cap.toNat
  | none => labels

/-- The greatest number of values that may be suggested for a field. -/
def suggestionCap (language : Language) (field : String) : Option UInt64 :=
  (language.policy? field).bind (·.maxSuggestions)

/-- The values that a field is known to take, as suggestions. -/
def valueSuggestions (language : Language) (field : Field) : List Suggestion :=
  (capped (suggestionCap language field.name) (valueLabels field)).map fun label =>
    ⟨label, .value, some field.name⟩

/-- The operators that a field takes, as suggestions. -/
def operatorSuggestions (language : Language) (field : Field) : List Suggestion :=
  (language.operatorsFor field).map fun operator => ⟨operator, .operator, none⟩

/-- The values for a field that may be unknown. -/
def valuesOf (language : Language) (field : Option String) : List Suggestion :=
  ((field.bind language.field?).map (valueSuggestions language)).getD []

/-- What can be typed at a place. -/
def suggest (language : Language) : Context → List Suggestion
  | .clauseStart => clauseSuggestions language true
  | .partialClauseStart typed => (clauseSuggestions language true).filter (extendsTyped typed)
  | .afterNot => clauseSuggestions language false
  | .partialAfterNot typed => (clauseSuggestions language false).filter (extendsTyped typed)
  | .afterField field => ((language.field? field).map (operatorSuggestions language)).getD []
  | .afterCompareOperator field => valuesOf language field
  | .inListValueStart field => valuesOf language field
  | .afterInOperator _ => [⟨"(", .keyword, none⟩]
  | .clauseBoundary => [⟨"AND", .connector, none⟩, ⟨"OR", .connector, none⟩, ⟨")", .keyword, none⟩]
  | .fallback =>
    [⟨"AND", .connector, none⟩, ⟨"OR", .connector, none⟩, ⟨"IN", .operator, none⟩] ++
      fieldSuggestions language

/-- Where values are wanted, those of the field that the place is about are suggested. -/
theorem suggest_of_wantsValues {context : Context} (values : context.wantsValues = true)
    (language : Language) : suggest language context = valuesOf language context.field? := by
  -- Only two places want values, and both suggest them in the same way.
  cases context with
  | inListValueStart | afterCompareOperator => rfl
  | _ => cases values

/-- The suggestions whose label is neither among those seen nor repeats an earlier one. -/
def unseen (seen : List String) : List Suggestion → List Suggestion
  | [] => []
  | suggestion :: rest =>
    -- Only the label counts, whatever the kind.
    if seen.contains suggestion.label then unseen seen rest
    else suggestion :: unseen (suggestion.label :: seen) rest

/-- The language's own suggestions, then those of the host with a label that is new. -/
def mergeSuggestions (own remote : List Suggestion) : List Suggestion :=
  own ++ unseen (own.map (·.label)) remote

end FilterLang
