import FilterLang.Json.Members
import FilterLang.Suggestion

/-! Suggestions as JSON. -/

namespace FilterLang

namespace Suggestion

/-- A suggestion as JSON. -/
def toJson (suggestion : Suggestion) : Json :=
  .object ([("label", .string suggestion.label), ("kind", .string suggestion.kind.name)] ++
    Json.member? "detail" .string suggestion.detail)

/-- Several suggestions as JSON. -/
def listToJson (suggestions : List Suggestion) : Json :=
  .array (suggestions.map toJson)

/-- The suggestion that JSON describes. -/
def ofJson? (json : Json) : Option Suggestion := do
  let members ← json.fields? ["label", "kind", "detail"]
  let label ← Json.required? members "label" Json.string?
  let kind ← Json.required? members "kind" fun value =>
    (value.choice? false).bind fun word => SuggestionKind.all.find? (·.name == word)
  let detail ← Json.optional? members "detail" Json.string?
  return ⟨label, kind, detail⟩

end Suggestion

end FilterLang
