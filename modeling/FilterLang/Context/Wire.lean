import FilterLang.Context
import FilterLang.Json.Members

/-! Cursor places as JSON. -/

namespace FilterLang

namespace Context

/-- The word for a place. -/
def kindName : Context → String
  | inListValueStart _ => "inListValueStart"
  | clauseStart => "clauseStart"
  | afterNot => "afterNot"
  | afterField _ => "afterField"
  | partialClauseStart _ => "partialClauseStart"
  | partialAfterNot _ => "partialAfterNot"
  | afterInOperator _ => "afterInOperator"
  | afterCompareOperator _ => "afterCompareOperator"
  | clauseBoundary => "clauseBoundary"
  | fallback => "fallback"

/-- The text typed so far at a place. -/
def typed? : Context → Option String
  | partialClauseStart typed => some typed
  | partialAfterNot typed => some typed
  | _ => none

/-- A place as JSON. -/
def toJson (context : Context) : Json :=
  .object ([("kind", .string context.kindName)] ++ Json.member? "field" .string context.field? ++
    Json.member? "prefix" .string context.typed?)

/-- The place that a JSON object describes. -/
def ofJson? (json : Json) : Option Context := do
  let members ← json.members? ["kind", "field", "prefix"]
  let kind ← Json.required? members "kind" Json.string?
  match kind with
  | "inListValueStart" => return inListValueStart (← Json.optional? members "field" Json.string?)
  | "clauseStart" => return clauseStart
  | "afterNot" => return afterNot
  | "afterField" => return afterField (← Json.required? members "field" Json.string?)
  | "partialClauseStart" =>
    return partialClauseStart (← Json.required? members "prefix" Json.string?)
  | "partialAfterNot" => return partialAfterNot (← Json.required? members "prefix" Json.string?)
  | "afterInOperator" => return afterInOperator (← Json.optional? members "field" Json.string?)
  | "afterCompareOperator" =>
    return afterCompareOperator (← Json.optional? members "field" Json.string?)
  | "clauseBoundary" => return clauseBoundary
  | "fallback" => return fallback
  | _ => none

end Context

end FilterLang
