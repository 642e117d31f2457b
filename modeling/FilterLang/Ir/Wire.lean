import FilterLang.Ast.Wire
import FilterLang.Ir

/-! The executable form of a query as JSON text. -/

namespace FilterLang

namespace IrValue

mutual

/-- A value as JSON. -/
def toJson : IrValue → Json
  | string value => .object [kindMember "irString", ("value", .string value)]
  | number value => .object [kindMember "irNumber", ("value", .ofDouble value)]
  | boolean value => .object [kindMember "irBoolean", ("value", .bool value)]
  | list items => .object [kindMember "irList", ("items", .array (listToJson items))]

/-- Several values as JSON. -/
def listToJson : List IrValue → List Json
  | [] => []
  | item :: items => toJson item :: listToJson items

end

/-- The kinds of values. -/
def kinds : List String :=
  ["irString", "irNumber", "irBoolean", "irList"]

/-- The value that JSON describes; values nest at most as deep as the levels given. -/
def ofJson? : Nat → Json → Option IrValue
  | 0, _ => none
  | levels + 1, json => do
    let (kind, content) ← json.tagged? kinds
    match kind with
    | "irString" =>
      let members ← content.fields? ["value"]
      return string (← Json.required? members "value" Json.string?)
    | "irNumber" =>
      let members ← content.fields? ["value"]
      return number (← Json.required? members "value" Json.double?)
    | "irBoolean" =>
      let members ← content.fields? ["value"]
      return boolean (← Json.required? members "value" Json.bool?)
    | "irList" =>
      let members ← content.fields? ["items"]
      return list (← Json.required? members "items" (Json.items? (ofJson? levels)))
    | _ => none

end IrValue

namespace Ir

/-- An expression as JSON. -/
def toJson : Ir → Json
  | logical operator left right =>
    .object [kindMember "irLogical", ("operator", .string operator.name), ("left", left.toJson),
      ("right", right.toJson)]
  | negation expression => .object [kindMember "irNot", ("expression", expression.toJson)]
  | comparison field operator value =>
    .object [kindMember "irComparison", ("field", .string field), ("operator", .string operator),
      ("value", value.toJson)]

/-- The kinds of expressions. -/
def kinds : List String :=
  ["irLogical", "irNot", "irComparison"]

/-- The expression that JSON describes, nested at most as deep as the levels given. -/
def ofJson? : Nat → Json → Option Ir
  | 0, _ => none
  | levels + 1, json => do
    let (kind, content) ← json.tagged? kinds
    match kind with
    | "irLogical" =>
      let members ← content.fields? ["operator", "left", "right"]
      let operator ← Json.required? members "operator" Connective.ofJson?
      let left ← Json.required? members "left" (ofJson? levels)
      let right ← Json.required? members "right" (ofJson? levels)
      return logical operator left right
    | "irNot" =>
      let members ← content.fields? ["expression"]
      return negation (← Json.required? members "expression" (ofJson? levels))
    | "irComparison" =>
      let members ← content.fields? ["field", "operator", "value"]
      let field ← Json.required? members "field" Json.string?
      let operator ← Json.required? members "operator" Json.string?
      let value ← Json.required? members "value" (IrValue.ofJson? levels)
      return comparison field operator value
    | _ => none

/-- The text of an expression. -/
def encode (ir : Ir) : String :=
  ir.toJson.compact

/-- The expression that a text describes. -/
def decode? (text : String) : Option Ir := do
  let json ← Json.parse? text
  -- Nothing stands around an expression that is a text of its own.
  let held ← json.held? maxJsonDepth
  ofJson? maxJsonDepth held

end Ir

end FilterLang
