import FilterLang.Ast.Structure
import FilterLang.Diagnostic.Wire
import FilterLang.Json.Printer
import FilterLang.Json.Reader

/-! Envelopes as JSON text. -/

namespace FilterLang

/-- How many arrays and objects of a text may stand one inside another. -/
def maxJsonDepth : Nat := 127

/-- The member that gives a kind. -/
def kindMember (kind : String) : String × Json :=
  ("kind", .string kind)

/-- The tag of a value with a kind: the first item of an array, or a member of an object. -/
def Json.tag? : Json → Option Json
  | .array (tag :: _) => some tag
  | json => do
    -- The tag may stand anywhere among the members.
    let members ← json.members? ["kind"]
    Json.lookup? members "kind"

/-- What a value with a kind holds besides its tag. -/
def Json.untagged : Json → Json
  | .array (_ :: items) => .array items
  -- No field is named like the tag, so that may stay among the members.
  | json => json

/-- The kind that a tag names, by its word or by its place among the kinds. -/
def kindOfTag? (kinds : List String) : Json → Option String
  | .string word => some word
  | .integer place => if 0 ≤ place then kinds[place.toNat]? else none
  | _ => none

/-- The kind of a value and what else it holds. -/
def Json.tagged? (kinds : List String) (json : Json) : Option (String × Json) := do
  let tag ← json.tag?
  let kind ← kindOfTag? kinds tag
  return (kind, json.untagged)

/-- A value whose parts are read after it has been held whole, under a limit on its depth. -/
def Json.held? (levels : Nat) (json : Json) : Option Json := do
  -- The outermost tag is read before anything is held, and has to be a word.
  let tag ← json.tag?
  let _ ← tag.string?
  if json.depth ≤ levels ∧ json.isLoadable then some json else none

/-- The member for a span, if there is one. -/
def spanMember (span : Option Span) : List (String × Json) :=
  Json.member? "span" Span.toJson span

/-- A connective from its word. -/
def Connective.ofJson? (json : Json) : Option Connective :=
  (json.choice? true).bind fun word => [Connective.and, Connective.or].find? (·.name == word)

namespace Value

mutual

/-- A value as JSON. -/
def toJson : Value → Json
  | string value span =>
    .object ([kindMember "stringLiteral", ("value", .string value)] ++ spanMember span)
  | number value raw span =>
    .object ([kindMember "numberLiteral", ("value", .ofDouble value), ("raw", .string raw)] ++
      spanMember span)
  | boolean value span =>
    .object ([kindMember "booleanLiteral", ("value", .bool value)] ++ spanMember span)
  | list items span =>
    .object ([kindMember "list", ("items", .array (listToJson items))] ++ spanMember span)

/-- Several values as JSON. -/
def listToJson : List Value → List Json
  | [] => []
  | item :: items => toJson item :: listToJson items

end

/-- The kinds of values. -/
def kinds : List String :=
  ["stringLiteral", "numberLiteral", "booleanLiteral", "list"]

/-- The value that JSON describes; values nest at most as deep as the levels given. -/
def ofJson? : Nat → Json → Option Value
  | 0, _ => none
  | levels + 1, json => do
    let (kind, content) ← json.tagged? kinds
    match kind with
    | "stringLiteral" =>
      let members ← content.fields? ["value", "span"]
      let value ← Json.required? members "value" Json.string?
      let span ← Json.optional? members "span" Span.ofJson?
      return string value span
    | "numberLiteral" =>
      let members ← content.fields? ["value", "raw", "span"]
      let value ← Json.required? members "value" Json.double?
      let raw ← Json.required? members "raw" Json.string?
      let span ← Json.optional? members "span" Span.ofJson?
      return number value raw span
    | "booleanLiteral" =>
      let members ← content.fields? ["value", "span"]
      let value ← Json.required? members "value" Json.bool?
      let span ← Json.optional? members "span" Span.ofJson?
      return boolean value span
    | "list" =>
      let members ← content.fields? ["items", "span"]
      let items ← Json.required? members "items" (Json.items? (ofJson? levels))
      let span ← Json.optional? members "span" Span.ofJson?
      return list items span
    | _ => none

end Value

namespace FieldRef

/-- A field reference as JSON. -/
def toJson (field : FieldRef) : Json :=
  .object ([("name", .string field.name)] ++ spanMember field.span)

/-- The field reference that JSON describes. -/
def ofJson? (json : Json) : Option FieldRef := do
  let members ← json.fields? ["name", "span"]
  let name ← Json.required? members "name" Json.string?
  let span ← Json.optional? members "span" Span.ofJson?
  return ⟨name, span⟩

end FieldRef

namespace Node

/-- An expression as JSON. -/
def toJson : Node → Json
  | comparison field operator value span =>
    .object ([kindMember "comparison", ("field", field.toJson), ("operator", .string operator),
      ("value", value.toJson)] ++ spanMember span)
  | logical operator left right span =>
    .object ([kindMember "logical", ("operator", .string operator.name), ("left", left.toJson),
      ("right", right.toJson)] ++ spanMember span)
  | negation expression span =>
    .object ([kindMember "not", ("expression", expression.toJson)] ++ spanMember span)

/-- The kinds of expressions. -/
def kinds : List String :=
  ["comparison", "logical", "not"]

/-- The expression that JSON describes, nested at most as deep as the levels given. -/
def ofJson? : Nat → Json → Option Node
  | 0, _ => none
  | levels + 1, json => do
    let (kind, content) ← json.tagged? kinds
    match kind with
    | "comparison" =>
      let members ← content.fields? ["field", "operator", "value", "span"]
      let field ← Json.required? members "field" FieldRef.ofJson?
      let operator ← Json.required? members "operator" Json.string?
      let value ← Json.required? members "value" (Value.ofJson? levels)
      let span ← Json.optional? members "span" Span.ofJson?
      return comparison field operator value span
    | "logical" =>
      let members ← content.fields? ["operator", "left", "right", "span"]
      let operator ← Json.required? members "operator" Connective.ofJson?
      let left ← Json.required? members "left" (ofJson? levels)
      let right ← Json.required? members "right" (ofJson? levels)
      let span ← Json.optional? members "span" Span.ofJson?
      return logical operator left right span
    | "not" =>
      let members ← content.fields? ["expression", "span"]
      let expression ← Json.required? members "expression" (ofJson? levels)
      let span ← Json.optional? members "span" Span.ofJson?
      return negation expression span
    | _ => none

/-- The expression that JSON describes, with a number of levels of the text around it. -/
def ofHeldJson? (around : Nat) (json : Json) : Option Node := do
  -- Every nested expression takes at least one level, so the limit also bounds the reading.
  let held ← json.held? (maxJsonDepth - around)
  ofJson? maxJsonDepth held

end Node

namespace Metadata

/-- Metadata as JSON. -/
def toJson (metadata : Metadata) : Json :=
  .object [("parser", .string metadata.parser), ("nodeCount", .ofNat metadata.nodeCount),
    ("maxDepth", .ofNat metadata.maxDepth)]

/-- The metadata that JSON describes. -/
def ofJson? (json : Json) : Option Metadata := do
  let members ← json.fields? ["parser", "nodeCount", "maxDepth"]
  let parser ← Json.required? members "parser" Json.string?
  let nodeCount ← Json.required? members "nodeCount" Json.size?
  let maxDepth ← Json.required? members "maxDepth" Json.size?
  return ⟨parser, nodeCount, maxDepth⟩

end Metadata

namespace Envelope

/-- The query text that JSON describes. -/
def sourceOfJson? (json : Json) : Option String := do
  let members ← json.fields? ["rawQuery"]
  Json.required? members "rawQuery" Json.string?

/-- An envelope as JSON. -/
def toJson (envelope : Envelope) : Json :=
  .object ([("astVersion", .string envelope.astVersion),
    ("grammarVersion", .string envelope.grammarVersion),
    ("source", .object [("rawQuery", .string envelope.rawQuery)]),
    ("root", envelope.root.toJson)] ++ Json.member? "metadata" Metadata.toJson envelope.metadata)

/-- The envelope that JSON describes. -/
def ofJson? (json : Json) : Option Envelope := do
  let members ← json.fields? ["astVersion", "grammarVersion", "source", "root", "metadata"]
  let astVersion ← Json.required? members "astVersion" Json.string?
  let grammarVersion ← Json.required? members "grammarVersion" Json.string?
  let rawQuery ← Json.required? members "source" sourceOfJson?
  -- The envelope itself takes one level.
  let root ← Json.required? members "root" (Node.ofHeldJson? 1)
  let metadata ← Json.optional? members "metadata" Metadata.ofJson?
  return ⟨astVersion, grammarVersion, rawQuery, root, metadata⟩

/-- The text of an envelope. -/
def encode (envelope : Envelope) : String :=
  envelope.toJson.compact

/-- The envelope that a text describes. -/
def decode? (text : String) : Option Envelope :=
  (Json.parse? text).bind ofJson?

end Envelope

/-- What came of taking in an envelope's text. -/
structure Intake where
  valid : Bool
  diagnostics : List Diagnostic
  envelope : Option Envelope
deriving Repr, Inhabited

/-- The report on a text that describes no envelope. -/
def undecodable : Diagnostic :=
  structureError .astDecodeFailed "Failed to decode AST envelope" (.empty 0)

/-- Decodes an envelope and checks its structure; it is handed out only when that finds no error. -/
def takeIn (config : Config) (text : String) : Intake :=
  match Envelope.decode? text with
  | none => ⟨false, [undecodable], none⟩
  | some envelope =>
    let reports := structureReports config envelope
    if hasErrors reports then ⟨false, reports, none⟩ else ⟨true, reports, some envelope⟩

end FilterLang
