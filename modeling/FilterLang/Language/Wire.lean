import FilterLang.Json.Members
import FilterLang.Json.Printer
import FilterLang.Json.Reader
import FilterLang.Language

/-! Declared languages as JSON text. -/

namespace FilterLang

namespace FieldType

/-- The type that a word names. -/
def ofName? (name : String) : Option FieldType :=
  all.find? (·.name == name)

/-- The type that JSON names. -/
def ofJson? (json : Json) : Option FieldType :=
  (json.choice? false).bind ofName?

end FieldType

namespace Field

/-- A field as JSON. -/
def toJson (field : Field) : Json :=
  .object ([("name", .string field.name), ("type", .string field.type.name)] ++
    Json.member? "operators" Json.ofStrings field.operators ++
    Json.member? "enumValues" Json.ofStrings field.enumValues)

/-- The field that JSON describes. -/
def ofJson? (json : Json) : Option Field := do
  let members ← json.fields? ["name", "type", "operators", "enumValues"]
  let name ← Json.required? members "name" Json.string?
  let type ← Json.required? members "type" FieldType.ofJson?
  let operators ← Json.optional? members "operators" Json.strings?
  let enumValues ← Json.optional? members "enumValues" Json.strings?
  return ⟨name, type, operators, enumValues⟩

end Field

namespace Alias

/-- An alias as JSON. -/
def toJson (declared : Alias) : Json :=
  .object [("name", .string declared.name), ("expansion", .string declared.expansion)]

/-- The alias that JSON describes. -/
def ofJson? (json : Json) : Option Alias := do
  let members ← json.fields? ["name", "expansion"]
  let name ← Json.required? members "name" Json.string?
  let expansion ← Json.required? members "expansion" Json.string?
  return ⟨name, expansion⟩

end Alias

namespace Policy

/-- A policy as JSON. -/
def toJson (policy : Policy) : Json :=
  .object ([("remoteValues", .bool policy.remoteValues)] ++
    Json.member? "maxSuggestions" (fun cap => .ofNat cap.toNat) policy.maxSuggestions)

/-- The policy that JSON describes; without a word on it the host is not asked. -/
def ofJson? (json : Json) : Option Policy := do
  let members ← json.fields? ["remoteValues", "maxSuggestions"]
  let remoteValues ← Json.defaulted? members "remoteValues" false Json.bool?
  let maxSuggestions ← Json.optional? members "maxSuggestions" Json.word?
  return ⟨remoteValues, maxSuggestions⟩

/-- A table of policies as JSON. -/
def tableToJson (table : KeyedTable Policy) : Json :=
  .object (table.entries.map fun entry => (entry.1, entry.2.toJson))

/-- The table of policies that a JSON object describes; the last of a field's policies counts. -/
def tableOfJson? : Json → Option (KeyedTable Policy)
  | .object members =>
    -- Every entry has to be readable, also one that a later entry replaces.
    (members.mapM fun member => (ofJson? member.2).map fun policy => (member.1, policy)).map
      KeyedTable.ofList
  | _ => none

end Policy

namespace OperatorTable

/-- A table of operators as JSON. -/
def toJson (table : OperatorTable) : Json :=
  .object (FieldType.all.flatMap fun type =>
    Json.member? type.name Json.ofStrings (table.get? type))

/-- A table with the entry that a member describes. -/
def addMember? (table : OperatorTable) (member : String × Json) : Option OperatorTable := do
  -- The key has to be one of the types.
  let type ← FieldType.ofName? member.1
  let operators ← member.2.strings?
  return table.set type operators

/-- The table of operators that a JSON object describes; the last of a type's entries counts. -/
def ofJson? : Json → Option OperatorTable
  | .object members => members.foldlM addMember? .empty
  | _ => none

end OperatorTable

namespace Language

/-- A language as JSON. -/
def toJson (language : Language) : Json :=
  .object ([("version", .string language.version),
    ("fields", .array (language.fields.map Field.toJson)),
    ("operatorsByType", language.operatorsByType.toJson),
    ("functions", .array (language.aliases.map Alias.toJson))] ++
    Json.member? "completionPolicies" Policy.tableToJson language.policies)

/-- The language that JSON describes. -/
def ofJson? (json : Json) : Option Language := do
  let members ← json.fields?
    ["version", "fields", "operatorsByType", "functions", "completionPolicies"]
  let version ← Json.required? members "version" Json.string?
  let fields ← Json.required? members "fields" (Json.items? Field.ofJson?)
  let operators ← Json.defaulted? members "operatorsByType" .standard OperatorTable.ofJson?
  let aliases ← Json.defaulted? members "functions" [] (Json.items? Alias.ofJson?)
  let policies ← Json.optional? members "completionPolicies" Policy.tableOfJson?
  return ⟨version, fields, operators, aliases, policies⟩

/-- The text of a language. -/
def encode (language : Language) : String :=
  language.toJson.compact

/-- The language that a text describes. -/
def decode? (text : String) : Option Language :=
  (Json.parse? text).bind ofJson?

end Language

end FilterLang
