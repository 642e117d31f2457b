import FilterLang.Diagnostic
import FilterLang.Json.Members

/-! Spans and reports as JSON. -/

namespace FilterLang

/-- A span as JSON. -/
def Span.toJson (span : Span) : Json :=
  .object [("from", .ofNat span.start), ("to", .ofNat span.stop)]

/-- The span that JSON describes. -/
def Span.ofJson? (json : Json) : Option Span := do
  let members ← json.fields? ["from", "to"]
  let start ← Json.required? members "from" Json.size?
  let stop ← Json.required? members "to" Json.size?
  return ⟨start, stop⟩

namespace Diagnostic

/-- A report as JSON. -/
def toJson (diagnostic : Diagnostic) : Json :=
  .object [
    ("severity", .string diagnostic.severity.name),
    ("code", .string diagnostic.code.name),
    ("message", .string diagnostic.message),
    ("from", .ofNat diagnostic.span.start),
    ("to", .ofNat diagnostic.span.stop),
    ("source", .string diagnostic.origin.name)]

/-- Several reports as JSON. -/
def listToJson (diagnostics : List Diagnostic) : Json :=
  .array (diagnostics.map toJson)

/-- The report that JSON describes. -/
def ofJson? (json : Json) : Option Diagnostic := do
  let members ← json.fields? ["severity", "code", "message", "from", "to", "source"]
  -- The words of severities, codes and origins are all looked up in the same way.
  let named {α : Type} (all : List α) (name : α → String) (value : Json) : Option α :=
    (value.choice? false).bind fun word => all.find? (name · == word)
  let severity ← Json.required? members "severity" (named Severity.all Severity.name)
  let code ← Json.required? members "code" (named DiagnosticCode.all DiagnosticCode.name)
  let message ← Json.required? members "message" Json.string?
  let start ← Json.required? members "from" Json.size?
  let stop ← Json.required? members "to" Json.size?
  let origin ← Json.required? members "source" (named Origin.all Origin.name)
  return ⟨severity, code, message, ⟨start, stop⟩, origin⟩

end Diagnostic

end FilterLang
