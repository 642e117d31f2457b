import FilterLang.Config
import FilterLang.Json.Members
import FilterLang.Json.Printer
import FilterLang.Json.Reader

/-! Settings as JSON text; every member may be left out. -/

namespace FilterLang

namespace Limits

/-- Limits as JSON. -/
def toJson (limits : Limits) : Json :=
  .object [("maxRawQueryLength", .ofNat limits.maxRawQueryLength.toNat),
    ("maxNodeCount", .ofNat limits.maxNodeCount.toNat),
    ("maxDepth", .ofNat limits.maxDepth.toNat),
    ("maxStringLiteralLength", .ofNat limits.maxStringLiteralLength.toNat)]

/-- The limits that JSON describes. -/
def ofJson? (json : Json) : Option Limits := do
  -- What is left out keeps the value it has when no limits are given.
  let preset : Limits := {}
  let members ← json.fields?
    ["maxRawQueryLength", "maxNodeCount", "maxDepth", "maxStringLiteralLength"]
  let query ← Json.defaulted? members "maxRawQueryLength" preset.maxRawQueryLength Json.word?
  let nodes ← Json.defaulted? members "maxNodeCount" preset.maxNodeCount Json.word?
  let depth ← Json.defaulted? members "maxDepth" preset.maxDepth Json.word?
  let string ← Json.defaulted? members "maxStringLiteralLength" preset.maxStringLiteralLength
    Json.word?
  return ⟨query, nodes, depth, string⟩

end Limits

namespace Config

/-- Settings as JSON. -/
def toJson (config : Config) : Json :=
  .object [("limits", config.limits.toJson),
    ("supportedAstVersions", .ofStrings config.supportedAstVersions),
    ("expectedParser", .string config.expectedParser),
    ("macroDepthLimit", .ofNat config.aliasDepthLimit.toNat),
    ("semanticDebounceMs", .ofNat config.semanticDebounceMs.toNat)]

/-- The settings that JSON describes. -/
def ofJson? (json : Json) : Option Config := do
  -- What is left out keeps the value it has when no settings are given.
  let preset : Config := {}
  let members ← json.fields?
    ["limits", "supportedAstVersions", "expectedParser", "macroDepthLimit", "semanticDebounceMs"]
  let limits ← Json.defaulted? members "limits" preset.limits Limits.ofJson?
  let versions ← Json.defaulted? members "supportedAstVersions" preset.supportedAstVersions
    Json.strings?
  let parser ← Json.defaulted? members "expectedParser" preset.expectedParser Json.string?
  let depth ← Json.defaulted? members "macroDepthLimit" preset.aliasDepthLimit Json.word?
  let debounce ← Json.defaulted? members "semanticDebounceMs" preset.semanticDebounceMs Json.word?
  return ⟨limits, versions, parser, depth, debounce⟩

/-- The text of settings. -/
def encode (config : Config) : String :=
  config.toJson.compact

/-- The settings that a text describes. -/
def decode? (text : String) : Option Config :=
  (Json.parse? text).bind ofJson?

end Config

end FilterLang
