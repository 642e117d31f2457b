import FilterLang.Ast
import FilterLang.Grammar

/-! The limits and settings that queries are processed under. -/

namespace FilterLang

/-- The greatest sizes that an envelope may have. -/
structure Limits where
  /-- The length of the query text in bytes. -/
  maxRawQueryLength : UInt64 := 4096
  /-- The number of expressions and values. -/
  maxNodeCount : UInt64 := 1000
  /-- The depth of the AST. -/
  maxDepth : UInt64 := 120
  /-- The length of a string value in bytes. -/
  maxStringLiteralLength : UInt64 := 1024
deriving DecidableEq, Repr, Inhabited

/-- The settings that queries are processed under. -/
structure Config where
  limits : Limits := {}
  /-- The versions of the AST that are taken in. -/
  supportedAstVersions : List String := [astVersion]
  /-- The reader that envelopes have to name. -/
  expectedParser : String := readerName
  /-- How many alias calls may stand one inside another. -/
  aliasDepthLimit : UInt64 := 10
  /-- How long a remote check waits for further edits, in milliseconds. -/
  semanticDebounceMs : UInt64 := 150
deriving DecidableEq, Repr, Inhabited

/-- The settings when none are given. -/
def Config.default : Config := {}

end FilterLang
