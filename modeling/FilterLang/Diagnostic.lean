import FilterLang.Span

/-! What the library reports about a query. -/

namespace FilterLang

/-- How grave a report is. -/
inductive Severity where
  | error
  | warning
  | info
deriving DecidableEq, Repr, Inhabited

/-- The part of the work that a report comes from. -/
inductive Origin where
  /-- Reading the text. -/
  | text
  /-- Building or checking the AST. -/
  | ast
  /-- Checking against the declared language, here or at the host. -/
  | semantic
deriving DecidableEq, Repr, Inhabited

/-- What a report is about. -/
inductive DiagnosticCode where
  | astDecodeFailed
  | unsupportedAstVersion
  | missingGrammarVersion
  | rawQueryTooLarge
  | astTooLarge
  | astTooDeep
  | invalidSpan
  | emptyOperator
  | stringLiteralTooLarge
  | unsupportedParserMetadata
  | invalidMetadata
  | unknownField
  | unsupportedOperator
  | listOperatorMismatch
  | emptyList
  | scalarOperatorMismatch
  | typeMismatch
  | invalidEnumValue
  | syntaxError
  | unparsedTrailingInput
  | astBuildFailed
  | unknownAlias
  | aliasCycle
  | aliasDepthExceeded
  | duplicateAlias
  | invalidAliasExpansion
  | invalidBooleanShorthand
  | semanticCallbackFailed
deriving DecidableEq, Repr, Inhabited

namespace Severity

/-- The word a severity is written as. -/
def name : Severity → String
  | error => "ERROR"
  | warning => "WARNING"
  | info => "INFO"

/-- Every severity. -/
def all : List Severity :=
  [error, warning, info]

end Severity

namespace Origin

/-- The word an origin is written as. -/
def name : Origin → String
  | text => "syntax"
  | ast => "ast"
  | semantic => "semantic"

/-- Every origin. -/
def all : List Origin :=
  [text, ast, semantic]

end Origin

namespace DiagnosticCode

/-- The word a code is written as. -/
def name : DiagnosticCode → String
  | astDecodeFailed => "AST_DECODE_FAILED"
  | unsupportedAstVersion => "UNSUPPORTED_AST_VERSION"
  | missingGrammarVersion => "MISSING_GRAMMAR_VERSION"
  | rawQueryTooLarge => "RAW_QUERY_TOO_LARGE"
  | astTooLarge => "AST_TOO_LARGE"
  | astTooDeep => "AST_TOO_DEEP"
  | invalidSpan => "INVALID_SPAN"
  | emptyOperator => "EMPTY_OPERATOR"
  | stringLiteralTooLarge => "STRING_LITERAL_TOO_LARGE"
  | unsupportedParserMetadata => "UNSUPPORTED_PARSER_METADATA"
  | invalidMetadata => "INVALID_METADATA"
  | unknownField => "UNKNOWN_FIELD"
  | unsupportedOperator => "UNSUPPORTED_OPERATOR"
  | listOperatorMismatch => "LIST_OPERATOR_MISMATCH"
  | emptyList => "EMPTY_LIST"
  | scalarOperatorMismatch => "SCALAR_OPERATOR_MISMATCH"
  | typeMismatch => "TYPE_MISMATCH"
  | invalidEnumValue => "INVALID_ENUM_VALUE"
  | syntaxError => "SYNTAX_ERROR"
  | unparsedTrailingInput => "UNPARSED_TRAILING_INPUT"
  | astBuildFailed => "AST_BUILD_FAILED"
  | unknownAlias => "UNKNOWN_MACRO_ALIAS"
  | aliasCycle => "MACRO_EXPANSION_CYCLE"
  | aliasDepthExceeded => "MACRO_EXPANSION_DEPTH_EXCEEDED"
  | duplicateAlias => "DUPLICATE_MACRO_ALIAS"
  | invalidAliasExpansion => "INVALID_MACRO_EXPANSION"
  | invalidBooleanShorthand => "INVALID_BOOLEAN_FIELD_SHORTHAND"
  | semanticCallbackFailed => "SEMANTIC_CALLBACK_FAILED"

/-- Every code. -/
def all : List DiagnosticCode :=
  [astDecodeFailed, unsupportedAstVersion, missingGrammarVersion, rawQueryTooLarge, astTooLarge,
    astTooDeep, invalidSpan, emptyOperator, stringLiteralTooLarge, unsupportedParserMetadata,
    invalidMetadata, unknownField, unsupportedOperator, listOperatorMismatch, emptyList,
    scalarOperatorMismatch, typeMismatch, invalidEnumValue, syntaxError, unparsedTrailingInput,
    astBuildFailed, unknownAlias, aliasCycle, aliasDepthExceeded, duplicateAlias,
    invalidAliasExpansion, invalidBooleanShorthand, semanticCallbackFailed]

end DiagnosticCode

/-- One report about a query and the place it points at. -/
structure Diagnostic where
  severity : Severity
  code : DiagnosticCode
  message : String
  span : Span
  origin : Origin
deriving DecidableEq, Repr, Inhabited

namespace Diagnostic

/-- A report of an error. -/
def error (origin : Origin) (code : DiagnosticCode) (message : String) (span : Span) : Diagnostic :=
  ⟨.error, code, message, span, origin⟩

/-- A report of something that may be wrong. -/
def warning (origin : Origin) (code : DiagnosticCode) (message : String) (span : Span) :
    Diagnostic :=
  ⟨.warning, code, message, span, origin⟩

/-- Whether a report is of an error. -/
def isError (diagnostic : Diagnostic) : Bool :=
  diagnostic.severity == .error

/-- The line a report is shown as. -/
def shown (diagnostic : Diagnostic) : String :=
  s!"[{diagnostic.code.name}] {diagnostic.message} at " ++
    s!"{diagnostic.span.start}..{diagnostic.span.stop}"

end Diagnostic

/-- Whether some report is of an error. -/
def hasErrors (diagnostics : List Diagnostic) : Bool :=
  diagnostics.any (·.isError)

end FilterLang
