import FilterLang.Ast
import FilterLang.Config
import FilterLang.Diagnostic
import FilterLang.Text.Blank
import FilterLang.Text.Bytes

/-! Checking the structure of an envelope, wherever it comes from. -/

namespace FilterLang

/-- A report about an envelope's structure. -/
def structureError (code : DiagnosticCode) (message : String) (span : Span) : Diagnostic :=
  .error .ast code message span

/-- The span to report at: a part's own if it is a range of the query, else the query's start. -/
def displaySpan (length : Nat) : Option Span → Span
  -- A span that is itself reported as wrong would mislead.
  | some span => if span.fits length then span else .empty 0
  | none => .empty 0

/-- The report on a query that is too long. -/
def queryTooLarge (length limit : Nat) : Diagnostic :=
  structureError .rawQueryTooLarge s!"Query is {length} bytes, the limit is {limit}" (.empty 0)

/-- The report on a span that is no range of the query. -/
def spanReports (length : Nat) : Option Span → List Diagnostic
  | none => []
  | some span =>
    if span.fits length then []
    else
      [structureError .invalidSpan
        s!"Span {span.start}..{span.stop} is outside the query (length {length})" (.empty 0)]

/-- The reports on what an item holds besides its own span. -/
def contentReports (limits : Limits) (length : Nat) : Item → List Diagnostic
  -- The field reference is no item of the walk, so its span is checked here.
  | .node (.comparison field operator _ span) =>
    spanReports length field.span ++
      if allBlank operator then
        [structureError .emptyOperator s!"Comparison on '{field.name}' has no operator"
          (displaySpan length span)]
      else []
  | .value (.string value span) =>
    let size := byteSize value
    let limit := limits.maxStringLiteralLength.toNat
    if limit < size then
      [structureError .stringLiteralTooLarge
        s!"String literal is {size} bytes, the limit is {limit}" (displaySpan length span)]
    else []
  | _ => []

/-- The reports on the items of a walk; only the first item that is too deep is reported for it. -/
def itemReports (limits : Limits) (length : Nat) : Bool → List (Nat × Item) → List Diagnostic
  | _, [] => []
  | reported, (depth, item) :: rest =>
    let limit := limits.maxDepth.toNat
    -- Everything below the first item that is too deep is too deep as well.
    let tooDeep := !reported && limit < depth
    (if tooDeep then
      [structureError .astTooDeep s!"AST is deeper than {limit} levels"
        (displaySpan length item.span)]
    else []) ++
      spanReports length item.span ++ contentReports limits length item ++
      itemReports limits length (reported || tooDeep) rest

/-- The reports on what a reader noted about its AST. -/
def metadataReports (config : Config) (metadata : Metadata) : List Diagnostic :=
  (if metadata.parser = config.expectedParser then []
  else
    [structureError .unsupportedParserMetadata
      s!"Envelope was produced by unsupported parser '{metadata.parser}'" (.empty 0)]) ++
  (if metadata.nodeCount = 0 ∨ metadata.maxDepth = 0 then
    [structureError .invalidMetadata "Metadata node count and depth must be positive" (.empty 0)]
  else [])

/-- Every violation of an envelope's structure. -/
def structureReports (config : Config) (envelope : Envelope) : List Diagnostic :=
  -- The envelope's own text is what its spans are measured against.
  let length := byteSize envelope.rawQuery
  let lengthLimit := config.limits.maxRawQueryLength.toNat
  let size := envelope.root.size
  let sizeLimit := config.limits.maxNodeCount.toNat
  (if config.supportedAstVersions.contains envelope.astVersion then []
  else
    [structureError .unsupportedAstVersion s!"Unsupported AST version '{envelope.astVersion}'"
      (.empty 0)]) ++
  (if allBlank envelope.grammarVersion then
    [structureError .missingGrammarVersion "Envelope has no grammar version" (.empty 0)]
  else []) ++
  (if lengthLimit < length then [queryTooLarge length lengthLimit] else []) ++
  itemReports config.limits length false envelope.root.items ++
  (if sizeLimit < size then
    [structureError .astTooLarge s!"AST has {size} nodes, the limit is {sizeLimit}" (.empty 0)]
  else []) ++
  (envelope.metadata.map (metadataReports config)).getD []

end FilterLang
