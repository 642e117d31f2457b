import FilterLang.Ast.Build
import FilterLang.Ast.Structure
import FilterLang.Ir
import FilterLang.Typing

/-! From a query text to its envelope, and from an envelope to its executable form. -/

namespace FilterLang

/-- What came of reading a query: an envelope, or reports on why there is none. -/
structure Analysis where
  envelope : Option Envelope
  diagnostics : List Diagnostic
deriving Repr, Inhabited

/-- What came of compiling a query: its executable form, or reports on why there is none. -/
structure Compilation where
  success : Bool
  diagnostics : List Diagnostic
  ir : Option Ir
deriving Repr, Inhabited

/--
Reads a query.

A text over the length limit is not read at all, a query stops at its first fault, and an envelope
that the structural checks would refuse is not handed out.
-/
def analyze (config : Config) (language : Language) (text : String) : Analysis :=
  let length := byteSize text
  let limit := config.limits.maxRawQueryLength.toNat
  -- The length is checked before any work is spent on the text.
  if limit < length then ⟨none, [queryTooLarge length limit]⟩
  else
    match buildEnvelope .standard language config.aliasDepthLimit.toNat (parse text) text with
    | .error error => ⟨none, [error.diagnostic length]⟩
    | .ok envelope =>
      let reports := structureReports config envelope
      if hasErrors reports then ⟨none, reports⟩ else ⟨some envelope, reports⟩

/-- Checks an envelope's structure, then its typing, and lowers it when neither finds an error. -/
def compileEnvelope (config : Config) (language : Language) (envelope : Envelope) : Compilation :=
  let structural := structureReports config envelope
  -- An envelope with a broken structure is not checked any further.
  if hasErrors structural then ⟨false, structural, none⟩
  else
    let reports := structural ++ typingReports language envelope.root
    if hasErrors reports then ⟨false, reports, none⟩
    else ⟨true, reports, some envelope.root.lower⟩

/-- Reads a query and compiles its envelope. -/
def compileQuery (config : Config) (language : Language) (text : String) : Compilation :=
  let analysis := analyze config language text
  match analysis.envelope with
  | some envelope => compileEnvelope config language envelope
  | none => ⟨false, analysis.diagnostics, none⟩

end FilterLang
