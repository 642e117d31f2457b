import FilterLang.Diagnostic
import FilterLang.Tree

/-! The report on a tree that holds an error. -/

namespace FilterLang

namespace NodeKind

/-- What was expected at an error. -/
def expected : NodeKind → String
  | error (some what) => what
  | _ => "valid input"

end NodeKind

namespace Tree

/-- The report on the first error: input left over when it hangs directly under the top node. -/
def fault? (tree : Tree) : Option Diagnostic :=
  tree.firstError?.map fun visit =>
    let start := visit.span.start
    -- Only what is left over hangs directly under the top; missing parts stand where they belong.
    if visit.ancestors.length = 1 then
      .error .text .unparsedTrailingInput
        s!"Unexpected input after the end of the query at {start}" visit.span
    else
      .error .text .syntaxError
        s!"Syntax error: expected {visit.kind.expected} at {start}" visit.span

end Tree

end FilterLang
