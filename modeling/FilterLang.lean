import FilterLang.Ast
import FilterLang.Ast.Build
import FilterLang.Ast.Structure
import FilterLang.Ast.Wire
import FilterLang.Compile
import FilterLang.Config
import FilterLang.Config.Wire
import FilterLang.Context
import FilterLang.Context.Wire
import FilterLang.Diagnostic
import FilterLang.Diagnostic.Wire
import FilterLang.Grammar
import FilterLang.Host.Checks
import FilterLang.Host.Completions
import FilterLang.Host.Reply
import FilterLang.Host.Sequencer
import FilterLang.Host.Timeline
import FilterLang.Ir
import FilterLang.Ir.Wire
import FilterLang.Json
import FilterLang.Json.Members
import FilterLang.Json.Printer
import FilterLang.Json.Reader
import FilterLang.KeyedTable
import FilterLang.Language
import FilterLang.Language.Wire
import FilterLang.Loading
import FilterLang.Main
import FilterLang.Number.Binary64
import FilterLang.Number.Decimal
import FilterLang.Number.Literal
import FilterLang.Number.Shortest
import FilterLang.Proofs.Ast.Expansion
import FilterLang.Proofs.Ast.Meaning
import FilterLang.Proofs.Ast.Substitution
import FilterLang.Proofs.Ast.Success
import FilterLang.Proofs.Compile.Reading
import FilterLang.Proofs.Grammar.Comparison
import FilterLang.Proofs.Grammar.Hole
import FilterLang.Proofs.Grammar.Phrase
import FilterLang.Proofs.Grammar.Recognition
import FilterLang.Proofs.Json.Numeral
import FilterLang.Proofs.Number.Digits
import FilterLang.Proofs.Number.Rounding
import FilterLang.Proofs.Text.Quoted
import FilterLang.Proofs.Token.Scan
import FilterLang.Proofs.Token.Spelling
import FilterLang.Proofs.Token.Splice
import FilterLang.Proofs.Tree.Subtrees
import FilterLang.Shell
import FilterLang.Span
import FilterLang.Suggestion
import FilterLang.Suggestion.Wire
import FilterLang.Text.Blank
import FilterLang.Text.Bytes
import FilterLang.Text.Cluster
import FilterLang.Text.ClusterClass
import FilterLang.Text.Erasure
import FilterLang.Text.Extender
import FilterLang.Text.Invisible
import FilterLang.Text.Letters
import FilterLang.Text.Quoted
import FilterLang.Text.Ranges
import FilterLang.Token
import FilterLang.Token.Lexer
import FilterLang.Tree
import FilterLang.Tree.Fault
import FilterLang.Tree.Outline
import FilterLang.Typing
import FilterLang.Proofs.Json.RoundTrip
import FilterLang.Proofs.Ast.Codec
import FilterLang.Proofs.Ast.Structure
import FilterLang.Proofs.Compile.Transit
import FilterLang.Proofs.Compile.Typed
import FilterLang.Proofs.Ast.Printing
import FilterLang.Proofs.Compile.Visibility
import FilterLang.Proofs.Grammar.Layout
import FilterLang.Proofs.Tree.Table
import FilterLang.Proofs.Grammar.WellFormed
import FilterLang.Proofs.Ast.Spans
import FilterLang.Proofs.Compile.Pointing
import FilterLang.Proofs.Grammar.Fragment
import FilterLang.Proofs.Context.Position
import FilterLang.Proofs.Token.Ending
import FilterLang.Proofs.Tree.LastLeaf
import FilterLang.Proofs.Tree.FirstError
import FilterLang.Proofs.Context.BreakOff
import FilterLang.Proofs.Context.Clauses
import FilterLang.Proofs.Context.HalfTyped
import FilterLang.Proofs.Host.History
import FilterLang.Proofs.Host.Supersession
import FilterLang.Proofs.Host.Coalescing
import FilterLang.Proofs.Compile.Loosening
import FilterLang.Proofs.Grammar.Placeless
import FilterLang.Proofs.Ast.Operators
import FilterLang.Proofs.Ast.Respelling
import FilterLang.Proofs.Ast.Violations
import FilterLang.Proofs.Compile.Objections
import FilterLang.Proofs.Ast.Builds
import FilterLang.Proofs.Ast.Placement
import FilterLang.Proofs.Number.Literal
import FilterLang.Proofs.Ast.Failure
import FilterLang.Proofs.Ast.Origins
import FilterLang.Proofs.Compile.FailedBuilds
import FilterLang.Proofs.Ast.Relevance
import FilterLang.Proofs.Grammar.Shape
import FilterLang.Proofs.Context.WhiteSpace
import FilterLang.Proofs.Grammar.ViablePrefix
import FilterLang.Proofs.Token.Tiling
import FilterLang.Proofs.Host.Merging
import FilterLang.Proofs.Compile.SuggestedValues
import FilterLang.Proofs.Context.CheckedCuts
import FilterLang.Proofs.Context.Payload
import FilterLang.Proofs.Token.Composition
import FilterLang.Proofs.Grammar.Nesting
import FilterLang.Proofs.Json.Documents
