import FilterLang.Text.Invisible
import FilterLang.Tree

/-! A tree as indented lines, each leaf with its text. -/

namespace FilterLang

/-- A character as it is shown inside quotes. -/
def shownChar (c : Char) : List Char :=
  match c with
  | '\x00' => ['\\', '0']
  | '\t' => ['\\', 't']
  | '\r' => ['\\', 'r']
  | '\n' => ['\\', 'n']
  | '"' => ['\\', '"']
  | '\\' => ['\\', '\\']
  | c =>
    if isInvisible c then ['\\', 'u', '\x7b'] ++ Nat.toDigits 16 c.toNat ++ ['\x7d'] else [c]

/-- A text as it is shown, in quotes and with what cannot be seen written out. -/
def shownText (cs : List Char) : String :=
  String.ofList ('"' :: cs.flatMap shownChar ++ ['"'])

namespace Tree

/-- The line of a node: its kind and span, and a solid leaf's text. -/
def outlineLine (source : List Char) (visit : Visit) : String :=
  -- Two blanks for each ancestor.
  let indent := String.ofList (List.replicate (2 * visit.ancestors.length) ' ')
  let head := s!"{visit.kind.name} {visit.span.start}..{visit.span.stop}"
  let tail :=
    -- Inner nodes and empty marks have no text of their own to show.
    if visit.isSolidLeaf then " " ++ shownText (visit.tree.chars source)
    else ""
  indent ++ head ++ tail

/-- The lines of a tree over its source, each node before those below it. -/
def outlineLines (tree : Tree) (source : List Char) : List String :=
  tree.visits.map (outlineLine source)

/-- The lines of a tree as one text, each with its line break. -/
def outline (tree : Tree) (source : List Char) : String :=
  String.join ((tree.outlineLines source).map (· ++ "\n"))

end Tree

end FilterLang
