import FilterLang.Text.Bytes
import FilterLang.Text.Cluster

/-! Lines that were typed with backspaces. -/

namespace FilterLang

/-- A line as far as it has been typed. -/
structure Draft where
  /-- The characters that are kept, the last one first. -/
  kept : List Char := []
  /-- The sizes of the clusters that a backspace can take away, the last one first. -/
  sizes : List UInt8 := []
deriving DecidableEq, Repr, Inhabited

namespace Draft

/-- A draft with one more cluster. -/
def add (draft : Draft) (cluster : List Char) : Draft :=
  ⟨cluster.reverse ++ draft.kept, (byteLength cluster).toUInt8 :: draft.sizes⟩

/--
A draft without its last cluster; none when the size on record ends inside a character.

The size is kept in one byte, so of a cluster of 256 bytes or more only the remainder is taken.
-/
def erase? (draft : Draft) : Option Draft :=
  match draft.sizes with
  -- At the beginning of a line there is nothing to take away.
  | [] => some draft
  | size :: sizes => (dropBytes size.toNat draft.kept).map (⟨·, sizes⟩)

/-- A draft after a cluster of the typed line. -/
def type? (draft : Draft) (cluster : List Char) : Option Draft :=
  -- A control character is always a cluster by itself.
  if cluster = ['\x08'] then draft.erase? else some (draft.add cluster)

end Draft

/-- The line that is left when all backspaces have been carried out. -/
def carryOut? (line : List Char) : Option (List Char) :=
  ((clusters line).foldlM Draft.type? {}).map (·.kept.reverse)

end FilterLang
