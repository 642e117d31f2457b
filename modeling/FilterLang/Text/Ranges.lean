/-! Sets of characters that a table lists as ranges of code points. -/

namespace FilterLang

/-- Whether a character lies in one of several ranges, both ends of which belong to it. -/
def inRanges (ranges : List (Nat × Nat)) (c : Char) : Bool :=
  ranges.any fun range => range.1 ≤ c.toNat && c.toNat ≤ range.2

end FilterLang
