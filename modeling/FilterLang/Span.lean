/-! Half-open ranges of byte offsets. -/

namespace FilterLang

/-- A range of byte offsets, from its start up to but without its stop. -/
structure Span where
  /-- The first offset of the range. -/
  start : Nat
  /-- The offset just past the range. -/
  stop : Nat
deriving DecidableEq, Repr, Inhabited

namespace Span

/-- The range of no bytes at an offset. -/
def empty (offset : Nat) : Span :=
  ⟨offset, offset⟩

/-- The least range that holds both ranges. -/
def cover (left right : Span) : Span :=
  ⟨min left.start right.start, max left.stop right.stop⟩

/-- Whether a range holds no byte. -/
def isEmpty (span : Span) : Bool :=
  span.stop ≤ span.start

/-- Whether a range is in order and ends within a text of the given length. -/
def fits (span : Span) (length : Nat) : Bool :=
  span.start ≤ span.stop && span.stop ≤ length

end Span

end FilterLang
