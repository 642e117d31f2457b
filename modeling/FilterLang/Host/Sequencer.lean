/-! Numbering requests so that only the newest one counts. -/

namespace FilterLang

/-- The number of a request. -/
structure Ticket where
  number : UInt64
deriving DecidableEq, Repr, Inhabited

/-- The number given out last. -/
structure Sequencer where
  latest : UInt64 := 0
deriving DecidableEq, Repr, Inhabited

namespace Sequencer

/-- The next ticket, which is from then on the only current one. -/
def issue (sequencer : Sequencer) : Ticket × Sequencer :=
  -- The number wraps around only after all 64-bit words are used up.
  let next := sequencer.latest + 1
  (⟨next⟩, ⟨next⟩)

/-- Whether no ticket was given out after this one. -/
def isCurrent (sequencer : Sequencer) (ticket : Ticket) : Bool :=
  sequencer.latest == ticket.number

end Sequencer

end FilterLang
