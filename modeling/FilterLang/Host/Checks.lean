import FilterLang.Diagnostic
import FilterLang.Host.Reply
import FilterLang.Host.Sequencer

/-! Checks of a query by a host, some time after its last change. -/

namespace FilterLang

/-- The report on a host that has no answer. -/
def callbackFailed (failure : HostFailure) : Diagnostic :=
  .warning .semantic .semanticCallbackFailed
    ("Remote semantic check failed: " ++ failure.message) (.empty 0)

/-- The reports of a host's reply; a failure is itself reported as a warning. -/
def replyReports : HostReply Diagnostic → List Diagnostic
  | .ok diagnostics => diagnostics
  | .error failure => [callbackFailed failure]

/-- What can happen to a call. -/
inductive CheckEvent where
  | start
  /-- The time to settle is over. -/
  | wake
  | reply (reply : HostReply Diagnostic)
deriving Repr, Inhabited

/-- The calls that settle, that wait for the host and that have been answered, by their numbers. -/
structure Checks where
  sequencer : Sequencer := {}
  settling : List (Nat × Ticket) := []
  waiting : List (Nat × Ticket) := []
  answers : List (Nat × Option (List Diagnostic)) := []
deriving DecidableEq, Repr, Inhabited

namespace Checks

/-- The ticket of a call among several. -/
def ticket? (calls : List (Nat × Ticket)) (call : Nat) : Option Ticket :=
  (calls.find? (·.1 == call)).map (·.2)

/-- The calls without one of them. -/
def without (calls : List (Nat × Ticket)) (call : Nat) : List (Nat × Ticket) :=
  calls.filter (·.1 != call)

/-- Whether a call waits for the host. -/
def isWaiting (state : Checks) (call : Nat) : Bool :=
  (ticket? state.waiting call).isSome

/-- The answer to a call, when it has one. -/
def answer? (state : Checks) (call : Nat) : Option (Option (List Diagnostic)) :=
  (state.answers.find? (·.1 == call)).map (·.2)

/-- A state with a call answered. -/
def answer (state : Checks) (call : Nat) (result : Option (List Diagnostic)) : Checks :=
  { state with answers := state.answers ++ [(call, result)] }

/-- The state after something has happened to a call; what no call waits for is dropped. -/
def step (state : Checks) (call : Nat) : CheckEvent → Checks
  | .start =>
    let (ticket, sequencer) := state.sequencer.issue
    { state with sequencer := sequencer, settling := state.settling ++ [(call, ticket)] }
  | .wake =>
    match ticket? state.settling call with
    | some ticket =>
      let awake := { state with settling := without state.settling call }
      -- A call that was superseded while it settled never reaches the host.
      if state.sequencer.isCurrent ticket then
        { awake with waiting := awake.waiting ++ [(call, ticket)] }
      else awake.answer call none
    | none => state
  | .reply reply =>
    match ticket? state.waiting call with
    | some ticket =>
      let served := { state with waiting := without state.waiting call }
      -- A reply that comes after a newer call is dropped.
      if state.sequencer.isCurrent ticket then served.answer call (some (replyReports reply))
      else served.answer call none
    | none => state

/-- The state after a run of events, each of which happens to a call. -/
def run (state : Checks) (events : List (Nat × CheckEvent)) : Checks :=
  events.foldl (fun state event => state.step event.1 event.2) state

end Checks

end FilterLang
