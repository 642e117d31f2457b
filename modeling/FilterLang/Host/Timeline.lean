import FilterLang.Host.Checks
import FilterLang.Host.Completions

/-! Calls and replies on a clock. -/

namespace FilterLang

/-- Something that is to happen to a call at an instant. -/
structure Alarm (ε : Type) where
  due : Nat
  call : Nat
  event : ε
deriving Repr, Inhabited

namespace Alarm

variable {ε : Type}

/-- Whether an alarm goes off before another: earlier, or at once and for a lower call. -/
def before (left right : Alarm ε) : Bool :=
  left.due < right.due || (left.due == right.due && left.call < right.call)

/-- An alarm put in its place in a queue. -/
def enqueue (alarm : Alarm ε) : List (Alarm ε) → List (Alarm ε)
  | [] => [alarm]
  -- Alarms of one call at one instant stay in the order in which they were set.
  | next :: rest => if alarm.before next then alarm :: next :: rest else next :: alarm.enqueue rest

/-- The queue of several alarms. -/
def queue (alarms : List (Alarm ε)) : List (Alarm ε) :=
  alarms.foldl (fun queue alarm => alarm.enqueue queue) []

end Alarm

/--
Lets alarms go off one after another.

What goes off may set one more alarm for the same call, after a delay. The first argument bounds
how many go off.
-/
def runAlarms {ε σ : Type} (step : σ → Alarm ε → σ × Option (Nat × ε)) :
    Nat → List (Alarm ε) → σ → σ
  | 0, _, state => state
  | _ + 1, [], state => state
  | rounds + 1, alarm :: queue, state =>
    match step state alarm with
    | (state, none) => runAlarms step rounds queue state
    | (state, some (delay, event)) =>
      -- An alarm without delay goes off before those of later calls at the same instant.
      runAlarms step rounds ((Alarm.mk (alarm.due + delay) alarm.call event).enqueue queue) state

/-- A reply of a host and how long it takes. -/
structure TimedReply (α : Type) where
  delay : Nat
  reply : HostReply α
deriving Repr, Inhabited

/-- The next reply of those written down; when they run out it is an empty one at once. -/
def nextReply {α : Type} : List (TimedReply α) → TimedReply α × List (TimedReply α)
  | [] => (⟨0, .ok []⟩, [])
  | first :: rest => (first, rest)

/-- What a run shows: when each call ended, and when the host was asked for what. -/
structure Chronicle (α ρ : Type) where
  /-- The instant and the result of each call, by its number. -/
  endings : List (Nat × Nat × Option (List α)) := []
  /-- The instant and the content of each request to the host. -/
  requests : List (Nat × ρ) := []
deriving Repr, Inhabited

/-- A chronicle with a call's ending noted, when it has just come. -/
def Chronicle.noteEnding {α ρ : Type} (chronicle : Chronicle α ρ) (now call : Nat)
    (answer : Option (Option (List α))) : Chronicle α ρ :=
  match answer with
  | some result => { chronicle with endings := chronicle.endings ++ [(call, now, result)] }
  | none => chronicle

/-- A chronicle with a request to the host noted. -/
def Chronicle.noteRequest {α ρ : Type} (chronicle : Chronicle α ρ) (now : Nat) (request : ρ) :
    Chronicle α ρ :=
  { chronicle with requests := chronicle.requests ++ [(now, request)] }

/-- Completions on a clock. -/
structure CompletionTimeline where
  calls : Completions := {}
  replies : List (TimedReply Suggestion)
  chronicle : Chronicle Suggestion CompletionRequest := {}
deriving Repr, Inhabited

/-- Lets something happen to a completion call, and asks the host when the call needs it. -/
def CompletionTimeline.step (timeline : CompletionTimeline) (alarm : Alarm CompletionEvent) :
    CompletionTimeline × Option (Nat × CompletionEvent) :=
  -- A call ends in the instant in which it gets its answer.
  let calls := timeline.calls.step alarm.call alarm.event
  let chronicle := timeline.chronicle.noteEnding alarm.due alarm.call (calls.answer? alarm.call)
  match alarm.event, calls.answer? alarm.call with
  -- A call that has begun without an answer waits for the host.
  | .start _ request, none =>
    let (reply, rest) := nextReply timeline.replies
    (⟨calls, rest, chronicle.noteRequest alarm.due request⟩, some (reply.delay, .reply reply.reply))
  | _, _ => (⟨calls, timeline.replies, chronicle⟩, none)

/-- The run of completion calls that start at given instants, under one language. -/
def runCompletions (language : Language) (calls : List (Nat × CompletionRequest))
    (replies : List (TimedReply Suggestion)) : Chronicle Suggestion CompletionRequest :=
  let alarms := calls.zipIdx.map fun ((start, request), call) =>
    Alarm.mk start call (CompletionEvent.start language request)
  -- Each call goes off when it starts and at most once more, when its reply comes.
  let timeline : CompletionTimeline := { replies := replies }
  (runAlarms CompletionTimeline.step (2 * calls.length) (Alarm.queue alarms) timeline).chronicle

/-- Checks on a clock, with the query that each call is about. -/
structure CheckTimeline where
  calls : Checks := {}
  replies : List (TimedReply Diagnostic)
  chronicle : Chronicle Diagnostic String := {}
deriving Repr, Inhabited

/-- Lets something happen to a check call: it settles, then asks the host, then is answered. -/
def CheckTimeline.step (debounce : Nat) (query : Nat → String) (timeline : CheckTimeline)
    (alarm : Alarm CheckEvent) : CheckTimeline × Option (Nat × CheckEvent) :=
  let calls := timeline.calls.step alarm.call alarm.event
  let chronicle := timeline.chronicle.noteEnding alarm.due alarm.call (calls.answer? alarm.call)
  match alarm.event with
  | .start => (⟨calls, timeline.replies, chronicle⟩, some (debounce, .wake))
  | .wake =>
    -- A call that was not superseded asks the host now.
    if calls.isWaiting alarm.call then
      let (reply, rest) := nextReply timeline.replies
      (⟨calls, rest, chronicle.noteRequest alarm.due (query alarm.call)⟩,
        some (reply.delay, .reply reply.reply))
    else (⟨calls, timeline.replies, chronicle⟩, none)
  | .reply _ => (⟨calls, timeline.replies, chronicle⟩, none)

/-- The run of checks of queries that start at given instants, each settling for the same time. -/
def runChecks (debounce : Nat) (calls : List (Nat × String))
    (replies : List (TimedReply Diagnostic)) : Chronicle Diagnostic String :=
  let alarms := calls.zipIdx.map fun ((start, _), call) => Alarm.mk start call CheckEvent.start
  let query := fun call => ((calls[call]?).map (·.2)).getD ""
  -- Each call goes off when it starts, when it has settled and when its reply comes.
  let timeline : CheckTimeline := { replies := replies }
  (runAlarms (CheckTimeline.step debounce query) (3 * calls.length) (Alarm.queue alarms)
    timeline).chronicle

end FilterLang
