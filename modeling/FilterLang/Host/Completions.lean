import FilterLang.Host.Reply
import FilterLang.Host.Sequencer
import FilterLang.Suggestion

/-! Completion with the help of a host. -/

namespace FilterLang

/-- What a host is asked when a field's values are wanted. -/
structure CompletionRequest where
  text : String
  cursor : Nat
  context : Context
deriving DecidableEq, Repr, Inhabited

/-- Whether the host is asked: only for values, and unless the field's policy says otherwise. -/
def wantsRemote (language : Language) (context : Context) : Bool :=
  context.wantsValues &&
    -- A field without a policy, or no known field, asks the host.
    match context.field?.bind language.policy? with
    | some policy => policy.remoteValues
    | none => true

/-- A call that waits for the host. -/
structure PendingCompletion where
  ticket : Ticket
  own : List Suggestion
  cap : Option UInt64
deriving DecidableEq, Repr, Inhabited

/-- The answer to a call once the host has replied; none when the call has been superseded. -/
def PendingCompletion.settle (pending : PendingCompletion) (sequencer : Sequencer)
    (reply : HostReply Suggestion) : Option (List Suggestion) :=
  if sequencer.isCurrent pending.ticket then
    match reply with
    -- The cap counts the language's own suggestions and those of the host together.
    | .ok remote => some (capped pending.cap (mergeSuggestions pending.own remote))
    -- A host that fails costs nothing but its suggestions.
    | .error _ => some pending.own
  else none

/-- What can happen to a call. -/
inductive CompletionEvent where
  | start (language : Language) (request : CompletionRequest)
  | reply (reply : HostReply Suggestion)
deriving Repr, Inhabited

/-- The calls that wait and the calls that have been answered, by their numbers. -/
structure Completions where
  sequencer : Sequencer := {}
  waiting : List (Nat × PendingCompletion) := []
  answers : List (Nat × Option (List Suggestion)) := []
deriving DecidableEq, Repr, Inhabited

namespace Completions

/-- The pending call of a number. -/
def pending? (state : Completions) (call : Nat) : Option PendingCompletion :=
  (state.waiting.find? (·.1 == call)).map (·.2)

/-- The answer to a call, when it has one. -/
def answer? (state : Completions) (call : Nat) : Option (Option (List Suggestion)) :=
  (state.answers.find? (·.1 == call)).map (·.2)

/-- A state with a call answered. -/
def answer (state : Completions) (call : Nat) (result : Option (List Suggestion)) : Completions :=
  { state with
    waiting := state.waiting.filter (·.1 != call)
    answers := state.answers ++ [(call, result)] }

/-- The state after something has happened to a call; a reply that no call waits for is dropped. -/
def step (state : Completions) (call : Nat) : CompletionEvent → Completions
  | .start language request =>
    -- Also a call that is answered at once supersedes those before it.
    let (ticket, sequencer) := state.sequencer.issue
    let own := suggest language request.context
    let begun := { state with sequencer := sequencer }
    if wantsRemote language request.context then
      let cap := request.context.field?.bind (suggestionCap language)
      { begun with waiting := begun.waiting ++ [(call, ⟨ticket, own, cap⟩)] }
    else begun.answer call (some own)
  | .reply reply =>
    match state.pending? call with
    | some pending => state.answer call (pending.settle state.sequencer reply)
    | none => state

/-- The state after a run of events, each of which happens to a call. -/
def run (state : Completions) (events : List (Nat × CompletionEvent)) : Completions :=
  events.foldl (fun state event => state.step event.1 event.2) state

end Completions

end FilterLang
