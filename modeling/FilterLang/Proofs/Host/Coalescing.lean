import FilterLang.Host.Timeline
import FilterLang.Proofs.Host.History

/-! Of the checks that start while a query is still changing only the last one asks the host. -/

namespace FilterLang

instance : CallEvent CheckEvent where
  isStart
    | .start => true
    | .wake => false
    | .reply _ => false

namespace Checks

/-- The state that a history leads to. -/
abbrev after (history : List (Nat × CheckEvent)) : Checks :=
  ({} : Checks).run history

/-- What a state holds of a call. -/
structure View where
  /-- The ticket with which it settles. -/
  settling : Option Ticket
  /-- The ticket with which it waits for the host. -/
  waiting : Option Ticket
  answer : Option (Option (List Diagnostic))
deriving DecidableEq, Repr

/-- What a state holds of one call. -/
def view (state : Checks) (call : Nat) : View :=
  ⟨ticket? state.settling call, ticket? state.waiting call, state.answer? call⟩

namespace View

/-- A call of which nothing has been heard. -/
def unknown : View :=
  ⟨none, none, none⟩

/-- A call that settles with a ticket. -/
def settles (ticket : UInt64) : View :=
  ⟨some ⟨ticket⟩, none, none⟩

/-- A call that waits for the host with a ticket. -/
def waits (ticket : UInt64) : View :=
  ⟨none, some ⟨ticket⟩, none⟩

/-- A call that has an answer. -/
def answered (result : Option (List Diagnostic)) : View :=
  ⟨none, none, some result⟩

/-- Whether an event of the call finds nothing to act on. -/
def Drops (view : View) : CheckEvent → Prop
  | .start => False
  | .wake => view.settling = none
  | .reply _ => view.waiting = none

end View

section Steps

variable {state : Checks} {call other : Nat} {ticket : Ticket}

/-- What a history leads to is gone on from by a later one. -/
theorem after_append (earlier later : List (Nat × CheckEvent)) :
    after (earlier ++ later) = (after earlier).run later := by
  simp [run]

/-- A run begins with its first event. -/
theorem run_cons (state : Checks) (call : Nat) (event : CheckEvent)
    (history : List (Nat × CheckEvent)) :
    state.run ((call, event) :: history) = (state.step call event).run history := rfl

/-- A call that starts settles with the next ticket. -/
theorem step_start : state.step call .start =
    { state with
      sequencer := ⟨state.sequencer.latest + 1⟩
      settling := state.settling ++ [(call, ⟨state.sequencer.latest + 1⟩)] } := rfl

/-- An event that finds nothing to act on changes nothing. -/
theorem step_dropped {event : CheckEvent} (drops : (state.view call).Drops event) :
    state.step call event = state := by
  -- A wake looks for the call among those that settle, a reply among those that wait.
  cases event with
  | start => exact drops.elim
  | wake =>
    have idle : ticket? state.settling call = none := drops
    simp [step, idle]
  | reply reply =>
    have idle : ticket? state.waiting call = none := drops
    simp [step, idle]

/-- A call that has settled asks the host while its ticket is current, and else ends. -/
theorem step_wake (settles : ticket? state.settling call = some ticket) :
    state.step call .wake =
      if state.sequencer.isCurrent ticket then
        { state with
          -- A call that settles goes on only if no later ticket has been issued.
          settling := without state.settling call
          waiting := state.waiting ++ [(call, ticket)] }
      else ({ state with settling := without state.settling call } : Checks).answer call none := by
  simp [step, settles]

/-- A reply that is waited for ends the call. -/
theorem step_reply (waits : ticket? state.waiting call = some ticket)
    (reply : HostReply Diagnostic) :
    state.step call (.reply reply) =
      ({ state with waiting := without state.waiting call } : Checks).answer call
        (if state.sequencer.isCurrent ticket then some (replyReports reply) else none) := by
  -- The call is answered either way; its ticket only decides with what.
  simp only [step, waits]
  split <;> rfl

/-- What happens to another call changes nothing for this one. -/
theorem view_step_other (apart : other ≠ call) (event : CheckEvent) :
    (state.step other event).view call = state.view call := by
  -- Every list gets at its end, or loses, entries of the other call only.
  cases event with
  | start =>
    rw [step_start]
    exact congrArg (View.mk · _ _) (filed?_snoc_other apart _)
  | wake =>
    cases settles : ticket? state.settling other with
    | none => exact congrArg (Checks.view · call) (step_dropped settles)
    | some ticket =>
      have settling : ticket? (without state.settling other) call = ticket? state.settling call :=
        filed?_filter_other apart
      rw [step_wake settles]
      split
      · exact congrArg₂ (View.mk · · _) settling (filed?_snoc_other apart _)
      · exact congrArg₂ (View.mk · _ ·) settling (filed?_snoc_other apart _)
  | reply reply =>
    cases waits : ticket? state.waiting other with
    | none => exact congrArg (Checks.view · call) (step_dropped waits)
    | some ticket =>
      have waiting : ticket? (without state.waiting other) call = ticket? state.waiting call :=
        filed?_filter_other apart
      rw [step_reply waits]
      exact congrArg₂ (View.mk _ · ·) waiting (filed?_snoc_other apart _)

/-- A call that starts begins to settle. -/
theorem view_start (unknown : state.view call = .unknown) :
    (state.step call .start).view call = .settles (state.sequencer.latest + 1) := by
  -- The call has no entry yet, so the new one shows.
  obtain ⟨fresh, idle, unanswered⟩ := View.mk.inj unknown
  have settling : ticket? (state.settling ++ [(call, ⟨state.sequencer.latest + 1⟩)]) call =
      some ⟨state.sequencer.latest + 1⟩ := filed?_snoc_self fresh _
  rw [step_start, view, settling]
  exact congrArg₂ (View.mk _) idle unanswered

/-- A call that has settled asks the host unless its ticket shows that others were given out. -/
theorem view_wake {ticket : UInt64} {issued : Nat} (settles : state.view call = .settles ticket)
    (latest : state.sequencer.latest = ticket + UInt64.ofNat issued) :
    (state.step call .wake).view call =
      if 2 ^ 64 ∣ issued then .waits ticket else .answered none := by
  -- Either way the call leaves those that settle.
  obtain ⟨held, idle, unanswered⟩ := View.mk.inj settles
  have settled : ticket? (without state.settling call) call = none := filed?_filter_self
  have current := Sequencer.isCurrent_iff latest
  rw [step_wake held]
  by_cases hidden : 2 ^ 64 ∣ issued
  · rw [if_pos (current.mpr hidden), if_pos hidden]
    exact congr (congrArg₂ View.mk settled (filed?_snoc_self idle _)) unanswered
  · rw [if_neg fun newest => hidden (current.mp newest), if_neg hidden]
    exact congr (congrArg₂ View.mk settled idle) (filed?_snoc_self unanswered _)

/-- The reply serves a call unless its ticket shows that others were given out. -/
theorem view_reply {ticket : UInt64} {issued : Nat} (waits : state.view call = .waits ticket)
    (latest : state.sequencer.latest = ticket + UInt64.ofNat issued)
    (reply : HostReply Diagnostic) :
    (state.step call (.reply reply)).view call =
      .answered (if 2 ^ 64 ∣ issued then some (replyReports reply) else none) := by
  -- The ticket is current exactly if the counter has come around to it.
  obtain ⟨settled, held, unanswered⟩ := View.mk.inj waits
  have served : ticket? (without state.waiting call) call = none := filed?_filter_self
  have current := Sequencer.isCurrent_iff latest
  simp only [step_reply held, current]
  exact congr (congrArg₂ View.mk settled served) (filed?_snoc_self unanswered _)

/-- Every start takes the next ticket, and nothing else does. -/
theorem latest_step (event : CheckEvent) :
    (state.step call event).sequencer.latest =
      state.sequencer.latest + UInt64.ofNat (startsIn [(call, event)]).length := by
  -- Only a start moves the counter, and it moves it by one.
  cases event with
  | start => rfl
  | wake =>
    refine Eq.trans ?_ (UInt64.add_zero _).symm
    cases settles : ticket? state.settling call with
    | none => exact congrArg (fun next : Checks => next.sequencer.latest) (step_dropped settles)
    | some ticket =>
      rw [step_wake settles]
      split <;> rfl
  | reply reply =>
    refine Eq.trans ?_ (UInt64.add_zero _).symm
    cases waits : ticket? state.waiting call with
    | none => exact congrArg (fun next : Checks => next.sequencer.latest) (step_dropped waits)
    | some ticket =>
      rw [step_reply waits]
      rfl

end Steps

section Runs

variable {state : Checks} {call : Nat}
  {history before behind settle flight rest : List (Nat × CheckEvent)}

/-- The last ticket counts the starts of a run. -/
theorem latest_run (state : Checks) (history : List (Nat × CheckEvent)) :
    (state.run history).sequencer.latest =
      state.sequencer.latest + UInt64.ofNat (startsIn history).length :=
  counter_run Checks.step (fun now => now.sequencer.latest) (fun _ _ => latest_step) state history

/-- A run whose events find nothing to act on for a call changes nothing for it. -/
theorem view_run_still
    (still : ∀ event, (call, event) ∈ history → (state.view call).Drops event) :
    (state.run history).view call = state.view call := by
  -- Events of other calls do not touch the view, and those of its own are dropped.
  refine view_run Checks.step (Checks.view · call) fun event member now same => ?_
  obtain ⟨other, event⟩ := event
  by_cases own : other = call
  · subst own
    rw [step_dropped (same ▸ still event member), same]
  · rw [view_step_other own, same]

/-- Where a call does not start, its events are none of its starts. -/
theorem ne_start (unstarted : call ∉ startsIn history) {event : CheckEvent}
    (member : (call, event) ∈ history) : event ≠ .start := by
  -- A start in the history would have been counted.
  rintro rfl
  exact unstarted (mem_startsIn.mpr ⟨_, member, rfl⟩)

/-- A call that has not started is not known. -/
theorem view_unstarted (unstarted : call ∉ startsIn history) :
    (after history).view call = .unknown := by
  -- A wake or a reply of a call that is not known finds nothing to act on.
  refine view_run_still fun event member => ?_
  cases event with
  | start => exact absurd rfl (ne_start unstarted member)
  | wake => rfl
  | reply reply => rfl

/-- A call that has been answered stays so. -/
theorem view_run_answered {result : Option (List Diagnostic)}
    (answered : state.view call = .answered result) (unstarted : call ∉ startsIn history) :
    (state.run history).view call = .answered result := by
  rw [view_run_still, answered]
  -- It neither settles nor waits, so further wakes and replies are dropped.
  intro event member
  rw [answered]
  cases event with
  | start => exact absurd rfl (ne_start unstarted member)
  | wake => rfl
  | reply reply => rfl

/-- A call settles with its ticket until it wakes, whatever happens to other calls. -/
theorem view_settling (once : (startsIn (before ++ (call, .start) :: settle)).Nodup)
    (asleep : (call, .wake) ∉ settle) :
    ∃ ticket : UInt64,
      (after (before ++ (call, .start) :: settle)).view call = .settles ticket ∧
      (after (before ++ (call, .start) :: settle)).sequencer.latest =
        ticket + UInt64.ofNat (startsIn settle).length := by
  obtain ⟨unstarted, unstarted'⟩ := startsIn_apart once rfl
  have started := view_start (view_unstarted unstarted)
  refine ⟨(after before).sequencer.latest + 1, ?_, ?_⟩
  · rw [after_append, run_cons, view_run_still, started]
    -- Nothing is waited for yet, so a reply is dropped.
    intro event member
    rw [started]
    cases event with
    | start => exact absurd rfl (ne_start unstarted' member)
    | wake => exact absurd member asleep
    | reply reply => rfl
  · rw [after_append, run_cons, latest_run, step_start]

/-- Behind its wake a call does not start again. -/
theorem unstarted_woken
    (once : (startsIn (before ++ (call, .start) :: (settle ++ (call, .wake) :: rest))).Nodup) :
    call ∉ startsIn rest := by
  -- Its one start lies in front, so there is none behind the wake.
  have unstarted := (startsIn_apart once rfl).2
  rw [startsIn_append, List.mem_append, not_or] at unstarted
  exact unstarted.2

section Woken

variable (once : (startsIn (before ++ (call, .start) :: (settle ++ (call, .wake) :: rest))).Nodup)
  (asleep : (call, .wake) ∉ settle)

include once asleep

/-- When a call wakes, its ticket tells whether others have started in between. -/
theorem view_woken :
    ∃ ticket : UInt64,
      ((after (before ++ (call, .start) :: settle)).step call .wake).view call =
        (if 2 ^ 64 ∣ (startsIn settle).length then .waits ticket else .answered none) ∧
      ((after (before ++ (call, .start) :: settle)).step call .wake).sequencer.latest =
        ticket + UInt64.ofNat (startsIn settle).length := by
  have early : before ++ (call, .start) :: settle <:+:
      before ++ (call, .start) :: (settle ++ (call, .wake) :: rest) :=
    ⟨[], (call, .wake) :: rest, by simp⟩
  obtain ⟨ticket, settles, latest⟩ := view_settling (nodup_startsIn early once) asleep
  refine ⟨ticket, view_wake settles latest, ?_⟩
  -- A wake gives out no ticket.
  rw [latest_step, latest]
  exact UInt64.add_zero _

/-- A call that wakes while others have started in between is answered with nothing. -/
theorem view_superseded (shown : ¬ 2 ^ 64 ∣ (startsIn settle).length) :
    (after (before ++ (call, .start) :: (settle ++ (call, .wake) :: rest))).view call =
      .answered none := by
  -- The wake answers with nothing, and an answered call keeps its answer.
  obtain ⟨ticket, woken, -⟩ := view_woken once asleep
  rw [if_neg shown] at woken
  rw [← List.cons_append, ← List.append_assoc, after_append, run_cons]
  exact view_run_answered woken (unstarted_woken once)

/-- A call that wakes with its ticket still current waits until its first reply. -/
theorem view_waiting (hidden : 2 ^ 64 ∣ (startsIn settle).length)
    (silent : ∀ reply, (call, .reply reply) ∉ rest) :
    ∃ ticket : UInt64,
      (after (before ++ (call, .start) :: (settle ++ (call, .wake) :: rest))).view call =
        .waits ticket ∧
      (after (before ++ (call, .start) :: (settle ++ (call, .wake) :: rest))).sequencer.latest =
        ticket + UInt64.ofNat (startsIn (settle ++ rest)).length := by
  obtain ⟨ticket, woken, latest⟩ := view_woken once asleep
  have unstarted := unstarted_woken once
  rw [if_pos hidden] at woken
  refine ⟨ticket, ?_, ?_⟩
  · rw [← List.cons_append, ← List.append_assoc, after_append, run_cons, view_run_still, woken]
    -- It no longer settles, so a further wake is dropped.
    intro event member
    rw [woken]
    cases event with
    | start => exact absurd rfl (ne_start unstarted member)
    | wake => rfl
    | reply reply => exact absurd member (silent reply)
  · rw [← List.cons_append, ← List.append_assoc, after_append, run_cons, latest_run, latest,
      startsIn_append, List.length_append, UInt64.ofNat_add, UInt64.add_assoc]

end Woken

/-- The first reply to a call that waits serves it unless its ticket shows the starts since. -/
theorem view_replied {reply : HostReply Diagnostic}
    (once : (startsIn (before ++ (call, .start) ::
      (settle ++ (call, .wake) :: (flight ++ (call, .reply reply) :: rest)))).Nodup)
    (asleep : (call, .wake) ∉ settle) (hidden : 2 ^ 64 ∣ (startsIn settle).length)
    (silent : ∀ other, (call, .reply other) ∉ flight) :
    (after (before ++ (call, .start) ::
      (settle ++ (call, .wake) :: (flight ++ (call, .reply reply) :: rest)))).view call =
      .answered (if 2 ^ 64 ∣ (startsIn (settle ++ flight)).length then some (replyReports reply)
        else none) := by
  -- The call starts once, and so not again behind the reply.
  have unstarted := unstarted_woken once
  rw [startsIn_append, List.mem_append, not_or] at unstarted
  have answered : call ∉ startsIn rest := unstarted.2
  have parts : before ++ (call, .start) ::
      (settle ++ (call, .wake) :: (flight ++ (call, .reply reply) :: rest)) =
      before ++ (call, .start) :: (settle ++ (call, .wake) :: flight) ++
        (call, .reply reply) :: rest := by
    simp
  rw [parts] at once ⊢
  have early := nodup_startsIn (List.prefix_append _ _).isInfix once
  obtain ⟨ticket, waits, latest⟩ := view_waiting early asleep hidden silent
  rw [after_append, run_cons]
  exact view_run_answered (view_reply waits latest reply) answered

/-- A call asks the host at some moment of a history. -/
def Fetches (history : List (Nat × CheckEvent)) (call : Nat) : Prop :=
  ∃ moment, moment <+: history ∧ (after moment).isWaiting call = true

/-- Fewer calls than there are tickets start while a call has no answer. -/
def Timely (history : List (Nat × CheckEvent)) (call : Nat) : Prop :=
  ∀ before during, before ++ (call, .start) :: during <+: history →
    (after (before ++ (call, .start) :: during)).answer? call = none →
    (startsIn during).length < 2 ^ 64

/-- What a reply in time gives: the host's reports, or one warning that it has none. -/
def Delivers : HostReply Diagnostic → List Diagnostic → Prop
  | .ok diagnostics, reports => reports = diagnostics
  | .error _, reports => ∃ report, reports = [report] ∧ report.severity = .warning ∧
      report.code = .semanticCallbackFailed

/-- The reports of a reply are what it gives. -/
theorem delivers_replyReports (reply : HostReply Diagnostic) :
    Delivers reply (replyReports reply) := by
  -- A failure is delivered as one report of it.
  cases reply with
  | ok diagnostics => rfl
  | error failure => exact ⟨callbackFailed failure, rfl, rfl, rfl⟩

/-- A call is in time where fewer calls than there are tickets start at all. -/
theorem timely_of_few (few : (startsIn history).length < 2 ^ 64) (call : Nat) :
    Timely history call := by
  -- A stretch of a history starts no more calls than the whole.
  rintro before during ⟨behind, rfl⟩ -
  have inside : during <:+: before ++ (call, .start) :: during ++ behind :=
    ⟨before ++ [(call, .start)], behind, by simp⟩
  exact Nat.lt_of_le_of_lt (length_startsIn_le inside) few

/-- A call that waits has woken, with its ticket still current. -/
theorem exists_of_waiting (once : (startsIn history).Nodup)
    (waits : (after history).isWaiting call = true) :
    ∃ before settle rest, history = before ++ (call, .start) :: (settle ++ (call, .wake) :: rest) ∧
      (call, .wake) ∉ settle ∧ 2 ^ 64 ∣ (startsIn settle).length := by
  -- In every other phase the view shows that the call does not wait.
  have shown : ∀ {view : View}, (after history).view call = view → view.waiting.isSome = true := by
    rintro view rfl
    exact waits
  have started : call ∈ startsIn history := by
    by_contra unstarted
    exact absurd (shown (view_unstarted unstarted)) (by decide)
  obtain ⟨before, event, behind, rfl, start⟩ := exists_of_mem_startsIn started
  cases event with
  | wake => cases start
  | reply reply => cases start
  | start =>
    by_cases woken : (call, .wake) ∈ behind
    · obtain ⟨settle, rest, rfl, asleep⟩ := List.eq_append_cons_of_mem woken
      refine ⟨before, settle, rest, rfl, asleep, ?_⟩
      by_contra superseded
      have ended := shown (view_superseded once asleep superseded)
      exact absurd ended (by simp [View.answered])
    · obtain ⟨ticket, settles, -⟩ := view_settling once woken
      exact absurd (shown settles) (by simp [View.settles])

/-- A call that asks the host has woken before any further call started. -/
theorem exists_of_fetches (split : history = before ++ (call, .start) :: behind)
    (once : (startsIn history).Nodup) (timely : Timely history call)
    (fetches : Fetches history call) :
    ∃ settle rest, behind = settle ++ (call, .wake) :: rest ∧ (call, .wake) ∉ settle ∧
      startsIn settle = [] := by
  obtain ⟨moment, ⟨later, rfl⟩, waits⟩ := fetches
  have passed := nodup_startsIn (List.prefix_append moment later).isInfix once
  obtain ⟨before', settle, rest, rfl, asleep, hidden⟩ := exists_of_waiting passed waits
  refine ⟨settle, rest ++ later, ?_, asleep, ?_⟩
  · -- The call starts at one place only.
    have fresh : ∀ {front back : List (Nat × CheckEvent)},
        (startsIn (front ++ (call, .start) :: back)).Nodup → (call, .start) ∉ front :=
      fun own member => ne_start (startsIn_apart own rfl).1 member rfl
    rw [split] at once
    rw [List.append_assoc] at split
    obtain ⟨-, same⟩ := first_split_unique split (fresh passed) (fresh once)
    simpa using same.symm
  · have early : before' ++ (call, .start) :: settle <+:
        before' ++ (call, .start) :: (settle ++ (call, .wake) :: rest) ++ later :=
      ⟨(call, .wake) :: rest ++ later, by simp⟩
    obtain ⟨ticket, settles, -⟩ := view_settling (nodup_startsIn early.isInfix once) asleep
    -- While it settles a call has no answer, so its ticket cannot have come round again.
    have few := timely before' settle early (congrArg View.answer settles)
    exact (dvd_length_iff few).mp hidden

/-- A call that wakes asks the host exactly when no further call has started by then. -/
theorem fetches_iff
    (split : history = before ++ (call, .start) :: (settle ++ (call, .wake) :: rest))
    (once : (startsIn history).Nodup) (timely : Timely history call)
    (asleep : (call, .wake) ∉ settle) : Fetches history call ↔ startsIn settle = [] := by
  constructor
  · intro fetches
    obtain ⟨settle', rest', same, asleep', alone⟩ := exists_of_fetches split once timely fetches
    obtain ⟨rfl, -⟩ := first_split_unique same asleep asleep'
    exact alone
  · intro alone
    -- The call waits right behind its wake.
    have early : before ++ (call, .start) :: (settle ++ [(call, .wake)]) <+: history :=
      ⟨rest, by simp [split]⟩
    obtain ⟨ticket, waits, -⟩ := view_waiting (nodup_startsIn early.isInfix once) asleep
      (alone ▸ Nat.dvd_zero _) (fun _ => List.not_mem_nil)
    exact ⟨_, early, congrArg (·.waiting.isSome) waits⟩

/-- A call that has not woken has no answer. -/
theorem answer?_asleep (once : (startsIn (before ++ (call, .start) :: settle)).Nodup)
    (asleep : (call, .wake) ∉ settle) :
    (after (before ++ (call, .start) :: settle)).answer? call = none := by
  -- A call that settles has no answer yet.
  obtain ⟨ticket, settles, -⟩ := view_settling once asleep
  exact congrArg View.answer settles

/-- A call that wakes after a further call has started gets nothing. -/
theorem answer?_superseded
    (split : history = before ++ (call, .start) :: (settle ++ (call, .wake) :: rest))
    (once : (startsIn history).Nodup) (timely : Timely history call)
    (asleep : (call, .wake) ∉ settle) (overtaken : startsIn settle ≠ []) :
    (after history).answer? call = some none := by
  -- Up to the wake the call is unanswered, so few others start; and some have, so the counter has
  -- moved and not come around.
  have early : before ++ (call, .start) :: settle <+: history :=
    ⟨(call, .wake) :: rest, by simp [split]⟩
  have few := timely before settle early
    (answer?_asleep (nodup_startsIn early.isInfix once) asleep)
  have shown : ¬ 2 ^ 64 ∣ (startsIn settle).length := fun hidden =>
    overtaken ((dvd_length_iff few).mp hidden)
  subst split
  exact congrArg View.answer (view_superseded once asleep shown)

/-- Until its first reply a call that asks the host has no answer. -/
theorem answer?_waiting
    (once : (startsIn (before ++ (call, .start) :: (settle ++ (call, .wake) :: flight))).Nodup)
    (asleep : (call, .wake) ∉ settle) (alone : startsIn settle = [])
    (silent : ∀ reply, (call, .reply reply) ∉ flight) :
    (after (before ++ (call, .start) :: (settle ++ (call, .wake) :: flight))).answer? call =
      none := by
  -- A call that waits has no answer yet.
  obtain ⟨ticket, waits, -⟩ := view_waiting once asleep (alone ▸ Nat.dvd_zero _) silent
  exact congrArg View.answer waits

/-- The first reply serves a call exactly when no further call has started by then. -/
theorem answer?_replied {reply : HostReply Diagnostic}
    (split : history = before ++ (call, .start) ::
      (settle ++ (call, .wake) :: (flight ++ (call, .reply reply) :: rest)))
    (once : (startsIn history).Nodup) (timely : Timely history call)
    (asleep : (call, .wake) ∉ settle) (silent : ∀ other, (call, .reply other) ∉ flight) :
    (after history).answer? call =
      some (if startsIn (settle ++ flight) = [] then some (replyReports reply) else none) := by
  by_cases alone : startsIn settle = []
  · have early : before ++ (call, .start) :: (settle ++ (call, .wake) :: flight) <+: history :=
      ⟨(call, .reply reply) :: rest, by simp [split]⟩
    -- The call waits without an answer up to the reply, so its ticket cannot have come round.
    have few := timely before _ early
      (answer?_waiting (nodup_startsIn early.isInfix once) asleep alone silent)
    have few' : (startsIn (settle ++ flight)).length < 2 ^ 64 := by
      rw [startsIn_append] at few ⊢
      exact few
    subst split
    have view := view_replied once asleep (alone ▸ Nat.dvd_zero _) silent
    simp only [dvd_length_iff few'] at view
    exact congrArg View.answer view
  · -- A call that was overtaken while it settled has its answer before the reply.
    have overtaken : startsIn (settle ++ flight) ≠ [] := by simp [alone]
    rw [answer?_superseded split once timely asleep alone, if_neg overtaken]

/-- Of calls that have started and not woken, the one that asks the host is the last. -/
theorem last_of_fetches (once : (startsIn history).Nodup) (timely : Timely history call)
    (fetches : Fetches history call) {moment : List (Nat × CheckEvent)}
    (passed : moment <+: history) (started : call ∈ startsIn moment)
    (asleep : (call, .wake) ∉ moment) : ∃ earlier, startsIn moment = earlier ++ [call] := by
  obtain ⟨later, rfl⟩ := passed
  obtain ⟨before, event, during, rfl, start⟩ := exists_of_mem_startsIn started
  cases event with
  | wake => cases start
  | reply reply => cases start
  | start =>
    obtain ⟨settle, rest, same, -, alone⟩ :=
      exists_of_fetches (List.append_assoc _ _ _) once timely fetches
    refine ⟨startsIn before, ?_⟩
    rw [startsIn_append, startsIn_cons_start rfl]
    -- What has passed since the start lies before the wake.
    rcases List.append_eq_append_iff.mp same with ⟨more, rfl, -⟩ | ⟨more, rfl, woken⟩
    · rw [startsIn_append, List.append_eq_nil_iff] at alone
      rw [alone.1]
    · cases more with
      | nil => rw [List.append_nil, alone]
      | cons event more =>
        obtain ⟨rfl, -⟩ := List.cons.inj woken
        simp at asleep

end Runs

/--
Checks of a changing query coalesce, and no stale one is delivered.

In a run in which no call starts twice, and for a call that is answered before the tickets come
round, a call asks the host exactly when no other call starts before it wakes. It is served exactly
when none starts before its first reply either, with the host's reports or with one warning in place
of a failure, and else it gets nothing. So of calls that have all started before one of them wakes,
only the last one started asks the host.
-/
theorem run_coalesces (history : List (Nat × CheckEvent)) (once : (startsIn history).Nodup) :
    (∀ before call behind, history = before ++ (call, .start) :: behind → Timely history call →
      ((call, .wake) ∉ behind →
        ¬ Fetches history call ∧ (after history).answer? call = none) ∧
      ∀ settle rest, behind = settle ++ (call, .wake) :: rest → (call, .wake) ∉ settle →
        (Fetches history call ↔ ¬ ∃ other, other ∈ startsIn settle) ∧
        (¬ Fetches history call → (after history).answer? call = some none) ∧
        (Fetches history call → (∀ reply, (call, .reply reply) ∉ rest) →
          (after history).answer? call = none) ∧
        ∀ flight reply tail, rest = flight ++ (call, .reply reply) :: tail →
          (∀ earlier, (call, .reply earlier) ∉ flight) →
          ((∃ reports, (after history).answer? call = some (some reports)) ↔
            ¬ ∃ other, other ∈ startsIn (settle ++ flight)) ∧
          ((∃ other, other ∈ startsIn (settle ++ flight)) →
            (after history).answer? call = some none) ∧
          ∀ reports, (after history).answer? call = some (some reports) →
            Delivers reply reports) ∧
    ∀ (moment : List (Nat × CheckEvent)) (group : List Nat), moment <+: history →
      (∀ call ∈ group, call ∈ startsIn moment ∧ (call, .wake) ∉ moment) →
      ∀ call ∈ group, Timely history call → Fetches history call →
      ∀ other ∈ group, other ≠ call → [other, call].Sublist (startsIn moment) := by
  have none_iff : ∀ calls : List Nat, (¬ ∃ other, other ∈ calls) ↔ calls = [] := by
    intro calls
    rw [List.eq_nil_iff_forall_not_mem, not_exists]
  refine ⟨fun before call behind split timely => ⟨fun asleep => ⟨?_, ?_⟩, ?_⟩, ?_⟩
  · -- To ask the host a call has to wake.
    intro fetches
    obtain ⟨settle, rest, rfl, -⟩ := exists_of_fetches split once timely fetches
    simp at asleep
  · subst split
    exact answer?_asleep once asleep
  · intro settle rest behindSplit asleep
    rw [behindSplit] at split
    have fetched := fetches_iff split once timely asleep
    refine ⟨fetched.trans (none_iff _).symm, ?_, ?_, ?_⟩
    · intro unasked
      exact answer?_superseded split once timely asleep fun alone => unasked (fetched.mpr alone)
    · intro asked silent
      subst split
      exact answer?_waiting once asleep (fetched.mp asked) silent
    · -- All that is said of a call that is replied to follows from its answer.
      intro flight reply tail restSplit silent
      rw [restSplit] at split
      have answer := answer?_replied split once timely asleep silent
      rw [none_iff, answer]
      by_cases alone : startsIn (settle ++ flight) = []
      · rw [if_pos alone]
        refine ⟨⟨fun _ => alone, fun _ => ⟨_, rfl⟩⟩,
          fun overtaken => absurd overtaken ((none_iff _).mpr alone), ?_⟩
        intro reports same
        obtain rfl := Option.some.inj (Option.some.inj same)
        exact delivers_replyReports reply
      · rw [if_neg alone]
        refine ⟨⟨?_, fun none => absurd none alone⟩, fun _ => rfl, ?_⟩
        · rintro ⟨reports, same⟩
          cases same
        · intro reports same
          cases same
  · -- The call that asks the host started last, so every other one of the group before it.
    intro moment group passed asleep call member timely fetches other member' apart
    obtain ⟨earlier, last⟩ :=
      last_of_fetches once timely fetches passed (asleep call member).1 (asleep call member).2
    have started := (asleep other member').1
    rw [last, List.mem_append, List.mem_singleton] at started
    rw [last]
    exact (List.singleton_sublist.mpr (started.resolve_right apart)).append (List.Sublist.refl _)

/-- The second of two calls asks a host that fails, and the third is overtaken while it waits. -/
def debouncedHistory : List (Nat × CheckEvent) :=
  [(0, .start), (1, .start), (0, .wake), (1, .wake), (1, .reply (.error (.timeout 10))),
    (2, .start), (2, .wake), (3, .start), (2, .reply (.ok []))]

/-- The first call never asks, the second gets one warning, and the third gets nothing. -/
theorem debouncedHistory_coalesces :
    (startsIn debouncedHistory).Nodup ∧ (∀ call, Timely debouncedHistory call) ∧
      (¬ Fetches debouncedHistory 0 ∧ (after debouncedHistory).answer? 0 = some none) ∧
      (Fetches debouncedHistory 1 ∧ ∃ reports, (after debouncedHistory).answer? 1 =
        some (some reports) ∧ Delivers (.error (.timeout 10)) reports) ∧
      Fetches debouncedHistory 2 ∧ (after debouncedHistory).answer? 2 = some none := by
  -- Distinct starts and their number are computed; each fate is one use of the theorem, at the
  -- place where its call starts.
  have once : (startsIn debouncedHistory).Nodup := by decide
  have timely := timely_of_few (show (startsIn debouncedHistory).length < 2 ^ 64 by decide)
  obtain ⟨fates, -⟩ := run_coalesces debouncedHistory once
  refine ⟨once, timely, ?_, ?_, ?_⟩
  · obtain ⟨fetched, superseded, -⟩ :=
      (fates [] 0 _ rfl (timely 0)).2 [(1, .start)] _ rfl (by simp)
    have unasked : ¬ Fetches debouncedHistory 0 := fun asks => fetched.mp asks ⟨1, by decide⟩
    exact ⟨unasked, superseded unasked⟩
  · obtain ⟨fetched, -, -, replied⟩ :=
      (fates [(0, .start)] 1 _ rfl (timely 1)).2 [(0, .wake)] _ rfl (by simp)
    obtain ⟨served, -, delivered⟩ := replied [] _ _ rfl (fun _ => List.not_mem_nil)
    obtain ⟨reports, answer⟩ := served.mpr (by rintro ⟨other, member⟩; cases member)
    exact ⟨fetched.mpr (by rintro ⟨other, member⟩; cases member), reports, answer,
      delivered reports answer⟩
  · obtain ⟨fetched, -, -, replied⟩ :=
      (fates (debouncedHistory.take 5) 2 _ rfl (timely 2)).2 [] _ rfl (by simp)
    obtain ⟨-, stale, -⟩ := replied [(3, .start)] _ _ rfl (by simp)
    exact ⟨fetched.mpr (by rintro ⟨other, member⟩; cases member), stale ⟨3, by decide⟩⟩

/-- So many further calls that start one after the other. -/
def crowd (count : Nat) : List (Nat × CheckEvent) :=
  (List.range count).map fun other => (other + 1, .start)

/-- A call that settles while so many others start, and is replied to as soon as it has woken. -/
def crowdedHistory (count : Nat) : List (Nat × CheckEvent) :=
  (0, .start) :: (crowd count ++ (0, .wake) :: [(0, .reply (.ok []))])

/-- The further calls start in the order of their numbers. -/
theorem startsIn_crowd (count : Nat) : startsIn (crowd count) = (List.range count).map (· + 1) := by
  -- Every event of the crowd is a start, so none is left out.
  have all : (crowd count).filter (fun event => CallEvent.isStart event.2) = crowd count :=
    List.filter_eq_self.mpr (List.forall_mem_map.mpr fun _ _ => rfl)
  rw [startsIn, all, crowd, List.map_map]
  rfl

/-- No call of the crowded history starts twice. -/
theorem nodup_crowdedHistory (count : Nat) : (startsIn (crowdedHistory count)).Nodup := by
  -- The starts are the call's own and then those of the crowd, numbered upwards.
  have starts : startsIn (crowdedHistory count) = 0 :: (List.range count).map (· + 1) := by
    rw [crowdedHistory, startsIn_cons_start rfl, startsIn_append, startsIn_crowd]
    exact congrArg _ (List.append_nil _)
  rw [starts, List.nodup_cons]
  exact ⟨by simp, List.nodup_range.map Nat.succ_injective⟩

/-- A crowd that the tickets come round for is not noticed: the call asks the host and is served. -/
theorem crowdedHistory_served {count : Nat} (hidden : 2 ^ 64 ∣ count) :
    Fetches (crowdedHistory count) 0 ∧
      (after (crowdedHistory count)).answer? 0 = some (some []) := by
  have once := nodup_crowdedHistory count
  have asleep : (0, .wake) ∉ crowd count := by simp [crowd]
  have starts : 2 ^ 64 ∣ (startsIn (crowd count)).length := by
    rwa [startsIn_crowd, List.length_map, List.length_range]
  constructor
  · -- The call waits right behind its wake.
    have early : [] ++ (0, .start) :: (crowd count ++ [(0, .wake)]) <+: crowdedHistory count :=
      ⟨[(0, .reply (.ok []))], by simp [crowdedHistory]⟩
    obtain ⟨ticket, waits, -⟩ := view_waiting (nodup_startsIn early.isInfix once) asleep starts
      (fun _ => List.not_mem_nil)
    exact ⟨_, early, congrArg (·.waiting.isSome) waits⟩
  · -- Nothing starts between the wake and the reply.
    have replied : (after ([] ++ (0, .start) ::
        (crowd count ++ (0, .wake) :: ([] ++ [(0, .reply (.ok []))])))).view 0 = _ :=
      view_replied once asleep starts (fun _ => List.not_mem_nil)
    rw [List.append_nil, if_pos starts] at replied
    exact congrArg View.answer replied

/--
A call goes by its ticket alone, and looks at it only when it goes on.

Where as many further calls start as there are tickets while a call settles, it asks the host and is
served in spite of them. And a call whose time to settle is over at the instant at which another
starts does not ask the host if it is the other one that goes on first.
-/
theorem crowdedHistory_overlooked :
    ((startsIn (crowdedHistory (2 ^ 64))).Nodup ∧ (∃ other, other ∈ startsIn (crowd (2 ^ 64))) ∧
      Fetches (crowdedHistory (2 ^ 64)) 0 ∧
      (after (crowdedHistory (2 ^ 64))).answer? 0 = some (some [])) ∧
    (runChecks 150 [(150, "NOT archived"), (0, "archived")] [⟨1, .ok []⟩]).requests =
      [(300, "NOT archived")] := by
  -- The number of the calls only has to be divisible, so it is never counted up to.
  have first : 1 ∈ startsIn (crowd (2 ^ 64)) := by
    rw [startsIn_crowd]
    exact List.mem_map.mpr ⟨0, List.mem_range.mpr (Nat.two_pow_pos 64), rfl⟩
  exact ⟨⟨nodup_crowdedHistory _, ⟨1, first⟩, crowdedHistory_served (Nat.dvd_refl _)⟩, by decide⟩

end Checks

end FilterLang
