import FilterLang.Proofs.Host.History

/-! A completion call is answered with the host's values only while it is the newest call. -/

namespace FilterLang

instance : CallEvent CompletionEvent where
  isStart
    | .start _ _ => true
    | .reply _ => false

/-- What a call that nothing supersedes is answered with once the host has replied. -/
def CompletionRequest.served (language : Language) (request : CompletionRequest) :
    HostReply Suggestion → List Suggestion
  | .ok remote =>
    capped (request.context.field?.bind (suggestionCap language))
      (mergeSuggestions (suggest language request.context) remote)
  | .error _ => suggest language request.context

/-- A call as it waits for the host with a ticket. -/
def CompletionRequest.pending (language : Language) (request : CompletionRequest)
    (ticket : UInt64) : PendingCompletion :=
  ⟨⟨ticket⟩, suggest language request.context,
    request.context.field?.bind (suggestionCap language)⟩

/-- The reply serves a call whose ticket is still the last. -/
theorem CompletionRequest.settle_pending (language : Language) (request : CompletionRequest)
    (ticket : UInt64) (issued : Nat) (reply : HostReply Suggestion) :
    (request.pending language ticket).settle ⟨ticket + UInt64.ofNat issued⟩ reply =
      if 2 ^ 64 ∣ issued then some (request.served language reply) else none := by
  have current : Sequencer.isCurrent ⟨ticket + UInt64.ofNat issued⟩ ⟨ticket⟩ = true ↔
      2 ^ 64 ∣ issued := Sequencer.isCurrent_iff rfl
  unfold PendingCompletion.settle
  by_cases hidden : 2 ^ 64 ∣ issued
  · rw [if_pos hidden]
    -- A ticket that is current is served by what the reply holds.
    have newest := current.mpr hidden
    cases reply <;> exact if_pos newest
  · rw [if_neg hidden]
    exact if_neg fun newest => hidden (current.mp newest)

namespace Completions

/-- The state that a history leads to. -/
abbrev after (history : List (Nat × CompletionEvent)) : Completions :=
  ({} : Completions).run history

/-- What a state holds of a call: how it waits for the host, and how it was answered. -/
def view (state : Completions) (call : Nat) :
    Option PendingCompletion × Option (Option (List Suggestion)) :=
  (state.pending? call, state.answer? call)

section Steps

variable {state : Completions} {call other : Nat} {language : Language}
  {request : CompletionRequest}

/-- What a history leads to is gone on from by a later one. -/
theorem after_append (earlier later : List (Nat × CompletionEvent)) :
    after (earlier ++ later) = (after earlier).run later := by
  simp [run]

/-- A run begins with its first event. -/
theorem run_cons (state : Completions) (call : Nat) (event : CompletionEvent)
    (history : List (Nat × CompletionEvent)) :
    state.run ((call, event) :: history) = (state.step call event).run history := rfl

/-- An answer ends the wait of its call, and the first answer stays. -/
theorem view_answer (result : Option (List Suggestion)) :
    (state.answer call result).view call = (none, (state.answer? call).or (some result)) := by
  -- The call leaves those that wait, and its answer is filed behind all others.
  have waits : (state.answer call result).pending? call = none := filed?_filter_self
  have answered : (state.answer call result).answer? call = (state.answer? call).or (some result) :=
    (filed?_snoc result).trans (by simp [answer?, filed?])
  rw [view, waits, answered]

/-- The answer to another call changes nothing for this one. -/
theorem view_answer_other (apart : other ≠ call) (result : Option (List Suggestion)) :
    (state.answer other result).view call = state.view call := by
  -- Both lists change in entries of the other call only.
  have waits : (state.answer other result).pending? call = state.pending? call :=
    filed?_filter_other apart
  have answered : (state.answer other result).answer? call = state.answer? call :=
    filed?_snoc_other apart result
  rw [view, waits, answered, view]

/-- A call that asks the host waits with the next ticket. -/
theorem step_start_asking (asks : wantsRemote language request.context = true) :
    state.step call (.start language request) =
      { state with
        sequencer := ⟨state.sequencer.latest + 1⟩
        waiting := state.waiting ++
          [(call, request.pending language (state.sequencer.latest + 1))] } := by
  simp [step, Sequencer.issue, asks, CompletionRequest.pending]

/-- A call that does not ask the host is answered at once, yet takes a ticket. -/
theorem step_start_local (own : wantsRemote language request.context = false) :
    state.step call (.start language request) =
      ({ state with sequencer := ⟨state.sequencer.latest + 1⟩ } : Completions).answer call
        (some (suggest language request.context)) := by
  simp [step, Sequencer.issue, own]

/-- A reply that the call does not wait for changes nothing. -/
theorem step_reply_idle (idle : state.pending? call = none) (reply : HostReply Suggestion) :
    state.step call (.reply reply) = state := by
  simp [step, idle]

/-- A reply that the call waits for answers it. -/
theorem step_reply_waiting {pending : PendingCompletion}
    (waits : state.pending? call = some pending) (reply : HostReply Suggestion) :
    state.step call (.reply reply) =
      state.answer call (pending.settle state.sequencer reply) := by
  simp [step, waits]

/-- What happens to another call changes nothing for this one. -/
theorem view_step_other (apart : other ≠ call) (event : CompletionEvent) :
    (state.step other event).view call = state.view call := by
  cases event with
  | start language request =>
    -- A call that asks the host is filed as waiting, any other one is answered.
    cases asks : wantsRemote language request.context with
    | true =>
      rw [step_start_asking asks]
      exact congrArg (·, state.answer? call) (filed?_snoc_other apart _)
    | false => rw [step_start_local asks, view_answer_other apart]; rfl
  | reply reply =>
    cases waits : state.pending? other with
    | none => rw [step_reply_idle waits]
    | some pending => rw [step_reply_waiting waits, view_answer_other apart]

/-- A call that asks the host begins to wait. -/
theorem view_start_asking (asks : wantsRemote language request.context = true)
    (unknown : state.view call = (none, none)) :
    (state.step call (.start language request)).view call =
      (some (request.pending language (state.sequencer.latest + 1)), none) := by
  obtain ⟨idle, unanswered⟩ := Prod.ext_iff.mp unknown
  rw [step_start_asking asks]
  -- The call has no entry yet, so the new one shows.
  exact Prod.ext (filed?_snoc_self idle _) unanswered

/-- A call that does not ask the host is answered with the language's own suggestions. -/
theorem view_start_local (own : wantsRemote language request.context = false)
    (unknown : state.view call = (none, none)) :
    (state.step call (.start language request)).view call =
      (none, some (some (suggest language request.context))) := by
  -- There is no earlier answer that the new one could stand behind.
  have unanswered : state.answer? call = none := congrArg Prod.snd unknown
  rw [step_start_local own, view_answer]
  show (none, (state.answer? call).or _) = _
  rw [unanswered, Option.none_or]

/-- The reply serves a call unless its ticket shows that others were given out. -/
theorem view_reply {ticket : UInt64} {issued : Nat}
    (waits : state.view call = (some (request.pending language ticket), none))
    (latest : state.sequencer.latest = ticket + UInt64.ofNat issued)
    (reply : HostReply Suggestion) :
    (state.step call (.reply reply)).view call =
      (none, some (if 2 ^ 64 ∣ issued then some (request.served language reply) else none)) := by
  -- The counter has moved on by the tickets given out since the call's own.
  obtain ⟨pending, unanswered⟩ := Prod.ext_iff.mp waits
  rw [step_reply_waiting pending, view_answer,
    show state.answer? call = none from unanswered, Option.none_or,
    ← CompletionRequest.settle_pending, ← latest]

/-- Every start takes the next ticket, and nothing else does. -/
theorem latest_step (event : CompletionEvent) :
    (state.step call event).sequencer.latest =
      state.sequencer.latest + UInt64.ofNat (startsIn [(call, event)]).length := by
  -- Both forms of a start issue a ticket; a reply issues none.
  cases event with
  | start language request =>
    cases asks : wantsRemote language request.context with
    | true => rw [step_start_asking asks]; rfl
    | false => rw [step_start_local asks]; rfl
  | reply reply =>
    cases waits : state.pending? call with
    | none => rw [step_reply_idle waits]; exact (UInt64.add_zero _).symm
    | some pending => rw [step_reply_waiting waits]; exact (UInt64.add_zero _).symm

end Steps

section Runs

variable {state : Completions} {call : Nat} {history before between behind :
  List (Nat × CompletionEvent)} {language : Language} {request : CompletionRequest}

/-- The last ticket counts the starts of a run. -/
theorem latest_run (state : Completions) (history : List (Nat × CompletionEvent)) :
    (state.run history).sequencer.latest =
      state.sequencer.latest + UInt64.ofNat (startsIn history).length :=
  counter_run Completions.step (fun now => now.sequencer.latest) (fun _ _ => latest_step) state
    history

/-- What happens to other calls changes nothing for a call. -/
theorem view_run_others (apart : ∀ event ∈ history, event.1 ≠ call) :
    (state.run history).view call = state.view call := by
  -- Events of other calls do not touch the view.
  refine view_run Completions.step (Completions.view · call) fun event member now same => ?_
  rw [view_step_other (apart event member), same]

/-- Only a start changes anything for a call that does not wait. -/
theorem view_run_idle (idle : state.pending? call = none) (unstarted : call ∉ startsIn history) :
    (state.run history).view call = state.view call := by
  refine view_run Completions.step (Completions.view · call) fun event member now same => ?_
  obtain ⟨other, event⟩ := event
  -- The event is a reply to the call, which is dropped, or it happens to another call.
  by_cases own : other = call
  · subst own
    cases event with
    | start language request => exact absurd (mem_startsIn.mpr ⟨_, member, rfl⟩) unstarted
    | reply reply => rw [step_reply_idle ((congrArg Prod.fst same).trans idle), same]
  · rw [view_step_other own, same]

/-- A call that has not started is not known. -/
theorem view_unstarted (unstarted : call ∉ startsIn history) :
    (after history).view call = (none, none) :=
  view_run_idle rfl unstarted

/-- Between its start and its first reply nothing happens to a call. -/
theorem apart_between (unstarted : call ∉ startsIn between)
    (silent : ∀ reply, (call, .reply reply) ∉ between) : ∀ event ∈ between, event.1 ≠ call := by
  -- An event of the call would be a start or a reply.
  rintro ⟨other, event⟩ member rfl
  cases event with
  | start language request => exact unstarted (mem_startsIn.mpr ⟨_, member, rfl⟩)
  | reply reply => exact silent reply member

/-- A call that asks the host waits with its ticket, whatever happens to other calls. -/
theorem view_waiting (asks : wantsRemote language request.context = true)
    (unstarted : call ∉ startsIn before) (apart : ∀ event ∈ between, event.1 ≠ call) :
    ∃ ticket : UInt64,
      (after (before ++ (call, .start language request) :: between)).view call =
        (some (request.pending language ticket), none) ∧
      (after (before ++ (call, .start language request) :: between)).sequencer.latest =
        ticket + UInt64.ofNat (startsIn between).length := by
  -- The ticket is the one right behind those given out before the call.
  refine ⟨(after before).sequencer.latest + 1, ?_, ?_⟩
  · rw [after_append, run_cons, view_run_others apart]
    exact view_start_asking asks (view_unstarted unstarted)
  · rw [after_append, run_cons, latest_run, step_start_asking asks]

/-- The reply serves a call unless its ticket shows the starts in between. -/
theorem view_replied (asks : wantsRemote language request.context = true)
    (unstarted : call ∉ startsIn before) (apart : ∀ event ∈ between, event.1 ≠ call)
    (answered : call ∉ startsIn behind) (reply : HostReply Suggestion) :
    (after (before ++ (call, .start language request) :: (between ++
      (call, .reply reply) :: behind))).view call =
      (none, some (if 2 ^ 64 ∣ (startsIn between).length then some (request.served language reply)
        else none)) := by
  obtain ⟨ticket, waits, latest⟩ := view_waiting asks unstarted apart
  have replied := view_reply waits latest reply
  -- Behind the reply the call waits no longer, so nothing changes for it.
  rw [← List.cons_append, ← List.append_assoc, after_append, run_cons,
    view_run_idle (congrArg Prod.fst replied) answered, replied]

/-- A call that does not ask the host is answered from its start on. -/
theorem view_local (own : wantsRemote language request.context = false)
    (unstarted : call ∉ startsIn before) (answered : call ∉ startsIn behind) :
    (after (before ++ (call, .start language request) :: behind)).view call =
      (none, some (some (suggest language request.context))) := by
  -- A local call is answered as it starts and keeps its answer.
  have started := view_start_local own (view_unstarted unstarted)
  rw [after_append, run_cons, view_run_idle (congrArg Prod.fst started) answered, started]

/-- A call that has started waits for its first reply, or it has been answered. -/
theorem waiting_or_answered (once : (startsIn history).Nodup) (started : call ∈ startsIn history) :
    (∃ before language request between,
      history = before ++ (call, .start language request) :: between ∧
        wantsRemote language request.context = true ∧
        ∀ reply, (call, .reply reply) ∉ between) ∨
      ∃ result, (after history).view call = (none, some result) := by
  -- What follows the start decides: whether there is a reply, and which is the first.
  obtain ⟨before, event, behind, rfl, start⟩ := exists_of_mem_startsIn started
  obtain ⟨unstarted, unstarted'⟩ := startsIn_apart once start
  cases event with
  | reply reply => cases start
  | start language request =>
    cases asks : wantsRemote language request.context with
    | false => exact .inr ⟨_, view_local asks unstarted unstarted'⟩
    | true =>
      rcases exists_first (fun event => ∃ reply, event = (call, .reply reply)) behind with
        silent | ⟨between, event, rest, rfl, ⟨reply, rfl⟩, silent⟩
      · exact .inl ⟨before, language, request, behind, rfl, asks,
          fun reply member => silent _ member ⟨reply, rfl⟩⟩
      · rw [startsIn_append, List.mem_append, not_or] at unstarted'
        have apart := apart_between unstarted'.1 fun reply member => silent _ member ⟨reply, rfl⟩
        have answered : call ∉ startsIn rest := unstarted'.2
        exact .inr ⟨_, view_replied asks unstarted apart answered reply⟩

/-- A step answers no call, or its own: when it starts without the host, or by a reply. -/
theorem answers_step (state : Completions) (call : Nat) (event : CompletionEvent) :
    (state.step call event).answers = state.answers ∨
      (∃ language request, event = .start language request ∧
        wantsRemote language request.context = false ∧
        (state.step call event).answers =
          state.answers ++ [(call, some (suggest language request.context))]) ∨
      ∃ reply pending, event = .reply reply ∧ state.pending? call = some pending ∧
        (state.step call event).answers =
          state.answers ++ [(call, pending.settle state.sequencer reply)] := by
  -- A start answers if it is local, a reply if the call waits.
  cases event with
  | start language request =>
    cases asks : wantsRemote language request.context with
    | true => exact .inl (by rw [step_start_asking asks])
    | false => exact .inr (.inl ⟨language, request, rfl, asks, by rw [step_start_local asks]; rfl⟩)
  | reply reply =>
    cases waits : state.pending? call with
    | none => exact .inl (by rw [step_reply_idle waits])
    | some pending =>
      exact .inr (.inr ⟨reply, pending, rfl, rfl, by rw [step_reply_waiting waits]; rfl⟩)

/-- One more event is a step from where the history led. -/
theorem after_snoc (history : List (Nat × CompletionEvent)) (call : Nat) (event : CompletionEvent) :
    after (history ++ [(call, event)]) = (after history).step call event := by
  rw [after_append, run_cons]
  rfl

/-- A call that waits has started. -/
theorem started_of_pending {pending : PendingCompletion}
    (waits : (after history).pending? call = some pending) : call ∈ startsIn history := by
  -- A call that never started does not wait.
  by_contra unstarted
  have unknown := congrArg Prod.fst (view_unstarted unstarted)
  rw [show (after history).pending? call = none from unknown] at waits
  cases waits

/-- Only calls that have started are answered. -/
theorem started_of_answered {result : Option (List Suggestion)}
    (answered : (call, result) ∈ (after history).answers) : call ∈ startsIn history := by
  induction history using List.reverseRecOn with
  | nil => cases answered
  | append_singleton history event ih =>
    obtain ⟨other, event⟩ := event
    rw [startsIn_append, List.mem_append]
    rw [after_snoc] at answered
    -- The answer is an old one, or that of the last event to its own call.
    rcases answers_step (after history) other event with
      same | ⟨language, request, rfl, -, grown⟩ | ⟨reply, pending, rfl, waits, grown⟩
    · exact .inl (ih (same ▸ answered))
    · rcases List.mem_append.mp (grown ▸ answered) with old | new
      · exact .inl (ih old)
      · obtain rfl := (Prod.ext_iff.mp (List.mem_singleton.mp new)).1
        exact .inr List.mem_cons_self
    · rcases List.mem_append.mp (grown ▸ answered) with old | new
      · exact .inl (ih old)
      · obtain rfl := (Prod.ext_iff.mp (List.mem_singleton.mp new)).1
        exact .inl (started_of_pending waits)

/-- A call that waits has asked the host, and no reply to it has come. -/
theorem exists_of_pending (once : (startsIn history).Nodup) {pending : PendingCompletion}
    (waits : (after history).pending? call = some pending) :
    ∃ before language request between,
      history = before ++ (call, .start language request) :: between ∧
        wantsRemote language request.context = true ∧
        ∀ reply, (call, .reply reply) ∉ between := by
  -- A call that has started waits or has been answered, and one that waits is not answered.
  rcases waiting_or_answered once (started_of_pending waits) with waiting | ⟨result, answered⟩
  · exact waiting
  · rw [show (after history).pending? call = none from congrArg Prod.fst answered] at waits
    cases waits

/-- A call that is served by its reply is the last that has started. -/
theorem last_of_served (once : (startsIn history).Nodup) (few : (startsIn history).length < 2 ^ 64)
    {pending : PendingCompletion} (waits : (after history).pending? call = some pending)
    {reply : HostReply Suggestion} {fetched : List Suggestion}
    (served : pending.settle (after history).sequencer reply = some fetched) :
    (∃ earlier, startsIn history = earlier ++ [call]) ∧ (after history).answer? call = none := by
  obtain ⟨before, language, request, between, rfl, asks, silent⟩ := exists_of_pending once waits
  obtain ⟨unstarted, unstarted'⟩ := startsIn_apart once rfl
  obtain ⟨ticket, view, latest⟩ := view_waiting asks unstarted (apart_between unstarted' silent)
  obtain ⟨held, unanswered⟩ := Prod.ext_iff.mp view
  refine ⟨⟨startsIn before, ?_⟩, unanswered⟩
  rw [startsIn_append, startsIn_cons_start rfl] at few ⊢
  simp only [List.length_append, List.length_cons] at few
  -- The ticket is current, so no ticket was given out behind it.
  obtain rfl : request.pending language ticket = pending := Option.some.inj (held.symm.trans waits)
  have current : 2 ^ 64 ∣ (startsIn between).length := by
    by_contra hidden
    rw [show (after _).sequencer = ⟨ticket + UInt64.ofNat (startsIn between).length⟩ from
      congrArg Sequencer.mk latest, CompletionRequest.settle_pending, if_neg hidden] at served
    cases served
  rw [(dvd_length_iff (by omega)).mp current]

/-- A call that asks the host. -/
def Asks (history : List (Nat × CompletionEvent)) (call : Nat) : Prop :=
  ∃ language request, (call, .start language request) ∈ history ∧
    wantsRemote language request.context = true

/-- Whatever was answered before a call was served by the host had started before the call. -/
theorem answers_ordered (once : (startsIn history).Nodup) (few : (startsIn history).length < 2 ^ 64)
    {earlier later : Nat} {result : Option (List Suggestion)} {fetched : List Suggestion}
    (answered : [(earlier, result), (later, some fetched)].Sublist (after history).answers)
    (asks : Asks history later) : [earlier, later].Sublist (startsIn history) := by
  -- The last event adds at most one answer, which is then the later of the two.
  induction history using List.reverseRecOn with
  | nil => cases answered
  | append_singleton history event ih =>
    obtain ⟨call, event⟩ := event
    obtain ⟨language, request, member, remote⟩ := asks
    rw [after_snoc] at answered
    have unrepeated := once
    rw [startsIn_append] at once few ⊢
    rw [List.length_append] at few
    have old : [(earlier, result), (later, some fetched)].Sublist (after history).answers →
        [earlier, later].Sublist (startsIn history ++ startsIn [(call, event)]) := by
      intro pair
      have started := started_of_answered (pair.subset (List.mem_cons_of_mem _ List.mem_cons_self))
      -- The later call has started before this event, so its start is an old event.
      have asked : Asks history later := by
        rcases List.mem_append.mp member with inside | new
        · exact ⟨language, request, inside, remote⟩
        · exact absurd rfl ((List.nodup_append.mp once).2.2 later started later
            (mem_startsIn.mpr ⟨_, new, rfl⟩))
      exact (ih (List.nodup_append.mp once).1 (by omega) pair asked).trans
        (List.sublist_append_left _ _)
    rcases answers_step (after history) call event with
      same | ⟨language', request', rfl, own, grown⟩ | ⟨reply, pending, rfl, waits, grown⟩
    · exact old (same ▸ answered)
    · rcases pair_sublist_snoc (grown ▸ answered) with pair | ⟨-, new⟩
      · exact old pair
      · -- The new answer did not come from the host.
        obtain rfl : later = call := congrArg Prod.fst new
        cases start_unique unrepeated member rfl (List.mem_append_right _ List.mem_cons_self) rfl
        rw [own] at remote
        cases remote
    · rcases pair_sublist_snoc (grown ▸ answered) with pair | ⟨before, new⟩
      · exact old pair
      · obtain ⟨rfl, served⟩ := Prod.ext_iff.mp new
        obtain ⟨⟨others, last⟩, unanswered⟩ :=
          last_of_served (List.nodup_append.mp once).1 (by omega) waits served.symm
        -- The earlier call is another one, and all others have started before.
        have apart : earlier ≠ later := by
          rintro rfl
          exact not_mem_of_filed? unanswered (List.mem_map.mpr ⟨_, before, rfl⟩)
        have among := started_of_answered before
        rw [last, List.mem_append, List.mem_singleton] at among
        have first := List.singleton_sublist.mpr (among.resolve_right apart)
        rw [last]
        exact (first.append (List.Sublist.refl [later])).trans (List.sublist_append_left _ _)

/-- A call that does not ask the host never waits for it. -/
theorem idle_of_local (once : (startsIn history).Nodup)
    (member : (call, .start language request) ∈ history)
    (own : wantsRemote language request.context = false) {moment : List (Nat × CompletionEvent)}
    (passed : moment <+: history) : (after moment).pending? call = none := by
  cases waits : (after moment).pending? call with
  | none => rfl
  | some pending =>
    obtain ⟨before, language', request', between, rfl, asks, -⟩ :=
      exists_of_pending (nodup_startsIn passed.isInfix once) waits
    -- The start after which it waits would be another than the one that is given.
    have other : (call, .start language' request') ∈ history := passed.subset (by simp)
    cases start_unique once member rfl other rfl
    rw [own] at asks
    cases asks

/-- The first reply answers a call, as the tickets issued in between tell. -/
theorem answer?_first_reply {reply : HostReply Suggestion} {rest : List (Nat × CompletionEvent)}
    (split : history = before ++ (call, .start language request) :: (between ++
      (call, .reply reply) :: rest))
    (once : (startsIn history).Nodup) (asks : wantsRemote language request.context = true)
    (silent : ∀ other, (call, .reply other) ∉ between) :
    (after history).answer? call =
      some (if 2 ^ 64 ∣ (startsIn between).length then some (request.served language reply)
        else none) := by
  -- Nothing of the call's own lies between its start and its first reply, so its ticket is the one
  -- it was given; it is current exactly if the counter has come around to it.
  subst split
  obtain ⟨unstarted, unstarted'⟩ := startsIn_apart once rfl
  rw [startsIn_append, List.mem_append, not_or] at unstarted'
  have answered : call ∉ startsIn rest := unstarted'.2
  have view := view_replied asks unstarted (apart_between unstarted'.1 silent) answered reply
  exact congrArg Prod.snd view

/-- The first reply serves a call exactly when no call has started in between. -/
theorem answer?_replied {reply : HostReply Suggestion} {rest : List (Nat × CompletionEvent)}
    (split : history = before ++ (call, .start language request) :: (between ++
      (call, .reply reply) :: rest))
    (once : (startsIn history).Nodup) (few : (startsIn history).length < 2 ^ 64)
    (asks : wantsRemote language request.context = true)
    (silent : ∀ other, (call, .reply other) ∉ between) :
    (after history).answer? call =
      some (if startsIn between = [] then some (request.served language reply) else none) := by
  -- Few calls start at all, so the ticket shows every start in between.
  have inside : between <:+: history :=
    ⟨before ++ [(call, .start language request)], (call, .reply reply) :: rest, by simp [split]⟩
  have fewer := Nat.lt_of_le_of_lt (length_startsIn_le inside) few
  simpa only [dvd_length_iff fewer] using answer?_first_reply split once asks silent

/-- Without a reply a call that asks the host is not answered. -/
theorem answer?_unreplied
    (split : history = before ++ (call, .start language request) :: behind)
    (once : (startsIn history).Nodup) (asks : wantsRemote language request.context = true)
    (silent : ∀ reply, (call, .reply reply) ∉ behind) : (after history).answer? call = none := by
  -- Nothing of the call's own follows its start, so it still waits.
  subst split
  obtain ⟨unstarted, unstarted'⟩ := startsIn_apart once rfl
  obtain ⟨ticket, view, -⟩ := view_waiting asks unstarted (apart_between unstarted' silent)
  exact congrArg Prod.snd view

/-- A call that is in flight when another starts is never served by the host. -/
theorem answer?_superseded {later : Nat}
    (split : history = before ++ (later, .start language request) :: behind)
    (once : (startsIn history).Nodup) (few : (startsIn history).length < 2 ^ 64)
    (started : call ∈ startsIn before) (unanswered : (after before).answer? call = none)
    (result : List Suggestion) : (after history).answer? call ≠ some (some result) := by
  have earlier : (startsIn before).Nodup :=
    nodup_startsIn ⟨[], (later, .start language request) :: behind, by simp [split]⟩ once
  rcases waiting_or_answered earlier started with
    ⟨front, language', request', between, rfl, asks, silent⟩ | ⟨answer, answered⟩
  · -- The call still waits when the other starts, and it waits on until a reply comes.
    have through : ∀ {more : List (Nat × CompletionEvent)},
        (∀ event ∈ more, ¬ ∃ reply, event = (call, .reply reply)) →
        ∀ reply, (call, .reply reply) ∉ between ++ (later, .start language request) :: more := by
      intro more none reply member
      rcases List.mem_append.mp member with inside | inside
      · exact silent reply inside
      · exact none _ (List.mem_of_ne_of_mem (by simp) inside) ⟨reply, rfl⟩
    rcases exists_first (fun event => ∃ reply, event = (call, .reply reply)) behind with
      none | ⟨more, event, rest, rfl, ⟨reply, rfl⟩, first⟩
    · rw [List.append_assoc, List.cons_append] at split
      rw [answer?_unreplied split once asks (through none)]
      simp
    · have parts : history = front ++ (call, .start language' request') ::
          ((between ++ (later, .start language request) :: more) ++
            (call, .reply reply) :: rest) := by
        simp [split]
      rw [answer?_replied parts once few asks (through first), startsIn_append,
        startsIn_cons_start rfl]
      simp
  · rw [show (after before).answer? call = some answer from congrArg Prod.snd answered]
      at unanswered
    cases unanswered

end Runs

/--
No stale suggestion is delivered.

In a run in which no call starts twice and fewer than `2 ^ 64` calls start, a call that asks the
host gets nothing exactly when another call starts before its first reply, and else what the reply
makes of the language's own suggestions; without a reply it is not answered. A call that does not
ask the host gets the language's own suggestions at once and never waits. So no call that is in
flight when another starts is served by the host, and the calls that are served are answered in the
order of their starts.
-/
theorem run_serves_newest (history : List (Nat × CompletionEvent))
    (once : (startsIn history).Nodup) (few : (startsIn history).length < 2 ^ 64) :
    (∀ before call language request behind,
      history = before ++ (call, .start language request) :: behind →
      (wantsRemote language request.context = true →
        (∀ between reply rest, behind = between ++ (call, .reply reply) :: rest →
          (∀ other, (call, .reply other) ∉ between) →
          ((after history).answer? call = some none ↔ ∃ other, other ∈ startsIn between) ∧
          ((¬ ∃ other, other ∈ startsIn between) →
            (after history).answer? call = some (some (request.served language reply)))) ∧
        ((∀ reply, (call, .reply reply) ∉ behind) → (after history).answer? call = none)) ∧
      (wantsRemote language request.context = false →
        (after (before ++ [(call, .start language request)])).answer? call =
          some (some (suggest language request.context)) ∧
        (after history).answer? call = some (some (suggest language request.context)) ∧
        ∀ moment, moment <+: history → (after moment).pending? call = none)) ∧
    (∀ before later language request behind,
      history = before ++ (later, .start language request) :: behind →
      ∀ earlier ∈ startsIn before, (after before).answer? earlier = none →
      ∀ result, (after history).answer? earlier ≠ some (some result)) ∧
    ∀ earlier result later fetched,
      [(earlier, result), (later, some fetched)].Sublist (after history).answers →
      Asks history later → [earlier, later].Sublist (startsIn history) := by
  refine ⟨fun before call language request behind split => ⟨fun asks => ⟨?_, ?_⟩, fun own => ?_⟩,
    ?_, fun _ _ _ _ => answers_ordered once few⟩
  · -- A first reply comes: whether it serves the call depends on the starts before it.
    intro between reply rest behindSplit first
    rw [behindSplit] at split
    have others : (∃ other, other ∈ startsIn between) ↔ startsIn between ≠ [] :=
      ⟨fun ⟨_, member⟩ => List.ne_nil_of_mem member, List.exists_mem_of_ne_nil _⟩
    rw [answer?_replied split once few asks first, others]
    by_cases alone : startsIn between = []
    · simp [alone]
    · simp [alone]
  · exact answer?_unreplied split once asks
  · -- A call that does not ask the host is done when it has started.
    subst split
    obtain ⟨unstarted, unstarted'⟩ := startsIn_apart once rfl
    refine ⟨?_, ?_, fun moment => idle_of_local once (by simp) own⟩
    · exact congrArg Prod.snd (view_local own unstarted (List.not_mem_nil))
    · exact congrArg Prod.snd (view_local own unstarted unstarted')
  · intro before later language request behind split earlier started unanswered
    exact answer?_superseded split once few started unanswered

/-- A language of which a field's own values are known, and the host may know more. -/
def statedLanguage : Language :=
  { Language.new "1" with fields := [⟨"state", .string, none, some ["open", "closed"]⟩] }

/-- A call for the values of the field. -/
def stateRequest : CompletionRequest :=
  ⟨"state = ", 8, .afterCompareOperator (some "state")⟩

/-- A call is overtaken twice, once without the host, and the last call is replied to first. -/
def overtakenHistory : List (Nat × CompletionEvent) :=
  [(0, .start statedLanguage stateRequest),
    (1, .start statedLanguage ⟨"", 0, .clauseStart⟩),
    (2, .start statedLanguage stateRequest),
    (2, .reply (.ok [⟨"draft", .value, none⟩])),
    (0, .reply (.error (.timeout 10)))]

/-- The overtaken call gets nothing, and the two others what they asked for. -/
theorem overtakenHistory_serves_newest :
    ((startsIn overtakenHistory).Nodup ∧ (startsIn overtakenHistory).length < 2 ^ 64) ∧
      (after overtakenHistory).answer? 0 = some none ∧
      (after overtakenHistory).answer? 1 = some (some (suggest statedLanguage .clauseStart)) ∧
      (after overtakenHistory).answer? 2 =
        some (some (stateRequest.served statedLanguage (.ok [⟨"draft", .value, none⟩]))) := by
  have once : (startsIn overtakenHistory).Nodup := by decide
  have few : (startsIn overtakenHistory).length < 2 ^ 64 := by decide
  obtain ⟨fates, -, -⟩ := run_serves_newest overtakenHistory once few
  refine ⟨⟨once, few⟩, ?_, ?_, ?_⟩
  · -- Two calls start before the reply to the first.
    have overtaken := (fates [] 0 _ _ _ rfl).1 rfl
    refine ((overtaken.1 (overtakenHistory.tail.take 3) _ [] rfl ?_).1).mpr ⟨1, by decide⟩
    intro other member
    simp [overtakenHistory] at member
  · exact ((fates (overtakenHistory.take 1) 1 _ _ _ rfl).2 rfl).2.1
  · have newest := (fates (overtakenHistory.take 2) 2 _ _ _ rfl).1 rfl
    refine (newest.1 [] _ _ rfl ?_).2 ?_
    · exact fun _ => List.not_mem_nil
    · rintro ⟨_, member⟩
      cases member

end Completions

end FilterLang
