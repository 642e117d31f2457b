import FilterLang.Host.Checks
import FilterLang.Host.Completions
import Mathlib.Algebra.Ring.Nat
import Mathlib.Data.List.Induction
import Mathlib.Data.List.Nodup

/-! Histories of calls. -/

namespace FilterLang

/-- Events of which some are the start of their call. -/
class CallEvent (ε : Type) where
  isStart : ε → Bool

section Starts

variable {ε : Type} [CallEvent ε] {call : Nat}

/-- The calls that start in a history, in the order of their starts. -/
def startsIn (history : List (Nat × ε)) : List Nat :=
  (history.filter fun event => CallEvent.isStart event.2).map (·.1)

/-- Nothing starts in an empty history. -/
@[simp] theorem startsIn_nil : startsIn ([] : List (Nat × ε)) = [] := rfl

/-- The starts of two histories come one after the other. -/
@[simp] theorem startsIn_append (earlier later : List (Nat × ε)) :
    startsIn (earlier ++ later) = startsIn earlier ++ startsIn later := by
  simp [startsIn]

/-- The starts of a history begin with that of its first event. -/
theorem startsIn_cons (event : Nat × ε) (history : List (Nat × ε)) :
    startsIn (event :: history) =
      startsIn [event] ++ startsIn history :=
  startsIn_append [event] history

/-- A history that begins with a start has one more. -/
theorem startsIn_cons_start {event : ε} (starts : CallEvent.isStart event = true)
    (history : List (Nat × ε)) :
    startsIn ((call, event) :: history) = call :: startsIn history := by
  simp [startsIn, starts]

/-- The calls that start are those with a start among their events. -/
theorem mem_startsIn {history : List (Nat × ε)} :
    call ∈ startsIn history ↔
      ∃ event, (call, event) ∈ history ∧ CallEvent.isStart event = true := by
  simp [startsIn]

/-- No more calls start in a part of a history than in the whole. -/
theorem length_startsIn_le {part history : List (Nat × ε)} (inside : part <:+: history) :
    (startsIn part).length ≤ (startsIn history).length :=
  ((inside.sublist.filter _).map _).length_le

/-- Where no call starts twice, none does so in a part. -/
theorem nodup_startsIn {part history : List (Nat × ε)} (inside : part <:+: history)
    (once : (startsIn history).Nodup) : (startsIn part).Nodup :=
  once.sublist ((inside.sublist.filter _).map _)

/-- A call that starts divides its history. -/
theorem exists_of_mem_startsIn {history : List (Nat × ε)} (started : call ∈ startsIn history) :
    ∃ before event behind, history = before ++ (call, event) :: behind ∧
      CallEvent.isStart event = true := by
  -- A history can be split at any of its events.
  obtain ⟨event, member, start⟩ := mem_startsIn.mp started
  obtain ⟨before, behind, split⟩ := List.append_of_mem member
  exact ⟨before, event, behind, split, start⟩

/-- Where no call starts twice, a call has one start event. -/
theorem start_unique {history : List (Nat × ε)} (once : (startsIn history).Nodup)
    {first second : ε} (member : (call, first) ∈ history) (starts : CallEvent.isStart first = true)
    (member' : (call, second) ∈ history) (starts' : CallEvent.isStart second = true) :
    first = second := by
  -- Starts are told apart by their calls, so two of one call are one.
  have among : ∀ {event : ε}, (call, event) ∈ history → CallEvent.isStart event = true →
      (call, event) ∈ history.filter fun event => CallEvent.isStart event.2 := fun inside start =>
    List.mem_filter.mpr ⟨inside, start⟩
  exact congrArg Prod.snd
    (List.inj_on_of_nodup_map once (among member starts) (among member' starts') rfl)

/-- Where no call starts twice, the start of a call is its only one. -/
theorem startsIn_apart {before behind : List (Nat × ε)} {event : ε}
    (once : (startsIn (before ++ (call, event) :: behind)).Nodup)
    (starts : CallEvent.isStart event = true) :
    call ∉ startsIn before ∧ call ∉ startsIn behind := by
  -- Distinct starts leave no second one on either side.
  rw [startsIn_append, startsIn_cons_start starts, List.nodup_append] at once
  obtain ⟨-, later, apart⟩ := once
  constructor
  · intro again
    exact apart call again call List.mem_cons_self rfl
  · exact (List.nodup_cons.mp later).1

end Starts

section Runs

variable {σ ε : Type} (step : σ → Nat → ε → σ)

/-- A counter that every start moves on by one counts the starts of a run. -/
theorem counter_run [CallEvent ε] (counter : σ → UInt64)
    (counts : ∀ state call event, counter (step state call event) =
      counter state + UInt64.ofNat (startsIn [(call, event)]).length)
    (state : σ) (history : List (Nat × ε)) :
    counter (history.foldl (fun state event => step state event.1 event.2) state) =
      counter state + UInt64.ofNat (startsIn history).length := by
  -- The words wrap around, but adding one count after the other is adding their sum.
  induction history generalizing state with
  | nil => exact (UInt64.add_zero _).symm
  | cons event history ih =>
    rw [List.foldl_cons, ih, counts, UInt64.add_assoc, ← UInt64.ofNat_add, ← List.length_append,
      ← startsIn_cons]

/-- A run leaves what is seen of a state as it is, if every event does so wherever it is seen. -/
theorem view_run {β : Type} (view : σ → β) {state : σ} {history : List (Nat × ε)}
    (kept : ∀ event ∈ history, ∀ now, view now = view state →
      view (step now event.1 event.2) = view state) :
    view (history.foldl (fun state event => step state event.1 event.2) state) = view state := by
  -- Induction on the history: each event leaves the view as it was at the outset.
  induction history generalizing state with
  | nil => rfl
  | cons event history ih =>
    rw [List.forall_mem_cons] at kept
    have first := kept.1 state rfl
    rw [List.foldl_cons, ih, first]
    intro later member now same
    rw [first] at same ⊢
    exact kept.2 later member now same

end Runs

/-- The first event of some sort divides a history, if there is one. -/
theorem exists_first {ε : Type} (sort : Nat × ε → Prop) (history : List (Nat × ε)) :
    (∀ event ∈ history, ¬ sort event) ∨ ∃ between event after,
      history = between ++ event :: after ∧ sort event ∧ ∀ other ∈ between, ¬ sort other := by
  -- Induction on the history; the first event of the sort is looked for from the front.
  induction history with
  | nil => exact .inl (by simp)
  | cons event history ih =>
    by_cases first : sort event
    · exact .inr ⟨[], event, history, rfl, first, by simp⟩
    · rcases ih with none | ⟨between, found, after, rfl, sorted, earlier⟩
      · exact .inl (List.forall_mem_cons.mpr ⟨first, none⟩)
      · exact .inr ⟨event :: between, found, after, rfl, sorted,
          List.forall_mem_cons.mpr ⟨first, earlier⟩⟩

/-- A list is divided in one way only by the first of some member. -/
theorem first_split_unique {α : Type} {front front' back back' : List α} {mark : α}
    (same : front ++ mark :: back = front' ++ mark :: back') (first : mark ∉ front)
    (first' : mark ∉ front') : front = front' ∧ back = back' := by
  -- The longer of the two parts before the member would hold it.
  rcases List.append_eq_append_iff.mp same with ⟨more, rfl, rest⟩ | ⟨more, rfl, rest⟩
  · cases more with
    | nil => simpa using rest
    | cons head more =>
      obtain ⟨rfl, -⟩ := List.cons.inj rest
      simp at first'
  · cases more with
    | nil => simpa using rest.symm
    | cons head more =>
      obtain ⟨rfl, -⟩ := List.cons.inj rest
      simp at first

/-- A pair in a list with a new last member ends before it, or with it. -/
theorem pair_sublist_snoc {α : Type} {list : List α} {first second last : α}
    (pair : [first, second].Sublist (list ++ [last])) :
    [first, second].Sublist list ∨ first ∈ list ∧ second = last := by
  -- Read backwards, the new member comes first and is taken or left.
  have backwards : [second, first].Sublist (last :: list.reverse) := by
    simpa using List.reverse_sublist.mpr pair
  rcases List.sublist_cons_iff.mp backwards with left | ⟨rest, same, taken⟩
  · exact .inl (by simpa using List.reverse_sublist.mpr left)
  · obtain ⟨rfl, rfl⟩ := List.cons.inj same
    exact .inr ⟨by simpa using taken, rfl⟩

section Entries

variable {α : Type} {entries : List (Nat × α)} {call other : Nat}

/-- The first entry under a call's number. -/
def filed? (entries : List (Nat × α)) (call : Nat) : Option α :=
  (entries.find? (·.1 == call)).map (·.2)

/-- A new entry at the end shows unless the call has an earlier one. -/
theorem filed?_snoc (value : α) :
    filed? (entries ++ [(other, value)]) call =
      (filed? entries call).or (if other = call then some value else none) := by
  -- An entry that is there already is found before the new one.
  unfold filed?
  rw [List.find?_append]
  cases entries.find? (·.1 == call) with
  | some found => rfl
  | none =>
    by_cases same : other = call
    · simp [same]
    · simp [same]

/-- The new entry of a call that has no other shows. -/
theorem filed?_snoc_self (fresh : filed? entries call = none) (value : α) :
    filed? (entries ++ [(call, value)]) call = some value := by
  rw [filed?_snoc, fresh, if_pos rfl, Option.none_or]

/-- The new entry of another call does not show. -/
theorem filed?_snoc_other (apart : other ≠ call) (value : α) :
    filed? (entries ++ [(other, value)]) call = filed? entries call := by
  rw [filed?_snoc, if_neg apart, Option.or_none]

/-- A call whose entries were taken out has none. -/
theorem filed?_filter_self : filed? (entries.filter (·.1 != call)) call = none := by
  simp [filed?]

/-- Taking out the entries of another call leaves those of this one. -/
theorem filed?_filter_other (apart : other ≠ call) :
    filed? (entries.filter (·.1 != other)) call = filed? entries call := by
  -- An entry of this call is none of the other's, so nothing that is looked for was taken out.
  have same : (fun entry : Nat × α => decide ((entry.1 != other) = true ∧ (entry.1 == call) = true))
      = fun entry => entry.1 == call := by
    funext entry
    by_cases own : entry.1 = call
    · simp [own, Ne.symm apart]
    · simp [own]
  rw [filed?, List.find?_filter, same, filed?]

/-- Under the number of a call without an entry nothing stands. -/
theorem not_mem_of_filed? (absent : filed? entries call = none) :
    call ∉ entries.map (·.1) := by
  -- A member of the file would have been found.
  intro member
  obtain ⟨⟨number, kept⟩, inside, rfl⟩ := List.mem_map.mp member
  have found := List.find?_eq_none.mp (Option.map_eq_none_iff.mp absent) _ inside
  simp at found

end Entries

/-- A ticket is current again only after as many further tickets as there are words. -/
theorem Sequencer.isCurrent_iff {sequencer : Sequencer} {ticket : UInt64} {issued : Nat}
    (latest : sequencer.latest = ticket + UInt64.ofNat issued) :
    sequencer.isCurrent ⟨ticket⟩ = true ↔ 2 ^ 64 ∣ issued := by
  rw [Sequencer.isCurrent, beq_iff_eq]
  show sequencer.latest = ticket ↔ _
  -- Both words are below the bound, so they agree exactly if what was added wraps to nothing.
  rw [latest, ← UInt64.toNat_inj, UInt64.toNat_add, UInt64.toNat_ofNat']
  have small := ticket.toNat_lt
  omega

/-- Fewer tickets than there are words are hidden only if there are none. -/
theorem dvd_length_iff {α : Type} {list : List α} (few : list.length < 2 ^ 64) :
    2 ^ 64 ∣ list.length ↔ list = [] := by
  -- Below the modulus only zero is a multiple of it.
  constructor
  · intro hidden
    have none := Nat.eq_zero_of_dvd_of_lt hidden few
    exact List.length_eq_zero_iff.mp none
  · rintro rfl
    exact Nat.dvd_zero _

end FilterLang
