import FilterLang.Proofs.Host.Supersession

/-! What a host's reply adds to the language's own suggestions. -/

namespace FilterLang

section Merging

variable {seen : List String} {suggestion other : Suggestion} {remote : List Suggestion}

/-- A suggestion of a reply has a label that neither those seen nor those before it have. -/
def FirstOfLabel (seen : List String) (remote : List Suggestion) (suggestion : Suggestion) : Prop :=
  ∃ before behind, remote = before ++ suggestion :: behind ∧ suggestion.label ∉ seen ∧
    suggestion.label ∉ before.map (·.label)

/-- A suggestion comes first by itself, or among those behind it, for which its label is seen. -/
theorem firstOfLabel_cons : FirstOfLabel seen (other :: remote) suggestion ↔
    (suggestion = other ∧ other.label ∉ seen) ∨
      FirstOfLabel (other.label :: seen) remote suggestion := by
  -- The first suggestion is the one itself or is in front of it.
  constructor
  · rintro ⟨before, behind, split, unknown, first⟩
    cases before with
    | nil =>
      obtain ⟨rfl, rfl⟩ := List.cons.inj split
      exact .inl ⟨rfl, unknown⟩
    | cons head before =>
      obtain ⟨rfl, rfl⟩ := List.cons.inj split
      simp only [List.map_cons, List.mem_cons, not_or] at first
      exact .inr ⟨before, behind, rfl, by simp [first.1, unknown], first.2⟩
  · rintro (⟨rfl, unknown⟩ | ⟨before, behind, rfl, unknown, first⟩)
    · exact ⟨[], remote, rfl, unknown, by simp⟩
    · simp only [List.mem_cons, not_or] at unknown
      exact ⟨other :: before, behind, rfl, unknown.2, by simp [unknown.1, first]⟩

/-- Which labels were seen counts, but not in which order or how often. -/
theorem unseen_congr {labels : List String} (same : ∀ label, label ∈ seen ↔ label ∈ labels)
    (remote : List Suggestion) : unseen seen remote = unseen labels remote := by
  -- Induction on the remote suggestions; what counts as seen grows alike on both sides.
  induction remote generalizing seen labels with
  | nil => rfl
  | cons suggestion remote ih =>
    have more : ∀ label, label ∈ suggestion.label :: seen ↔ label ∈ suggestion.label :: labels := by
      simp [same]
    simp only [unseen, List.contains_iff_mem, same, ih same, ih more]

/-- What is kept of a suggestion and those behind it. -/
theorem unseen_cons (seen : List String) (suggestion : Suggestion) (remote : List Suggestion) :
    unseen seen (suggestion :: remote) =
      (if suggestion.label ∈ seen then [] else [suggestion]) ++
        unseen (suggestion.label :: seen) remote := by
  rw [unseen]
  by_cases known : suggestion.label ∈ seen
  · -- A label that was seen is no new one for those behind it.
    simp only [List.contains_iff_mem, known, if_true, List.nil_append]
    exact unseen_congr (by simpa using known) remote
  · simp [known]

/-- What is kept of a reply stands in the order of the reply. -/
theorem unseen_sublist (seen : List String) (remote : List Suggestion) :
    (unseen seen remote).Sublist remote := by
  -- Induction on the remote suggestions: each is kept in its place or left out.
  induction remote generalizing seen with
  | nil => exact .slnil
  | cons suggestion remote ih =>
    have front : (if suggestion.label ∈ seen then [] else [suggestion]).Sublist [suggestion] := by
      split
      · exact List.nil_sublist _
      · exact List.Sublist.refl _
    rw [unseen_cons]
    exact front.append (ih _)

/-- What is kept of a reply are the first suggestions of each label that is new. -/
theorem mem_unseen_iff : suggestion ∈ unseen seen remote ↔ FirstOfLabel seen remote suggestion := by
  -- Induction on the remote suggestions; from each on, its label counts as seen.
  induction remote generalizing seen with
  | nil => simp [unseen, FirstOfLabel]
  | cons other remote ih =>
    rw [firstOfLabel_cons, unseen_cons, List.mem_append, ih]
    split <;> simp [*]

/-- No label is kept twice. -/
theorem nodup_unseen (seen : List String) (remote : List Suggestion) :
    ((unseen seen remote).map (·.label)).Nodup := by
  -- Induction on the remote suggestions: what is kept is seen from then on.
  induction remote generalizing seen with
  | nil => exact .nil
  | cons suggestion remote ih =>
    rw [unseen_cons]
    split
    · exact ih _
    · refine List.nodup_cons.mpr ⟨fun again => ?_, ih _⟩
      obtain ⟨later, kept, same⟩ := List.mem_map.mp again
      obtain ⟨before, behind, -, unknown, -⟩ := mem_unseen_iff.mp kept
      exact unknown (by simp [same])

/-- The second of two replies is cut down by what was seen before it, the first one included. -/
theorem unseen_append (seen : List String) (first second : List Suggestion) :
    unseen seen (first ++ second) =
      unseen seen first ++ unseen (seen ++ (unseen seen first).map (·.label)) second := by
  induction first generalizing seen with
  | nil => simp [unseen]
  | cons suggestion first ih =>
    rw [List.cons_append, unseen_cons, unseen_cons, ih, List.append_assoc]
    congr 2
    -- The label of the suggestion stands at another place among those seen.
    apply unseen_congr
    intro label
    split
    · rename_i known
      simpa using fun same => .inl (same ▸ known)
    · simp [or_left_comm]

/-- Merging replies one after the other is merging all of them at once. -/
theorem mergeSuggestions_append (own first second : List Suggestion) :
    mergeSuggestions (mergeSuggestions own first) second =
      mergeSuggestions own (first ++ second) := by
  simp only [mergeSuggestions, unseen_append, List.map_append, List.append_assoc]

end Merging

section Caps

variable {language : Language} {context : Context} {cap : UInt64}

/-- The values that a language knows for a field are within the field's cap. -/
theorem length_suggest_le (values : context.wantsValues = true)
    (bounded : context.field?.bind (suggestionCap language) = some cap) :
    (suggest language context).length ≤ cap.toNat := by
  obtain ⟨name, about, limit⟩ := Option.bind_eq_some_iff.mp bounded
  rw [suggest_of_wantsValues values, about, valuesOf, Option.bind_some]
  cases declared : language.field? name with
  | none => exact Nat.zero_le _
  | some field =>
    -- The declaration has the name that was looked up, so both look up the same policy.
    have known := Language.name_of_field? declared
    have cut : ∀ labels : List String, (capped (some cap) labels).length ≤ cap.toNat :=
      fun labels => List.length_take_le _ labels
    simpa [valueSuggestions, known, limit] using cut _

/-- A cap that what comes first meets cuts only what comes behind, and no more than it has to. -/
theorem capped_append {α : Type} {front : List α} {cap : Option UInt64}
    (within : ∀ bound ∈ cap, front.length ≤ bound.toNat) (back : List α) :
    ∃ kept, capped cap (front ++ back) = front ++ kept ∧ kept <+: back ∧
      (∀ bound ∈ cap, (front ++ kept).length ≤ bound.toNat) ∧
      (kept = back ∨ ∃ bound ∈ cap, (front ++ kept).length = bound.toNat) := by
  -- The front fits, so the cap cuts the back only.
  cases cap with
  | none => exact ⟨back, rfl, List.prefix_refl back, by simp, .inl rfl⟩
  | some bound =>
    have room := within bound rfl
    refine ⟨back.take (bound.toNat - front.length), ?_, List.take_prefix _ _, ?_, ?_⟩
    · rw [capped, List.take_append, List.take_of_length_le room]
    · rintro _ ⟨⟩
      simp only [List.length_append, List.length_take]
      omega
    · -- Either all of the back fits, or the cap is reached.
      by_cases fits : back.length ≤ bound.toNat - front.length
      · exact .inl (List.take_of_length_le fits)
      · refine .inr ⟨bound, rfl, ?_⟩
        simp only [List.length_append, List.length_take]
        omega

end Caps

/-- What a reply adds to the language's own suggestions under a cap. -/
structure Adds (own : List Suggestion) (cap : Option UInt64) (remote more : List Suggestion) :
    Prop where
  ordered : more.Sublist remote
  distinct : (more.map (·.label)).Nodup
  first : ∀ suggestion ∈ more, FirstOfLabel (own.map (·.label)) remote suggestion
  /-- A new suggestion is left out only where the cap is reached, so never without a cap. -/
  complete : ∀ suggestion, FirstOfLabel (own.map (·.label)) remote suggestion →
    suggestion ∈ more ∨ ∃ bound ∈ cap, (own ++ more).length = bound.toNat

/-- Merging under a cap that the language's own suggestions meet adds behind them. -/
theorem exists_adds {own : List Suggestion} {cap : Option UInt64}
    (within : ∀ bound ∈ cap, own.length ≤ bound.toNat) (remote : List Suggestion) :
    ∃ more, capped cap (mergeSuggestions own remote) = own ++ more ∧
      (∀ bound ∈ cap, (own ++ more).length ≤ bound.toNat) ∧ Adds own cap remote more := by
  -- The local suggestions fit, so the cap cuts the remote ones that are left.
  obtain ⟨more, cut, early, bounded, whole⟩ :=
    capped_append within (unseen (own.map (·.label)) remote)
  refine ⟨more, cut, bounded, ?_, ?_, ?_, ?_⟩
  · exact early.sublist.trans (unseen_sublist _ _)
  · exact (nodup_unseen _ remote).sublist (early.sublist.map _)
  · exact fun suggestion kept => mem_unseen_iff.mp (early.subset kept)
  · intro suggestion first
    rcases whole with rfl | reached
    · exact .inl (mem_unseen_iff.mpr first)
    · exact .inr reached

namespace Completions

variable {history before behind : List (Nat × CompletionEvent)} {call : Nat} {language : Language}
  {request : CompletionRequest} {result : List Suggestion}

/-- A call that asked the host and has a result was replied to, and the reply has served it. -/
theorem exists_reply_of_answer (once : (startsIn history).Nodup)
    (split : history = before ++ (call, .start language request) :: behind)
    (asks : wantsRemote language request.context = true)
    (answered : (after history).answer? call = some (some result)) :
    ∃ between reply rest, behind = between ++ (call, .reply reply) :: rest ∧
      (∀ other, (call, .reply other) ∉ between) ∧ result = request.served language reply := by
  rcases exists_first (fun event => ∃ reply, event = (call, .reply reply)) behind with
    none | ⟨between, event, rest, rfl, ⟨reply, rfl⟩, first⟩
  · -- Without a reply there is no answer.
    have silent : ∀ reply, (call, .reply reply) ∉ behind :=
      fun reply member => none _ member ⟨reply, rfl⟩
    rw [answer?_unreplied split once asks silent] at answered
    cases answered
  · have silent : ∀ other, (call, .reply other) ∉ between :=
      fun other member => first _ member ⟨other, rfl⟩
    rw [answer?_first_reply split once asks silent] at answered
    refine ⟨between, reply, rest, rfl, silent, ?_⟩
    split at answered
    · exact (Option.some.inj (Option.some.inj answered)).symm
    · cases answered

/--
A host's reply extends the language's own suggestions and takes none of them away.

Whenever a call has a result, the result begins with the language's own suggestions. A call that
does not ask the host, and one that is failed by it, gets nothing else. What a reply adds are the
first suggestions of each label that is new, in the order of the reply and as many as the cap of the
field leaves room for: the result as a whole keeps to the cap. Merging replies one after the other
is merging all of them at once.
-/
theorem run_extends_own (once : (startsIn history).Nodup)
    (split : history = before ++ (call, .start language request) :: behind)
    (answered : (after history).answer? call = some (some result)) :
    (∃ more, result = suggest language request.context ++ more ∧
      (wantsRemote language request.context = false → more = []) ∧
      (wantsRemote language request.context = true →
        (∀ cap ∈ request.context.field?.bind (suggestionCap language),
          result.length ≤ cap.toNat) ∧
        ∃ between reply rest, behind = between ++ (call, .reply reply) :: rest ∧
          (∀ other, (call, .reply other) ∉ between) ∧
          (∀ failure, reply = .error failure → more = []) ∧
          ∀ remote, reply = .ok remote →
            Adds (suggest language request.context)
              (request.context.field?.bind (suggestionCap language)) remote more)) ∧
    ∀ own first second, mergeSuggestions (mergeSuggestions own first) second =
      mergeSuggestions own (first ++ second) := by
  refine ⟨?_, mergeSuggestions_append⟩
  cases asks : wantsRemote language request.context with
  | false =>
    subst split
    obtain ⟨unstarted, unstarted'⟩ := startsIn_apart once rfl
    have view := view_local asks unstarted unstarted'
    rw [show (after _).answer? call = _ from congrArg Prod.snd view] at answered
    cases answered
    exact ⟨[], by simp, fun _ => rfl, by simp⟩
  | true =>
    obtain ⟨between, reply, rest, replied, silent, rfl⟩ :=
      exists_reply_of_answer once split asks answered
    -- Only values are asked of the host, and the language's own values are within the cap.
    have values : request.context.wantsValues = true := (Bool.and_eq_true_iff.mp asks).1
    have within : ∀ cap ∈ request.context.field?.bind (suggestionCap language),
        (suggest language request.context).length ≤ cap.toNat :=
      fun cap bounded => length_suggest_le values bounded
    cases reply with
    | error failure =>
      refine ⟨[], by simp [CompletionRequest.served], by simp, fun _ => ⟨within, ?_⟩⟩
      exact ⟨between, _, rest, replied, silent, fun _ _ => rfl, nofun⟩
    | ok remote =>
      obtain ⟨more, cut, bounded, adds⟩ := exists_adds within remote
      refine ⟨more, cut, by simp, fun _ => ⟨?_, ?_⟩⟩
      · rw [CompletionRequest.served, cut]
        exact bounded
      · refine ⟨between, _, rest, replied, silent, nofun, ?_⟩
        rintro _ ⟨⟩
        exact adds

/-- The language of the stated field, with a cap on the field's values. -/
def cappedLanguage : Language :=
  statedLanguage.withPolicy "state" ⟨true, some 3⟩

/-- What the host knows: one value again, one twice, and one too many. -/
def stateReply : List Suggestion :=
  [⟨quote "closed", .value, none⟩, ⟨quote "draft", .value, none⟩,
    ⟨quote "draft", .keyword, none⟩, ⟨quote "lost", .value, none⟩]

/-- A call that the host replies to. -/
def stateHistory : List (Nat × CompletionEvent) :=
  [(0, .start cappedLanguage stateRequest), (0, .reply (.ok stateReply))]

/-- The values at hand come first, and only the first new one fits behind them. -/
theorem stateHistory_extends_own :
    let own : List Suggestion := [⟨quote "open", .value, some "state"⟩,
      ⟨quote "closed", .value, some "state"⟩]
    let result := own ++ [⟨quote "draft", .value, none⟩]
    ((startsIn stateHistory).Nodup ∧ (after stateHistory).answer? 0 = some (some result)) ∧
      ∃ more, result = own ++ more ∧ result.length ≤ 3 ∧ Adds own (some 3) stateReply more := by
  intro own result
  have once : (startsIn stateHistory).Nodup := by decide
  have answered : (after stateHistory).answer? 0 = some (some result) := by decide
  have split : stateHistory =
      [] ++ (0, .start cappedLanguage stateRequest) :: [(0, .reply (.ok stateReply))] := rfl
  obtain ⟨⟨more, extended, -, asking⟩, -⟩ := run_extends_own once split answered
  obtain ⟨bounded, between, reply, rest, replied, -, -, adds⟩ := asking rfl
  refine ⟨⟨once, answered⟩, more, extended, bounded 3 rfl, adds stateReply ?_⟩
  -- The only reply is the first one.
  cases between with
  | nil =>
    cases replied
    rfl
  | cons event between => cases between <;> cases replied

end Completions

end FilterLang
