import AgentSaas.Proofs.ContextRewinds

/-! A policy selects any part of the log. What is shown of it has whole tool interactions: a
batch with all of its results, or none of them. -/

namespace AgentSaas.Proofs.ContextSelections
open AgentSaas.ContextProjection Occurrences PlatformEvents ContextRewinds Sorting

variable {selectedCallIds : List String} {allEvents earlier later : List PlatformEvent} {event batch result : PlatformEvent}
  {id : String} {log : EventLog}

theorem mem_selectThinking {runId : Option String} (member : id ∈ selectThinking runId earlier) :
    ∃ event ∈ earlier, event.id = id ∧ isThinking event.body := by
  induction earlier with
  | nil => cases member
  | cons candidate earlier ih =>
    have older (inside : id ∈ selectThinking runId earlier) : ∃ event ∈ candidate :: earlier, event.id = id ∧ isThinking event.body := by
      obtain ⟨event, there, found⟩ := ih inside
      exact ⟨event, List.mem_cons_of_mem _ there, found⟩
    unfold selectThinking at member
    split at member
    next =>
      split at member
      · exact older member
      · cases member
    next content body =>
      split at member
      · rcases List.mem_cons.mp member with rfl | inside
        · exact ⟨candidate, List.mem_cons_self .., rfl, by rw [body]; rfl⟩
        · exact older inside
      · cases member
    next => cases member

theorem mem_expandEvents {selectedIds : List String} :
    id ∈ expandEvents selectedCallIds allEvents earlier later selectedIds ↔ id ∈ selectedIds ∨
      ∃ front batch back, later = front ++ batch :: back ∧
        id ∈ expandBatch selectedCallIds allEvents (front.reverse ++ earlier) batch := by
  induction later generalizing earlier selectedIds with
  | nil => exact ⟨.inl, fun found => found.elim (fun member => member) fun ⟨_, _, _, split, _⟩ => absurd split (by simp)⟩
  | cons event later ih =>
    rw [expandEvents, ih, List.mem_append, or_assoc]
    refine or_congr_right ⟨?_, ?_⟩
    · rintro (here | ⟨front, batch, back, rfl, found⟩)
      · exact ⟨[], event, later, rfl, here⟩
      · exact ⟨event :: front, batch, back, rfl, by simpa using found⟩
    · rintro ⟨front, batch, back, split, found⟩
      cases front with
      | nil =>
        cases split
        exact .inl found
      | cons first front =>
        cases split
        exact .inr ⟨front, batch, back, rfl, by simpa using found⟩

def Wanted (selectedCallIds : List String) (batch : PlatformEvent) : Prop := ∃ callId ∈ batch.issues, callId ∈ selectedCallIds

theorem mem_expandBatch : id ∈ expandBatch selectedCallIds allEvents earlier batch ↔ Wanted selectedCallIds batch ∧
    (id = batch.id ∨ (∃ result ∈ allEvents, Answers batch.issues result ∧ result.id = id) ∨
      id ∈ selectThinking batch.runId earlier) := by
  unfold expandBatch
  split
  next content toolCalls body =>
    have issues := issues_of_body body
    dsimp only
    rw [← issues]
    have answers (result : PlatformEvent) : (result.answers.any fun callId => decide (callId ∈ batch.issues)) = true ↔
        Answers batch.issues result := by
      simp only [Option.any_eq_true, decide_eq_true_eq, Answers]
      exact ⟨fun ⟨callId, answer, issued⟩ => ⟨callId, issued, answer⟩, fun ⟨callId, issued, answer⟩ => ⟨callId, answer, issued⟩⟩
    have wanted : (batch.issues.any fun callId => decide (callId ∈ selectedCallIds)) = true ↔ Wanted selectedCallIds batch := by
      simp only [List.any_eq_true, decide_eq_true_eq, Wanted]
    split
    next chosen =>
      rw [List.cons_append, List.mem_cons, List.mem_append, List.mem_map, and_iff_right (wanted.mp chosen)]
      refine or_congr_right (or_congr_left ⟨?_, ?_⟩)
      · rintro ⟨result, member, rfl⟩
        exact ⟨result, (List.mem_filter.mp member).1, (answers result).mp (List.mem_filter.mp member).2, rfl⟩
      · rintro ⟨result, member, answer, rfl⟩
        exact ⟨result, List.mem_filter.mpr ⟨member, (answers result).mpr answer⟩, rfl⟩
    next unwanted => exact ⟨fun wrong => (by cases wrong), fun found => absurd (wanted.mpr found.1) unwanted⟩
  next other =>
    refine ⟨fun wrong => (by cases wrong), fun ⟨⟨callId, issued, _⟩, _⟩ => ?_⟩
    unfold PlatformEvent.issues at issued
    split at issued
    next content toolCalls body => exact absurd body (other content toolCalls)
    next => cases issued

theorem mem_selected {selected : List PlatformEvent} : id ∈ expandEvents (selected.flatMap callIdsOf) allEvents []
      allEvents (selected.map (·.id)) ↔ id ∈ selected.map (·.id) ∨ ∃ front batch back, allEvents = front ++ batch :: back ∧
    Wanted (selected.flatMap callIdsOf) batch ∧ (id = batch.id ∨
      (∃ result ∈ allEvents, Answers batch.issues result ∧ result.id = id) ∨ id ∈ selectThinking batch.runId front.reverse) := by
  simp only [mem_expandEvents, mem_expandBatch, List.append_nil]

theorem issued_by_selected {selected : List PlatformEvent} {callId : String} (chosen : batch ∈ selected)
    (issued : callId ∈ batch.issues) : callId ∈ selected.flatMap callIdsOf := by
  refine List.mem_flatMap.mpr ⟨batch, chosen, ?_⟩
  unfold PlatformEvent.issues at issued
  unfold callIdsOf
  split at issued
  next content toolCalls body => rwa [body]
  next => cases issued

theorem answered_by_selected {selected : List PlatformEvent} {callId : String} (chosen : result ∈ selected)
    (answers : result.answers = some callId) : callId ∈ selected.flatMap callIdsOf := by
  obtain ⟨toolName, content, body⟩ := answers_eq answers
  refine List.mem_flatMap.mpr ⟨result, chosen, ?_⟩
  unfold callIdsOf
  rw [body]
  exact List.mem_singleton_self _

/-- No call is issued twice. -/
def CallsOnce (log : EventLog) : Prop := (log.events.flatMap PlatformEvent.issues).Nodup

theorem CallsOnce.same {first last : PlatformEvent} {callId : String} (once : CallsOnce log) (firstIn : first ∈ log.events)
    (lastIn : last ∈ log.events) (issued : callId ∈ first.issues) (again : callId ∈ last.issues) : first = last :=
  owner_unique once firstIn lastIn issued again

/-- All of what was selected, in the order of the log, and of each tool interaction all or nothing. -/
structure Whole (log : EventLog) (selected chosen : List PlatformEvent) : Prop where
  superset : selected ⊆ chosen
  ordered : chosen.Sublist log.events
  together : ∀ batch ∈ log.events, ∀ result ∈ log.events, Answers batch.issues result → (result ∈ chosen ↔ batch ∈ chosen)

theorem mem_chosen {selected : List PlatformEvent} (within : selected ⊆ log.events) (member : event ∈ log.events)
    (loud : isThinking event.body = false) : event ∈ expandToolInteractionSelection selected log.events ↔
      event ∈ selected ∨ ∃ batch ∈ log.events, Wanted (selected.flatMap callIdsOf) batch ∧
        (event = batch ∨ Answers batch.issues event) := by
  rw [expandToolInteractionSelection, List.mem_filter, and_iff_right member, decide_eq_true_eq, mem_selected]
  constructor
  · rintro (chosen | ⟨front, batch, back, split, wanted, found⟩)
    · obtain ⟨other, chosen, same⟩ := List.mem_map.mp chosen
      rw [← same_of_id same (within chosen) member]
      exact .inl chosen
    · have batchIn : batch ∈ log.events := by rw [split]; simp
      refine .inr ⟨batch, batchIn, wanted, ?_⟩
      rcases found with same | ⟨result, resultIn, answers, same⟩ | thinks
      · exact .inl (same_of_id same member batchIn)
      · rw [← same_of_id same resultIn member]
        exact .inr answers
      · obtain ⟨thought, before, same, thinking⟩ := mem_selectThinking thinks
        have thoughtIn : thought ∈ log.events := by rw [split]; simp [List.mem_reverse.mp before]
        rw [same_of_id same thoughtIn member, loud] at thinking
        cases thinking
  · rintro (chosen | ⟨batch, batchIn, wanted, found⟩)
    · exact .inl (List.mem_map_of_mem chosen)
    · obtain ⟨front, back, split⟩ := List.append_of_mem batchIn
      refine .inr ⟨front, batch, back, split, wanted, ?_⟩
      rcases found with rfl | answers
      · exact .inl rfl
      · exact .inr (.inl ⟨event, member, answers, rfl⟩)

theorem expand_whole (once : CallsOnce log) {selected : List PlatformEvent} (within : selected ⊆ log.events) :
    Whole log selected (expandToolInteractionSelection selected log.events) where
  superset event chosen := List.mem_filter.mpr ⟨within chosen,
    decide_eq_true (mem_selected.mpr (.inl (List.mem_map_of_mem chosen)))⟩
  ordered := List.filter_sublist
  together batch batchIn result resultIn := by
    rintro ⟨callId, issued, answers⟩
    have silent := issues_of_answers answers
    have loud (event : PlatformEvent) (spoken : event.issues ≠ [] ∨ event.answers ≠ none) : isThinking event.body = false := by
      by_contra thinks
      rw [Bool.not_eq_false] at thinks
      rcases spoken with issues | answers
      · exact issues (issues_of_thinking thinks)
      · exact answers (answers_none fun _ _ _ body => by rw [body] at thinks; cases thinks)
    rw [mem_chosen within batchIn (loud batch (.inl (List.ne_nil_of_mem issued))),
      mem_chosen within resultIn (loud result (.inr (by simp [answers])))]
    constructor
    · rintro (chosen | ⟨other, otherIn, wanted, found⟩)
      · exact .inr ⟨batch, batchIn, ⟨callId, issued, answered_by_selected chosen answers⟩, .inl rfl⟩
      · rcases found with rfl | ⟨again, issuedAgain, answersAgain⟩
        · obtain ⟨own, ownIssued, -⟩ := wanted
          rw [silent] at ownIssued
          cases ownIssued
        · rw [answers] at answersAgain
          cases answersAgain
          rw [once.same batchIn otherIn issued issuedAgain]
          exact .inr ⟨other, otherIn, wanted, .inl rfl⟩
    · rintro (chosen | ⟨other, otherIn, wanted, found⟩)
      · exact .inr ⟨batch, batchIn, ⟨callId, issued, issued_by_selected chosen issued⟩, .inr ⟨callId, issued, answers⟩⟩
      · rcases found with rfl | ⟨own, -, ownAnswers⟩
        · exact .inr ⟨batch, batchIn, wanted, .inr ⟨callId, issued, answers⟩⟩
        · rw [issues_of_answers ownAnswers] at issued
          cases issued

theorem slice_sublist {α : Type} (items : List α) (start stop : Int) : (slice items start stop).Sublist items :=
  (List.drop_sublist ..).trans (List.take_sublist ..)

theorem searchEvents_sublist (retrieval : Retrieval) (query : String) (maxMatches : Int) :
    (searchEvents retrieval allEvents query maxMatches).Sublist allEvents := by
  unfold searchEvents
  dsimp only
  split
  · exact List.nil_sublist _
  · exact (slice_sublist ..).trans List.filter_sublist

theorem pushUnique_subset {unique events : List PlatformEvent} : events.foldl pushUnique unique ⊆ unique ++ events := by
  induction events generalizing unique with
  | nil => simp
  | cons event events ih =>
    refine List.Subset.trans ih fun other member => ?_
    rw [List.mem_append] at member ⊢
    refine member.elim (fun old => ?_) fun later => .inr (List.mem_cons_of_mem _ later)
    unfold pushUnique at old
    split at old
    · exact .inl old
    · rcases List.mem_append.mp old with old | single
      · exact .inl old
      · exact .inr (List.mem_singleton.mp single ▸ List.mem_cons_self ..)

theorem policySelection_subset (retrieval : Retrieval) (policy : ContextReconstructionPolicy) :
    policySelection retrieval allEvents policy ⊆ allEvents := by
  cases policy with
  | fullReplay => exact List.Subset.refl _
  | recentWindow recentEvents => exact (slice_sublist ..).subset
  | manualSlice start stop => exact (slice_sublist ..).subset
  | retrievalAugmented query recentEvents maxMatches =>
    intro event member
    have found := pushUnique_subset (Comparator.mem_sort _ |>.mp member)
    rw [List.nil_append, List.mem_append] at found
    exact found.elim (fun inside => (searchEvents_sublist ..).subset inside) fun inside => (slice_sublist ..).subset inside

/-- Whatever part of the log is selected, and so whatever a policy selects, what is shown holds
it, in the order of the log, and a result exactly when the batch that issued its call is shown. -/
theorem expands_whole_interactions (once : CallsOnce log) :
    (∀ selected, selected ⊆ log.events → Whole log selected (expandToolInteractionSelection selected log.events)) ∧
      ∀ retrieval policy, Whole log (policySelection retrieval log.events policy) (selectEvents retrieval log.events policy) := by
  refine ⟨fun selected within => expand_whole once within, fun retrieval policy => ?_⟩
  have expanded := expand_whole once (policySelection_subset retrieval policy)
  cases policy with
  | fullReplay => exact ⟨List.Subset.refl _, List.Sublist.refl _, fun _ batchIn _ resultIn _ => iff_of_true resultIn batchIn⟩
  | _ => exact expanded

/-- A result alone brings its batch and the thinking before it. -/
theorem expands_whole_interactions_of_answer : Whole session [answer "2"] [thought, call "2", answer "2"] := by
  have once : CallsOnce session := by
    unfold CallsOnce
    decide
  exact (expands_whole_interactions once).1 [answer "2"] (by simp [session])

end AgentSaas.Proofs.ContextSelections
