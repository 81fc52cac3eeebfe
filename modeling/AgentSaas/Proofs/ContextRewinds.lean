import AgentSaas.ContextProjection
import AgentSaas.Occurrences

/-! A rewind takes a whole tool interaction out of the context. What remains is as the model
asks for it: each result still follows a call that remains. -/

namespace AgentSaas.Proofs.ContextRewinds
open AgentSaas.ContextProjection Dictionaries Occurrences PlatformEvents

/-- Each result follows an event that issues its call. -/
def Paired (events : List PlatformEvent) : Prop :=
  ∀ earlier result later, events = earlier ++ result :: later → ∀ callId, result.answers = some callId →
    ∃ batch ∈ earlier, callId ∈ batch.issues

def Answers (callIds : List String) (event : PlatformEvent) : Prop := ∃ callId ∈ callIds, event.answers = some callId

def ThinkingOf (runId : Option String) (event : PlatformEvent) : Prop :=
  isThinking event.body ∧ event.runId = runId

/-- Thinking of the run with nothing else that the model sees after it. -/
def ThinksLast (runId : Option String) (earlier : List PlatformEvent) (event : PlatformEvent) : Prop :=
  ThinkingOf runId event ∧ ∃ front back, earlier = front ++ event :: back ∧
    ∀ other ∈ back, isModelVisible other.body → ThinkingOf runId other

/-- What is left is all but one batch, the results of its calls after it and the thinking of its
run directly before it; and each of its calls has a result there. -/
def RemovesInteraction (events left : List PlatformEvent) : Prop :=
  ∃ earlier batch later, events = earlier ++ batch :: later ∧ batch.issues ≠ [] ∧
    (∀ callId ∈ batch.issues, ∃ result ∈ later, result.answers = some callId) ∧ left.Sublist events ∧
    ∀ event ∈ events, event ∈ left ↔ ¬(event = batch ∨ event ∈ later ∧ Answers batch.issues event ∨
      ThinksLast batch.runId earlier event)

variable {sequence : PlatformEvent → Option Int} {log : EventLog} {events earlier later : List PlatformEvent}
  {event other : PlatformEvent}

theorem same_of_id (same : event.id = other.id) (member : event ∈ log.events) (present : other ∈ log.events) : event = other :=
  List.inj_on_of_nodup_map log.distinct member present same

theorem issues_of_body {content : String} {toolCalls : List ModelToolCall}
    (body : event.body = .assistantToolCalls content toolCalls) : event.issues = toolCalls.map (·.id) := by
  unfold PlatformEvent.issues
  rw [body]

theorem answers_eq {callId : String} (answers : event.answers = some callId) :
    ∃ toolName content, event.body = .toolResult callId toolName content := by
  unfold PlatformEvent.answers at answers
  split at answers
  next toolCallId toolName content body =>
    cases answers
    exact ⟨toolName, content, body⟩
  next => cases answers

theorem findBatch_spec {located : Located} (found : findBatch later earlier = some located) :
    earlier.reverse ++ later = located.earlier.reverse ++ located.batch :: located.later ∧
      located.batch.issues = located.toolCalls.map (·.id) := by
  induction earlier generalizing later with
  | nil => cases found
  | cons event earlier ih =>
    rw [List.reverse_cons, List.append_assoc]
    unfold findBatch at found
    split at found
    next => cases found
    next content toolCalls body =>
      cases found
      exact ⟨rfl, issues_of_body body⟩
    next => exact ih found

theorem visible_of_thinking {body : PlatformEventBody} (thinks : isThinking body = true) : isModelVisible body = true := by
  cases body <;> first | rfl | cases thinks

theorem thinking_iff {runId : Option String} {event : PlatformEvent} :
    event ∈ thinkingEvents runId earlier ↔ ThinksLast runId earlier.reverse event := by
  induction earlier with
  | nil =>
    refine ⟨fun wrong => (by cases wrong), fun ⟨_, front, back, split, _⟩ => ?_⟩
    exact absurd split (by simp)
  | cons last earlier ih =>
    have before (inside : ThinksLast runId earlier.reverse event)
        (thinks : isModelVisible last.body → ThinkingOf runId last) : ThinksLast runId (last :: earlier).reverse event := by
      obtain ⟨thinking, front, back, split, rest⟩ := inside
      refine ⟨thinking, front, back ++ [last], by rw [List.reverse_cons, split]; simp, fun other member visible => ?_⟩
      rcases List.mem_append.mp member with old | single
      · exact rest other old visible
      · rw [List.mem_singleton.mp single] at visible ⊢
        exact thinks visible
    have step (thinks : ThinksLast runId (last :: earlier).reverse event) : event = last ∨
        ThinksLast runId earlier.reverse event ∧ (isModelVisible last.body → ThinkingOf runId last) := by
      obtain ⟨thinking, front, back, split, rest⟩ := thinks
      rw [List.reverse_cons] at split
      rcases List.eq_nil_or_concat' back with rfl | ⟨back, final, rfl⟩
      · exact .inl (List.append_inj_right' split rfl |> List.cons.inj |>.1).symm
      · rw [← List.cons_append, ← List.append_assoc] at split
        obtain ⟨front', last'⟩ := List.append_inj' split rfl
        cases last'
        exact .inr ⟨⟨thinking, front, back, front', fun other member => rest other (by simp [member])⟩,
          rest last (by simp)⟩
    unfold thinkingEvents
    split
    next visible =>
      split
      next thinks =>
        rw [List.mem_append, List.mem_singleton, ih]
        constructor
        · rintro (inside | rfl)
          · exact before inside fun _ => thinks
          · exact ⟨thinks, earlier.reverse, [], by simp, by simp⟩
        · intro thinking
          rcases step thinking with same | ⟨inside, -⟩
          · exact .inr same
          · exact .inl inside
      next other =>
        refine ⟨fun wrong => (by cases wrong), fun thinking => absurd ?_ other⟩
        rcases step thinking with rfl | ⟨-, thinks⟩
        · exact thinking.1
        · exact thinks visible
    next hidden =>
      rw [ih]
      refine ⟨fun inside => before inside fun visible => absurd visible hidden, fun thinking => ?_⟩
      rcases step thinking with rfl | ⟨inside, -⟩
      · exact absurd (visible_of_thinking thinking.1.1) hidden
      · exact inside

section Collecting

variable {expectedIds : List String} {table : Dictionary String PlatformEvent} {collected : Collected}

/-- What the loop over the results holds of the events it has passed and of those behind the boundary. -/
structure Collects (expectedIds : List String) (table : Dictionary String PlatformEvent) (later : List PlatformEvent)
    (collected : Collected) : Prop where
  grown : ∀ callId event, table.get callId = some event → collected.resultByToolCallId.get callId = some event
  sound : ∀ callId event, collected.resultByToolCallId.get callId = some event → table.get callId = some event ∨
    callId ∈ expectedIds ∧ event ∈ later ∧ event.answers = some callId
  whole : ∀ event ∈ later, ∀ callId, event.answers = some callId →
    collected.resultByToolCallId.get callId = some event ∨ event ∈ collected.afterBoundary
  rest : ∀ event ∈ collected.afterBoundary, event ∈ later

theorem Collects.hidden (inside : Collects expectedIds table later collected) (silent : event.answers = none) :
    Collects expectedIds table (event :: later) collected where
  grown := inside.grown
  sound callId result got := (inside.sound callId result got).imp_right fun ⟨expected, member, answers⟩ =>
    ⟨expected, List.mem_cons_of_mem _ member, answers⟩
  whole result member callId answers := by
    rcases List.mem_cons.mp member with rfl | member
    · rw [silent] at answers
      cases answers
    · exact inside.whole result member callId answers
  rest result member := List.mem_cons_of_mem _ (inside.rest result member)

theorem Collects.result {toolCallId : String}
    (inside : Collects expectedIds (table.set toolCallId event) later collected) (expected : toolCallId ∈ expectedIds)
    (missing : table.get toolCallId = none) (answers : event.answers = some toolCallId) :
    Collects expectedIds table (event :: later) collected where
  grown callId result got := by
    apply inside.grown
    rw [Dictionary.get_set_of_ne (by rintro rfl; rw [missing] at got; cases got)]
    exact got
  sound callId result got := by
    rcases inside.sound callId result got with old | ⟨wanted, member, answered⟩
    · rw [Dictionary.get_set] at old
      split at old
      next same =>
        cases old
        rw [same]
        exact .inr ⟨expected, List.mem_cons_self .., answers⟩
      next => exact .inl old
    · exact .inr ⟨wanted, List.mem_cons_of_mem _ member, answered⟩
  whole result member callId answered := by
    rcases List.mem_cons.mp member with rfl | member
    · rw [answers] at answered
      cases answered
      exact .inl (inside.grown _ _ (Dictionary.get_set_self ..))
    · exact inside.whole result member callId answered
  rest result member := List.mem_cons_of_mem _ (inside.rest result member)

theorem answers_none (other : ∀ toolCallId toolName content, event.body ≠ .toolResult toolCallId toolName content) :
    event.answers = none := by
  cases answers : event.answers with
  | none => rfl
  | some callId =>
    obtain ⟨toolName, content, body⟩ := answers_eq answers
    exact absurd body (other callId toolName content)

theorem collectResults_collects (collects : collectResults expectedIds table later = some collected) :
    Collects expectedIds table later collected := by
  induction later generalizing table with
  | nil =>
    cases collects
    exact ⟨fun _ _ => id, fun _ _ => .inl, fun _ wrong => (by cases wrong), fun _ => id⟩
  | cons event later ih =>
    have boundary (silent : event.answers = none) (at_end : some (Collected.mk table later) = some collected) :
        Collects expectedIds table (event :: later) collected := by
      cases at_end
      refine Collects.hidden ⟨fun _ _ => id, fun _ _ => .inl, fun result member _ _ => .inr member, fun _ => id⟩ silent
    unfold collectResults at collects
    split at collects
    next toolCallId toolName content body =>
      split at collects
      next => cases collects
      next fine =>
        rw [not_or, not_not, Bool.not_eq_true, Dictionary.has, Option.isSome_eq_false_iff, Option.isNone_iff_eq_none] at fine
        have answers : event.answers = some toolCallId := by
          unfold PlatformEvent.answers
          rw [body]
        exact (ih collects).result fine.1 fine.2 answers
    next body => exact boundary (answers_none (by simp [body])) collects
    next body => exact boundary (answers_none (by simp [body])) collects
    next other _ _ =>
      split at collects
      next => cases collects
      next => exact (ih collects).hidden (answers_none other)

end Collecting

theorem keys_full {expectedIds : List String} {table : Dictionary String PlatformEvent}
    (inside : ∀ callId event, table.get callId = some event → callId ∈ expectedIds)
    (size : table.entries.length = expectedIds.length) : ∀ callId ∈ expectedIds, ∃ event, table.get callId = some event := by
  have within : table.keys ⊆ expectedIds := fun callId member => by
    obtain ⟨event, got⟩ := Option.isSome_iff_exists.mp (Dictionary.mem_keys.mp member)
    exact inside callId event got
  have all : table.keys.Perm expectedIds :=
    (List.subperm_of_subset table.keys_nodup within).perm_of_length_le (by rw [Dictionary.keys, List.length_map, size])
  intro callId member
  exact Option.isSome_iff_exists.mp (Dictionary.mem_keys.mp (all.mem_iff.mpr member))

theorem mem_orderedExcluded {excludedIds : List String} {id : String} :
    id ∈ (orderedExcluded sequence events excludedIds).map (·.1.id) ↔ id ∈ excludedIds ∧ ∃ event ∈ events, event.id = id := by
  simp only [orderedExcluded, List.mem_map, List.mem_filter, List.mem_mapIdx, decide_eq_true_eq]
  constructor
  · rintro ⟨entry, ⟨⟨index, inside, rfl⟩, chosen⟩, rfl⟩
    exact ⟨chosen, events[index], List.getElem_mem inside, rfl⟩
  · rintro ⟨chosen, event, member, rfl⟩
    obtain ⟨index, inside, rfl⟩ := List.getElem_of_mem member
    exact ⟨_, ⟨⟨index, inside, rfl⟩, chosen⟩, rfl⟩

def InUnit (located : Located) (event : PlatformEvent) : Prop :=
  event = located.batch ∨ event ∈ located.later ∧ Answers located.batch.issues event ∨
    ThinksLast located.batch.runId located.earlier.reverse event

theorem completeUnit_spec {located : Located} {unit : CompleteToolInteractionUnit}
    (issues : located.batch.issues = located.toolCalls.map (·.id))
    (complete : completeUnit sequence events located = some unit) :
    located.batch.issues ≠ [] ∧
      (∀ callId ∈ located.batch.issues, ∃ result ∈ located.later, result.answers = some callId) ∧
      ∀ id, id ∈ unit.excludedEventIds ↔ (∃ event, InUnit located event ∧ event.id = id) ∧ ∃ event ∈ events, event.id = id := by
  unfold completeUnit at complete
  dsimp only at complete
  rw [← issues] at complete
  split at complete
  next => cases complete
  next fine =>
    simp only [not_or] at fine
    split at complete
    next => cases complete
    next collected collects =>
      have parts := collectResults_collects collects
      have sound (callId : String) (event : PlatformEvent) (got : collected.resultByToolCallId.get callId = some event) :
          callId ∈ located.batch.issues ∧ event ∈ located.later ∧ event.answers = some callId := by
        rcases parts.sound callId event got with wrong | inside
        · cases wrong
        · exact inside
      split at complete
      next => cases complete
      next size =>
        split at complete
        next => cases complete
        next behind =>
          have full := keys_full (fun callId event got => (sound callId event got).1) (not_not.mp size)
          have results (event : PlatformEvent) : event ∈ located.later ∧ Answers located.batch.issues event ↔
              ∃ callId ∈ located.batch.issues, collected.resultByToolCallId.get callId = some event := by
            constructor
            · rintro ⟨member, callId, expected, answers⟩
              rcases parts.whole event member callId answers with got | after
              · exact ⟨callId, expected, got⟩
              · refine absurd (List.any_eq_true.mpr ⟨event, after, ?_⟩) behind
                rw [answers]
                exact decide_eq_true expected
            · rintro ⟨callId, expected, got⟩
              obtain ⟨-, member, answers⟩ := sound callId event got
              exact ⟨member, callId, expected, answers⟩
          split at complete
          next => cases complete
          next =>
            split at complete
            next first last _ _ =>
              cases complete
              refine ⟨fun none => fine.1 (List.map_eq_nil_iff.mp (issues ▸ none)), fun callId expected => ?_, fun id => ?_⟩
              · obtain ⟨event, got⟩ := full callId expected
                obtain ⟨-, member, answers⟩ := sound callId event got
                exact ⟨event, member, answers⟩
              · rw [mem_orderedExcluded]
                refine and_congr_left fun _ => ?_
                rw [List.mem_append, List.mem_cons, List.mem_map, List.mem_filterMap]
                constructor
                · rintro (⟨event, thinks, rfl⟩ | rfl | ⟨callId, expected, got⟩)
                  · exact ⟨event, .inr (.inr (thinking_iff.mp thinks)), rfl⟩
                  · exact ⟨located.batch, .inl rfl, rfl⟩
                  · obtain ⟨event, found, rfl⟩ := Option.map_eq_some_iff.mp got
                    exact ⟨event, .inr (.inl ((results event).mpr ⟨callId, expected, found⟩)), rfl⟩
                · rintro ⟨event, rfl | result | thinks, rfl⟩
                  · exact .inr (.inl rfl)
                  · obtain ⟨callId, expected, got⟩ := (results event).mp result
                    exact .inr (.inr ⟨callId, expected, by rw [got]; rfl⟩)
                  · exact .inl ⟨event, thinking_iff.mpr thinks, rfl⟩
            next => cases complete

theorem effective_sublist : log.effective.Sublist log.events := List.filter_sublist

theorem effective_nodup : log.effective.Nodup := (log.distinct.of_map _).sublist effective_sublist

theorem effective_rewind {excludedEventIds : List String} (fresh : event.id ∉ log.events.map (·.id))
    (body : event.body = .contextRewind excludedEventIds) :
    (log.append event fresh).effective = log.effective.filter fun other => other.id ∉ excludedEventIds := by
  have excluded : excludedBy event = excludedEventIds := by
    unfold excludedBy
    rw [body]
  have rewinds : isRewind event.body = true := by rw [body]; rfl
  simp only [EventLog.effective, applyContextRewinds, EventLog.append, List.flatMap_append, List.flatMap_singleton,
    excluded, List.filter_append, List.filter_filter, List.filter_singleton, rewinds, Bool.not_true, Bool.false_and,
    cond_false, List.append_nil]
  apply List.filter_congr
  intro other _
  rw [Bool.eq_iff_iff]
  simp only [Bool.and_eq_true, decide_eq_true_eq, List.mem_append, not_or]
  constructor
  · rintro ⟨plain, old, new⟩
    exact ⟨new, plain, old⟩
  · rintro ⟨new, plain, old⟩
    exact ⟨plain, old, new⟩

theorem effective_event (fresh : event.id ∉ log.events.map (·.id)) (plain : isRewind event.body = false) :
    (log.append event fresh).effective = log.effective ++ if event.id ∈ log.events.flatMap excludedBy then [] else [event] := by
  have excluded : excludedBy event = [] := by
    unfold excludedBy
    split
    next body => rw [body] at plain; cases plain
    next => rfl
  simp only [EventLog.effective, applyContextRewinds, EventLog.append, List.flatMap_append, List.flatMap_singleton,
    excluded, List.append_nil, List.filter_append, List.filter_singleton, plain]
  split <;> simp [*]

theorem paired_filter {keep : PlatformEvent → Bool} (paired : Paired events)
    (whole : ∀ earlier batch later, events = earlier ++ batch :: later → keep batch = false →
      ∀ result ∈ later, Answers batch.issues result → keep result = false) : Paired (events.filter keep) := by
  intro earlier result later split callId answers
  obtain ⟨front, back, rfl, kept, rest⟩ := List.filter_eq_append_iff.mp split
  obtain ⟨hidden, after, rfl, gone, here, -⟩ := List.filter_eq_cons_iff.mp rest
  obtain ⟨batch, member, issued⟩ := paired (front ++ hidden) result after (by simp) callId answers
  have remains : keep batch = true := by
    by_contra lost
    obtain ⟨before, between, place⟩ := List.append_of_mem member
    have wrong := whole before batch (between ++ result :: after) (by rw [← List.append_assoc, place]; simp)
      (Bool.not_eq_true _ ▸ lost) result (by simp) ⟨callId, issued, answers⟩
    rw [here] at wrong
    cases wrong
  refine ⟨batch, ?_, issued⟩
  rw [← kept, List.mem_filter]
  rcases List.mem_append.mp member with old | inside
  · exact ⟨old, remains⟩
  · exact absurd remains (gone batch inside)

theorem issues_of_answers {callId : String} (answers : event.answers = some callId) : event.issues = [] := by
  obtain ⟨toolName, content, body⟩ := answers_eq answers
  unfold PlatformEvent.issues
  rw [body]

theorem issues_of_thinking (thinks : isThinking event.body = true) : event.issues = [] := by
  unfold PlatformEvent.issues
  split
  next body => rw [body] at thinks; cases thinks
  next => rfl

structure Rewinds (log : EventLog) (unit : CompleteToolInteractionUnit) (left : List PlatformEvent) : Prop where
  removes : RemovesInteraction log.effective left
  paired : Paired log.effective → Paired left

theorem rewinds_unit {unit : CompleteToolInteractionUnit}
    (found : findLastCompleteToolInteractionUnit sequence log.effective log.events = some unit) :
    Rewinds log unit (log.effective.filter fun event => event.id ∉ unit.excludedEventIds) := by
  obtain ⟨located, place, complete⟩ := Option.bind_eq_some_iff.mp found
  obtain ⟨split, issues⟩ := findBatch_spec place
  rw [List.reverse_reverse, List.append_nil] at split
  obtain ⟨nonempty, answered, excluded⟩ := completeUnit_spec issues complete
  have inside {event : PlatformEvent} (unit : InUnit located event) : event ∈ log.effective := by
    rw [split, List.mem_append, List.mem_cons]
    rcases unit with rfl | ⟨member, -⟩ | ⟨-, front, back, thinks, -⟩
    · exact .inr (.inl rfl)
    · exact .inr (.inr member)
    · exact .inl (by rw [thinks]; simp)
  have gone (event : PlatformEvent) (member : event ∈ log.effective) :
      event.id ∈ unit.excludedEventIds ↔ InUnit located event := by
    have here := effective_sublist.subset member
    rw [excluded]
    constructor
    · rintro ⟨⟨other, other_in, same⟩, -⟩
      rw [← same_of_id same (effective_sublist.subset (inside other_in)) here]
      exact other_in
    · exact fun unit => ⟨⟨event, unit, rfl⟩, event, here, rfl⟩
  refine ⟨⟨_, _, _, split, nonempty, answered, List.filter_sublist, fun event member => ?_⟩, fun paired => ?_⟩
  · rw [List.mem_filter, decide_eq_true_eq, gone event member]
    exact and_iff_right member
  · refine paired_filter paired fun earlier batch later other lost result member answers => ?_
    rw [decide_eq_false_iff_not, not_not] at lost ⊢
    obtain ⟨callId, issued, answer⟩ := answers
    have mine : batch = located.batch := by
      rcases (gone batch (by rw [other]; simp)).mp lost with same | ⟨-, _, -, wrong⟩ | ⟨wrong, -⟩
      · exact same
      · rw [issues_of_answers wrong] at issued
        cases issued
      · rw [issues_of_thinking wrong.1] at issued
        cases issued
    rw [mine] at other issued
    have same := (split_unique effective_nodup split other).2
    exact (gone result (by rw [other]; simp [member])).mpr (.inr (.inl ⟨same ▸ member, callId, issued, answer⟩))

/-- A log that grows: by rewinds of the last complete interaction that it shows, and by events
with the results among them after their calls. -/
inductive History (sequence : PlatformEvent → Option Int) (log : EventLog) : EventLog → Prop where
  | start : History sequence log log
  | rewind {later : EventLog} {unit : CompleteToolInteractionUnit} {id timestamp : String} {runId : Option String}
      (before : History sequence log later)
      (found : findLastCompleteToolInteractionUnit sequence later.effective later.events = some unit)
      (fresh : id ∉ later.events.map (·.id)) :
      History sequence log (later.append (unit.rewind id timestamp runId) fresh)
  | event {later : EventLog} {event : PlatformEvent} (before : History sequence log later)
      (plain : isRewind event.body = false)
      (follows : ∀ callId, event.answers = some callId → ∃ batch ∈ later.effective, callId ∈ batch.issues)
      (fresh : event.id ∉ later.events.map (·.id)) : History sequence log (later.append event fresh)

theorem paired_concat (paired : Paired events)
    (follows : ∀ callId, event.answers = some callId → ∃ batch ∈ events, callId ∈ batch.issues) :
    Paired (events ++ [event]) := by
  intro earlier result later split callId answers
  rcases List.eq_nil_or_concat' later with rfl | ⟨later, last, rfl⟩
  · obtain ⟨rfl, single⟩ := List.append_inj' split rfl
    cases single
    exact follows callId answers
  · rw [← List.cons_append, ← List.append_assoc] at split
    obtain ⟨inside, -⟩ := List.append_inj' split rfl
    exact paired earlier result later inside callId answers

theorem history_paired {later : EventLog} (paired : Paired log.effective) (history : History sequence log later) :
    Paired later.effective := by
  induction history with
  | start => exact paired
  | rewind before found fresh ih =>
    rw [effective_rewind fresh rfl]
    exact (rewinds_unit found).paired ih
  | event before plain follows fresh ih =>
    rw [effective_event fresh plain]
    split
    · rwa [List.append_nil]
    · exact paired_concat ih follows

/-- However often interactions have been rewound, the next rewind takes a whole one away and
nothing else, and each result that is left follows a call that is left. -/
theorem rewinds_whole_interactions {later : EventLog} (paired : Paired log.effective) (history : History sequence log later) :
    Paired later.effective ∧ ∀ unit id timestamp runId (fresh : id ∉ later.events.map (·.id)),
      findLastCompleteToolInteractionUnit sequence later.effective later.events = some unit →
        RemovesInteraction later.effective (later.append (unit.rewind id timestamp runId) fresh).effective ∧
          Paired (later.append (unit.rewind id timestamp runId) fresh).effective := by
  refine ⟨history_paired paired history, fun unit id timestamp runId fresh found => ?_⟩
  rw [effective_rewind fresh rfl]
  have rewinds := rewinds_unit found
  exact ⟨rewinds.removes, rewinds.paired (history_paired paired history)⟩

/-! A session with two interactions: the last one is rewound, and the one before it can be. -/

def call (id : String) : PlatformEvent :=
  ⟨"batch-" ++ id, "t", some "run", .assistantToolCalls "" [⟨id, "Read", "\x7b\x7d"⟩]⟩

def answer (id : String) : PlatformEvent := ⟨"result-" ++ id, "t", some "run", .toolResult id "Read" "ok"⟩

def thought : PlatformEvent := ⟨"thought", "t", some "run", .assistantThinking "next"⟩

def session : EventLog := ⟨[call "1", answer "1", thought, call "2", answer "2"], by decide⟩

def lastUnit : CompleteToolInteractionUnit := ⟨["thought", "batch-2", "result-2"], ["2"], 3, 5⟩
def firstUnit : CompleteToolInteractionUnit := ⟨["batch-1", "result-1"], ["1"], 1, 2⟩

def rewound : EventLog := session.append (lastUnit.rewind "rewind-2" "t" (some "run")) (by decide)

theorem session_paired : Paired session.effective := by
  have silent : Paired [] := fun earlier result later split => absurd split (by simp)
  have first : Paired [call "1"] := paired_concat silent fun _ wrong => (by cases wrong)
  have second : Paired [call "1", answer "1"] := paired_concat first fun _ answers =>
    ⟨call "1", List.mem_cons_self .., by cases answers; decide⟩
  have third : Paired [call "1", answer "1", thought] := paired_concat second fun _ wrong => (by cases wrong)
  have fourth : Paired [call "1", answer "1", thought, call "2"] := paired_concat third fun _ wrong => (by cases wrong)
  exact paired_concat fourth fun _ answers => ⟨call "2", by simp, by cases answers; decide⟩

theorem rewinds_whole_interactions_twice :
    findLastCompleteToolInteractionUnit (fun _ => none) session.effective session.events = some lastUnit ∧
      RemovesInteraction rewound.effective (rewound.append (firstUnit.rewind "rewind-1" "t" (some "run")) (by decide)).effective := by
  have history : History (fun _ => none) session rewound := .rewind .start rfl (by decide)
  have whole := (rewinds_whole_interactions session_paired history).2 firstUnit "rewind-1" "t" (some "run") (by decide) rfl
  exact ⟨rfl, whole.1⟩

end AgentSaas.Proofs.ContextRewinds
