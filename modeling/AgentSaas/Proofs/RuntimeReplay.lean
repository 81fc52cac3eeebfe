import AgentSaas.Occurrences
import AgentSaas.RuntimeReplay

/-! Closing a replay: each call that the log leaves open gets a failed result directly after the
batch that issued it, and the other calls are left as they are. -/

namespace AgentSaas.Proofs.RuntimeReplay
open AgentSaas.RuntimeReplay Dictionaries Occurrences
open PlatformEvents (ModelToolCall)

/-- The events of one session; the event store has one row for an event id. -/
structure SessionLog where
  sessionId : String
  events : List ReplayEvent
  ofSession : ∀ event ∈ events, ∀ id, event.sessionId = some id → id = sessionId
  distinct : (events.map (·.id)).Nodup

def Issues (event : ReplayEvent) (callId : String) : Prop := ∃ call ∈ event.calls, call.id = callId

/-- No call is issued twice. -/
def CallsOnce (log : SessionLog) : Prop := (log.events.flatMap fun event => event.calls.map (·.id)).Nodup

/-- Each result follows the event that issues its call. -/
def Follows (log : SessionLog) : Prop :=
  ∀ earlier result later, log.events = earlier ++ result :: later → ∀ callId, result.answers = some callId →
    ∃ batch ∈ earlier, Issues batch callId

def Open (events : List ReplayEvent) (callId : String) : Prop := ∀ event ∈ events, event.answers ≠ some callId

instance (events : List ReplayEvent) (callId : String) : Decidable (Open events callId) :=
  inferInstanceAs (Decidable (∀ event ∈ events, event.answers ≠ some callId))

def closing (log : SessionLog) (event : ReplayEvent) : List ReplayEvent :=
  (event.calls.filter fun call => Open log.events call.id).map fun call =>
    syntheticResult log.sessionId event (stateOf event call)

/-- The log with a result after each call, and with no other change. -/
structure Closes (log : SessionLog) (closed : List ReplayEvent) : Prop where
  inserted : closed = log.events.flatMap fun event => event :: closing log event
  answered : ∀ before batch after, closed = before ++ batch :: after → ∀ callId, Issues batch callId →
    ∃ result ∈ after, result.answers = some callId
  untouched : ∀ callId, ¬Open log.events callId →
    closed.filter (·.answers = some callId) = log.events.filter (·.answers = some callId)
  stable : closeUnfinishedReplayToolCalls closed log.sessionId = closed

variable {log : SessionLog} {events : List ReplayEvent} {event : ReplayEvent} {found : Found} {callId sessionId : String}

def statesOf (event : ReplayEvent) : List RuntimeToolCallState := event.calls.map (stateOf event)

theorem findEvent_calls : (findEvent found event).toolCallsById =
    (statesOf event).foldl (fun states state => states.set state.toolCallId state) found.toolCallsById := by
  unfold findEvent statesOf ReplayEvent.calls
  rw [List.foldl_map]
  cases event.body with
  | interactionRequested request =>
    dsimp only
    split
    · split <;> rfl
    · rfl
  | runCancelRequested =>
    dsimp only
    split
    · split <;> rfl
    · rfl
  | _ => rfl

theorem findEvent_results : (findEvent found event).toolResultsByCallId =
    match event.answers with
    | some callId => found.toolResultsByCallId.set callId event
    | none => found.toolResultsByCallId := by
  unfold findEvent ReplayEvent.answers
  cases event.body with
  | interactionRequested request =>
    dsimp only
    split
    · split <;> rfl
    · rfl
  | runCancelRequested =>
    dsimp only
    split
    · split <;> rfl
    · rfl
  | _ => rfl

theorem findEvents_results (events : List ReplayEvent) (found : Found) :
    ((events.foldl findEvent found).toolResultsByCallId.get callId).isNone ↔
      (found.toolResultsByCallId.get callId).isNone ∧ Open events callId := by
  induction events generalizing found with
  | nil => exact (and_iff_left fun _ wrong => (by cases wrong)).symm
  | cons event events ih =>
    rw [List.foldl_cons, ih, findEvent_results, Open, Open, List.forall_mem_cons, ← and_assoc]
    refine and_congr_left fun _ => ?_
    cases answers : event.answers with
    | none => simp
    | some other =>
      rw [Dictionary.get_set]
      by_cases same : callId = other
      · simp [same]
      · simp [same, Ne.symm same]

theorem findEvents_calls (events : List ReplayEvent) (found : Found)
    (fresh : (found.toolCallsById.keys ++ (events.flatMap statesOf).map (·.toolCallId)).Nodup) :
    (events.foldl findEvent found).toolCallsById.values = found.toolCallsById.values ++ events.flatMap statesOf := by
  have each (states : List RuntimeToolCallState) (table : Dictionary String RuntimeToolCallState)
      (fresh : (table.keys ++ states.map (·.toolCallId)).Nodup) :
      (states.foldl (fun states state => states.set state.toolCallId state) table).entries =
        table.entries ++ states.map fun state => (state.toolCallId, state) := by
    induction states generalizing table with
    | nil => exact (List.append_nil _).symm
    | cons state states ih =>
      have missing : table.get state.toolCallId = none := by
        rw [← Option.not_isSome_iff_eq_none, ← Dictionary.mem_keys]
        exact fun member => (List.nodup_append.mp fresh).2.2 _ member _ (by simp) rfl
      have grown : (table.set state.toolCallId state).entries = table.entries ++ [(state.toolCallId, state)] :=
        Dictionary.entries_set_of_absent missing
      rw [List.foldl_cons, ih _ (by simpa [Dictionary.keys, grown] using fresh), grown, List.append_assoc]
      rfl
  induction events generalizing found with
  | nil => exact (List.append_nil _).symm
  | cons event events ih =>
    rw [List.flatMap_cons, List.map_append, ← List.append_assoc] at fresh
    have here := each (statesOf event) found.toolCallsById (List.nodup_append.mp fresh).1
    rw [← findEvent_calls] at here
    rw [List.foldl_cons, ih, Dictionary.values, here, List.flatMap_cons, ← List.append_assoc]
    · simp [Dictionary.values, Function.comp_def]
    · rw [Dictionary.keys, here]
      simpa [Dictionary.keys, Function.comp_def] using fresh

theorem findEvents_issued (events : List ReplayEvent) (found : Found) :
    ∀ state ∈ (events.foldl findEvent found).toolCallsById.values,
      state ∈ found.toolCallsById.values ∨ state ∈ events.flatMap statesOf := by
  have each (states : List RuntimeToolCallState) (table : Dictionary String RuntimeToolCallState) :
      ∀ state ∈ (states.foldl (fun states state => states.set state.toolCallId state) table).values,
        state ∈ table.values ∨ state ∈ states := by
    induction states generalizing table with
    | nil => exact fun _ => .inl
    | cons first states ih =>
      intro state member
      rcases ih _ state member with old | later
      · obtain ⟨key, got⟩ := Dictionary.mem_values.mp old
        rw [Dictionary.get_set] at got
        split at got
        · cases got
          exact .inr (List.mem_cons_self ..)
        · exact .inl (Dictionary.mem_values.mpr ⟨key, got⟩)
      · exact .inr (List.mem_cons_of_mem _ later)
  induction events generalizing found with
  | nil => exact fun _ => .inl
  | cons event events ih =>
    intro state member
    rw [List.flatMap_cons, List.mem_append]
    rcases ih _ state member with old | later
    · rw [findEvent_calls] at old
      exact (each _ _ state old).imp_right .inl
    · exact .inr (.inr later)

theorem get_enterUnclosed (states : List RuntimeToolCallState) (table : Dictionary String (List RuntimeToolCallState))
    (batchId : String) : ((states.foldl enterUnclosed table).get batchId).getD [] =
      (table.get batchId).getD [] ++ states.filter (·.batchId = batchId) := by
  induction states generalizing table with
  | nil => exact (List.append_nil _).symm
  | cons state states ih =>
    rw [List.foldl_cons, ih, enterUnclosed, Dictionary.get_set, List.filter_cons]
    by_cases same : batchId = state.batchId
    · simp [same]
    · simp [same, Ne.symm same]

theorem closeEvent_empty : closeEvent sessionId .empty event = [event] := by
  unfold closeEvent
  split <;> rfl

theorem closeUnfinished_eq (events : List ReplayEvent) (sessionId : String) :
    closeUnfinishedReplayToolCalls events sessionId = events.flatMap (closeEvent sessionId
      ((buildRuntimeReplayState events [] sessionId).unclosedToolCalls.foldl enterUnclosed .empty)) := by
  unfold closeUnfinishedReplayToolCalls
  dsimp only
  split
  next none =>
    have alone : closeEvent sessionId .empty = fun event => [event] := funext fun _ => closeEvent_empty
    rw [none, List.foldl_nil, alone]
    exact (List.flatMap_singleton' _).symm
  next => rfl

theorem unclosed_eq (local_events : ∀ event ∈ events, isForeign sessionId event = false) :
    ∃ complete : RuntimeToolCallState → RuntimeToolCallState,
      (∀ state, (complete state).batchId = state.batchId ∧ (complete state).toolCallId = state.toolCallId ∧
        (complete state).toolName = state.toolName ∧ ((complete state).toolResult.isNone ↔ Open events state.toolCallId)) ∧
      (buildRuntimeReplayState events [] sessionId).unclosedToolCalls =
        (((events.foldl findEvent .nothing).toolCallsById.values).map complete).filter (·.toolResult.isNone) := by
  have all : (events.filter fun event => !isForeign sessionId event) = events :=
    List.filter_eq_self.mpr fun event member => by rw [local_events event member]; rfl
  have found : findEvents events sessionId = events.foldl findEvent .nothing := by rw [findEvents, all]
  refine ⟨completeState (findEvents events sessionId) (mergeApprovals (buildApprovalRecordsFromEvents events sessionId) []),
    fun state => ⟨rfl, rfl, rfl, ?_⟩, ?_⟩
  · rw [← and_iff_right (b := Open events state.toolCallId) (show (Found.nothing.toolResultsByCallId.get state.toolCallId).isNone from rfl),
      ← findEvents_results, ← found]
    rfl
  · rw [← found]
    unfold buildRuntimeReplayState
    dsimp only
    rw [Dictionary.values, Dictionary.values, Dictionary.mapValues, List.map_map, List.map_map]
    rfl

theorem SessionLog.kept (log : SessionLog) : ∀ event ∈ log.events, isForeign log.sessionId event = false := by
  intro event member
  unfold isForeign
  cases session : event.sessionId with
  | none => simp
  | some id => simp [log.ofSession event member id session]

theorem CallsOnce.fresh (once : CallsOnce log) : ((log.events.flatMap statesOf).map (·.toolCallId)).Nodup := by
  have issued : (fun event => (statesOf event).map (·.toolCallId)) = fun event => event.calls.map (·.id) := by
    funext event
    rw [statesOf, List.map_map]
    rfl
  rw [List.map_flatMap, issued]
  exact once

theorem filter_batch (distinct : (events.map (·.id)).Nodup) (member : event ∈ events) :
    (events.flatMap statesOf).filter (·.batchId = event.id) = statesOf event := by
  have own (other : ReplayEvent) : (statesOf other).filter (·.batchId = event.id) = if other.id = event.id then statesOf other else [] := by
    split
    next same =>
      apply List.filter_eq_self.mpr
      rintro state inside
      obtain ⟨call, -, rfl⟩ := List.mem_map.mp inside
      exact decide_eq_true same
    next apart =>
      apply List.filter_eq_nil_iff.mpr
      rintro state inside
      obtain ⟨call, -, rfl⟩ := List.mem_map.mp inside
      rw [decide_eq_true_eq]
      exact apart
  have none (rest : List ReplayEvent) (absent : event.id ∉ rest.map (·.id)) :
      (rest.flatMap statesOf).filter (·.batchId = event.id) = [] := by
    rw [List.filter_flatMap, List.flatMap_eq_nil_iff]
    intro other inside
    rw [own, if_neg fun same => absent (List.mem_map.mpr ⟨other, inside, same⟩)]
  obtain ⟨front, back, rfl⟩ := List.append_of_mem member
  rw [List.map_append, List.map_cons, List.nodup_append, List.nodup_cons] at distinct
  rw [List.flatMap_append, List.flatMap_cons, List.filter_append, List.filter_append, own, if_pos rfl,
    none back distinct.2.1.1, none front fun wrong => distinct.2.2 _ wrong _ (List.mem_cons_self ..) rfl,
    List.nil_append, List.append_nil]

theorem closed_eq (once : CallsOnce log) : closeUnfinishedReplayToolCalls log.events log.sessionId =
    log.events.flatMap fun event => event :: closing log event := by
  obtain ⟨complete, same, unclosed⟩ := unclosed_eq log.kept
  rw [findEvents_calls _ _ (by simpa [Found.nothing, Dictionary.keys, Dictionary.empty] using once.fresh)] at unclosed
  rw [closeUnfinished_eq]
  generalize (buildRuntimeReplayState log.events [] log.sessionId).unclosedToolCalls = states at unclosed ⊢
  apply List.flatMap_congr
  intro event member
  have here : (states.filter (·.batchId = event.id)) =
      ((statesOf event).filter fun state => Open log.events state.toolCallId).map complete := by
    rw [← filter_batch log.distinct member, unclosed, List.filter_filter, List.filter_filter, List.filter_map]
    refine congrArg _ (List.filter_congr fun state _ => ?_)
    obtain ⟨batch, -, -, result⟩ := same state
    rw [Bool.eq_iff_iff]
    simp only [Function.comp_apply, Bool.and_eq_true, decide_eq_true_eq, batch, result, and_comm]
  have each : ((states.foldl enterUnclosed .empty).get event.id).getD [] =
      ((statesOf event).filter fun state => Open log.events state.toolCallId).map complete := by
    rw [get_enterUnclosed, Dictionary.get_empty, Option.getD_none, List.nil_append, here]
  have made : closing log event = (((states.foldl enterUnclosed .empty).get event.id).getD []).map
      (syntheticResult log.sessionId event) := by
    have synthetic (call : ModelToolCall) : syntheticResult log.sessionId event (stateOf event call) =
        syntheticResult log.sessionId event (complete (stateOf event call)) := by
      have kept := same (stateOf event call)
      unfold syntheticResult
      rw [kept.2.1, kept.2.2.1]
    rw [each, closing, funext synthetic, statesOf, List.filter_map, List.map_map, List.map_map]
    rfl
  unfold closeEvent
  split
  next => rw [made]
  next other =>
    have none : event.calls = [] := by
      unfold ReplayEvent.calls
      split
      next toolCalls body => exact absurd body (other toolCalls)
      next => rfl
    rw [closing, none]
    rfl

def closedLog (log : SessionLog) : List ReplayEvent := log.events.flatMap fun event => event :: closing log event

theorem closing_spec {result : ReplayEvent} (member : result ∈ closing log event) : result.calls = [] ∧
    result.sessionId = some log.sessionId ∧ ∃ callId, result.answers = some callId ∧ Issues event callId ∧ Open log.events callId := by
  obtain ⟨call, chosen, rfl⟩ := List.mem_map.mp member
  obtain ⟨issued, missing⟩ := List.mem_filter.mp chosen
  exact ⟨rfl, rfl, call.id, rfl, ⟨call, issued, rfl⟩, of_decide_eq_true missing⟩

theorem mem_closing (issued : Issues event callId) (missing : Open log.events callId) :
    ∃ result ∈ closing log event, result.answers = some callId := by
  obtain ⟨call, member, rfl⟩ := issued
  exact ⟨_, List.mem_map_of_mem (List.mem_filter.mpr ⟨member, decide_eq_true missing⟩), rfl⟩

theorem split_closed {before after : List ReplayEvent} {batch : ReplayEvent} (calls : batch.calls ≠ []) (events : List ReplayEvent)
    (split : (events.flatMap fun event => event :: closing log event) = before ++ batch :: after) :
    ∃ front back, events = front ++ batch :: back ∧
      after = closing log batch ++ back.flatMap fun event => event :: closing log event := by
  induction events generalizing before with
  | nil => exact absurd split (by simp)
  | cons event events ih =>
    rw [List.flatMap_cons, List.cons_append] at split
    cases before with
    | nil =>
      cases split
      exact ⟨[], events, rfl, rfl⟩
    | cons first before =>
      obtain ⟨-, split⟩ := List.cons.inj split
      have later (rest : List ReplayEvent)
          (split : (events.flatMap fun event => event :: closing log event) = rest ++ batch :: after) :
          ∃ front back, event :: events = front ++ batch :: back ∧
            after = closing log batch ++ back.flatMap fun event => event :: closing log event := by
        obtain ⟨front, back, place, tail⟩ := ih split
        exact ⟨event :: front, back, by rw [place]; rfl, tail⟩
      rcases List.append_eq_append_iff.mp split with ⟨rest, -, split⟩ | ⟨rest, inside, split⟩
      · exact later rest split
      · cases rest with
        | nil => exact later [] split.symm
        | cons synthetic rest =>
          obtain ⟨rfl, -⟩ := List.cons.inj split
          have member : batch ∈ closing log event := by rw [inside]; simp
          exact absurd (closing_spec member).1 calls

theorem CallsOnce.same {first last : ReplayEvent} (once : CallsOnce log) (firstIn : first ∈ log.events)
    (lastIn : last ∈ log.events) (issued : Issues first callId) (again : Issues last callId) : first = last :=
  owner_unique once firstIn lastIn (List.mem_map.mpr issued) (List.mem_map.mpr again)

theorem closed_answered (once : CallsOnce log) (follows : Follows log) {before after : List ReplayEvent} {batch : ReplayEvent}
    (split : closedLog log = before ++ batch :: after) (issued : Issues batch callId) :
    ∃ result ∈ after, result.answers = some callId := by
  obtain ⟨call, member, -⟩ := id issued
  obtain ⟨front, back, place, rfl⟩ := split_closed (List.ne_nil_of_mem member) log.events split
  by_cases missing : Open log.events callId
  · obtain ⟨result, made, answers⟩ := mem_closing issued missing
    exact ⟨result, List.mem_append_left _ made, answers⟩
  · simp only [Open, not_forall, not_not] at missing
    obtain ⟨result, resultIn, answers⟩ := missing
    obtain ⟨earlier, later, around⟩ := List.append_of_mem resultIn
    obtain ⟨issuer, issuerIn, issues⟩ := follows earlier result later around callId answers
    -- The result's call is issued by this batch only, so the result stands behind it.
    have mine : issuer = batch := once.same (by rw [around]; simp [issuerIn]) (by rw [place]; simp) issues issued
    obtain ⟨start, between, rfl⟩ := List.append_of_mem issuerIn
    rw [mine, List.append_assoc, List.cons_append] at around
    have same := (split_unique (log.distinct.of_map _) place around).2
    refine ⟨result, List.mem_append_right _ (List.mem_flatMap.mpr ⟨result, ?_, List.mem_cons_self ..⟩), answers⟩
    rw [same]
    simp

theorem closed_kept : ∀ event ∈ closedLog log, isForeign log.sessionId event = false := by
  intro event member
  obtain ⟨original, inside, here⟩ := List.mem_flatMap.mp member
  rcases List.mem_cons.mp here with rfl | made
  · exact log.kept event inside
  · rw [isForeign, (closing_spec made).2.1]
    simp

theorem closed_of_answered (kept : ∀ event ∈ events, isForeign sessionId event = false)
    (answered : ∀ event ∈ events, ∀ callId, Issues event callId → ¬Open events callId) :
    closeUnfinishedReplayToolCalls events sessionId = events := by
  obtain ⟨complete, same, unclosed⟩ := unclosed_eq kept
  unfold closeUnfinishedReplayToolCalls
  dsimp only
  rw [if_pos]
  rw [unclosed, List.filter_eq_nil_iff]
  intro state member
  obtain ⟨old, inside, rfl⟩ := List.mem_map.mp member
  rw [(same old).2.2.2]
  rcases findEvents_issued events .nothing old inside with wrong | issued
  · cases wrong
  · obtain ⟨event, eventIn, states⟩ := List.mem_flatMap.mp issued
    obtain ⟨call, callIn, rfl⟩ := List.mem_map.mp states
    exact answered event eventIn call.id ⟨call, callIn, rfl⟩

theorem closed_stable (once : CallsOnce log) (follows : Follows log) :
    closeUnfinishedReplayToolCalls (closedLog log) log.sessionId = closedLog log := by
  refine closed_of_answered closed_kept fun event member callId issued missing => ?_
  obtain ⟨before, after, split⟩ := List.append_of_mem member
  obtain ⟨result, later, answers⟩ := closed_answered once follows split issued
  exact missing result (by rw [split]; simp [later]) answers

theorem closed_untouched (answered : ¬Open log.events callId) :
    (closedLog log).filter (·.answers = some callId) = log.events.filter (·.answers = some callId) := by
  have silent (event : ReplayEvent) : (closing log event).filter (·.answers = some callId) = [] := by
    apply List.filter_eq_nil_iff.mpr
    intro result member
    obtain ⟨-, -, other, answers, -, missing⟩ := closing_spec member
    rw [answers, decide_eq_true_eq, Option.some.injEq]
    rintro rfl
    exact answered missing
  rw [closedLog, List.filter_flatMap]
  induction log.events with
  | nil => rfl
  | cons event events ih =>
    rw [List.flatMap_cons, ih, List.filter_cons, silent, List.filter_cons]
    split <;> rfl

/-- Each call that the log leaves open is closed once, directly after its batch; what the log
has answered stays as it is, and so does a log that has been closed. -/
theorem closes_replay (log : SessionLog) (once : CallsOnce log) (follows : Follows log) :
    Closes log (closeUnfinishedReplayToolCalls log.events log.sessionId) := by
  rw [closed_eq once]
  exact
    { inserted := rfl
      answered := fun _ _ _ split _ issued => closed_answered once follows split issued
      untouched := fun _ answered => closed_untouched answered
      stable := closed_stable once follows }

/-! A batch of two calls of which one is answered, after an event of another kind. -/

def call (id : String) : ModelToolCall := ⟨id, "Read", ""⟩

def batch : ReplayEvent := ⟨"e2", "t2", some "run", some "s", .assistantToolCalls [call "a", call "b"]⟩

def answer : ReplayEvent := ⟨"e3", "t3", some "run", some "s", .toolResult ⟨"a", "Read", "ok", false⟩⟩

def session : SessionLog where
  sessionId := "s"
  events := [⟨"e1", "t1", none, none, .other "run_started"⟩, batch, answer]
  ofSession event member id := by
    simp only [List.mem_cons, List.not_mem_nil, or_false] at member
    rintro own
    rcases member with rfl | rfl | rfl
    · cases own
    · exact (Option.some.inj own).symm
    · exact (Option.some.inj own).symm
  distinct := by decide

theorem session_follows : Follows session := by
  intro earlier result later split callId answers
  have places : result ∈ session.events := by rw [split]; simp
  simp only [session, List.mem_cons, List.not_mem_nil, or_false] at places
  rcases places with rfl | rfl | rfl
  · cases answers
  · cases answers
  · have parts : session.events = [⟨"e1", "t1", none, none, .other "run_started"⟩, batch] ++ answer :: [] := rfl
    obtain ⟨rfl, -⟩ := Occurrences.split_unique (session.distinct.of_map _) split parts
    cases answers
    exact ⟨batch, by simp, call "a", by simp [ReplayEvent.calls, batch], rfl⟩

theorem closes_replay_of_session : Closes session
    [⟨"e1", "t1", none, none, .other "run_started"⟩, batch, syntheticResult "s" batch (stateOf batch (call "b")), answer] := by
  have closed : closeUnfinishedReplayToolCalls session.events session.sessionId =
      [⟨"e1", "t1", none, none, .other "run_started"⟩, batch, syntheticResult "s" batch (stateOf batch (call "b")), answer] := by
    decide
  rw [← closed]
  exact closes_replay session (by unfold CallsOnce; decide) session_follows

end AgentSaas.Proofs.RuntimeReplay
