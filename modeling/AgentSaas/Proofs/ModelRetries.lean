import AgentSaas.ChatCompletions.Stream

/-! Output across the attempts of a model request. What a retried attempt has shown is taken back or
was never shown, so the output that remains is that of the last attempt. -/

namespace AgentSaas.Proofs.ModelRetries
open AgentSaas.ChatCompletions
open ToolCallRepair (Text units)

section
variable {Usage Call : Type} {mode : ModelOutputTransactionMode} {delays : List Int}

/-- What a reader has of the text and the thinking that was shown before. -/
def shown (seen : List Delta) : ModelEvent Usage Call → List Delta
  | .draftReset _ => []
  | .completed _ => seen
  | .delta delta => seen ++ [delta]

def remaining (events : List (ModelEvent Usage Call)) : List Delta := events.foldl shown []

theorem shown_deltas (seen deltas : List Delta) :
    (deltas.map (ModelEvent.delta : Delta → ModelEvent Usage Call)).foldl shown seen = seen ++ deltas := by
  induction deltas generalizing seen with
  | nil => exact (List.append_nil seen).symm
  | cons delta deltas ih =>
    rw [List.map_cons, List.foldl_cons, ih, shown, List.append_assoc]
    rfl

/-- What an attempt streams: deltas, and behind them its completion or an error. -/
structure Streams (streamed : Streamed Usage Call) (deltas : List Delta) (completion : Option (Completed Usage Call)) : Prop where
  events : streamed.events = deltas.map .delta ++ completion.toList.map .completed
  thrown : streamed.thrown = none ↔ completion.isSome
  silent : streamed.startedRecorded = false → deltas = []

theorem streamAttempt_streams (attempt : Attempt Usage Call) : ∃ deltas completion, Streams (streamAttempt attempt) deltas completion := by
  have failing (streamed : Streamed Usage Call) (deltas : List Delta) (error : Thrown Usage) (events : streamed.events = deltas.map .delta)
      (threw : streamed.thrown = some error) (silent : streamed.startedRecorded = false → deltas = []) :
      ∃ deltas completion, Streams streamed deltas completion := by
    refine ⟨deltas, none, events.trans (List.append_nil _).symm, ?_, silent⟩
    rw [threw]
    exact ⟨fun wrong => (by cases wrong), fun wrong => (by cases wrong)⟩
  cases attempt with
  | unrecorded error => exact failing _ [] error rfl rfl fun _ => rfl
  | unsent error => exact failing _ [] error rfl rfl fun _ => rfl
  | rejected => exact failing _ [] _ rfl rfl fun _ => rfl
  | interrupted deltas held usage error => exact failing _ _ _ rfl rfl fun wrong => (by cases wrong)
  | leaked deltas usage => exact failing _ _ _ rfl rfl fun wrong => (by cases wrong)
  | unterminated deltas held usage => exact failing _ _ _ rfl rfl fun wrong => (by cases wrong)
  | finished deltas held completion => exact ⟨_, some completion, rfl, ⟨fun _ => rfl, fun _ => rfl⟩, fun wrong => (by cases wrong)⟩

def passedBy (mode : ModelOutputTransactionMode) (deltas : List Delta) (completion : Option (Completed Usage Call)) : Passed Usage Call :=
  if mode = .terminalBuffered then ⟨[], deltas, completion, false⟩ else ⟨deltas.map .delta, [], completion, !deltas.isEmpty⟩

theorem pass_deltas (passed : Passed Usage Call) (deltas : List Delta) :
    (deltas.map .delta).foldl (pass mode) passed =
      if mode = .terminalBuffered then { passed with bufferedOutput := passed.bufferedOutput ++ deltas }
      else { passed with yielded := passed.yielded ++ deltas.map .delta, hasDeliveredOutput := passed.hasDeliveredOutput || !deltas.isEmpty } := by
  induction deltas generalizing passed with
  | nil => simp
  | cons delta deltas ih =>
    rw [List.map_cons, List.foldl_cons, ih, ChatCompletions.pass]
    split
    next => simp
    next => simp

theorem passed_eq {streamed : Streamed Usage Call} {deltas : List Delta} {completion : Option (Completed Usage Call)}
    (streams : Streams streamed deltas completion) :
    streamed.events.foldl (pass mode) ⟨[], [], none, false⟩ = passedBy mode deltas completion := by
  rw [streams.events, List.foldl_append, pass_deltas, passedBy]
  cases completion with
  | none => split <;> rfl
  | some completion => split <;> rfl

/-- What the catch block does. It goes on only when there is a delay left, and when output that was
delivered is taken back. -/
structure Catches (mode : ModelOutputTransactionMode) (delays : List Int) (index attempt : Nat) (delivered : Bool)
    (result : TurnResult Usage Call) : Prop where
  fails : ∀ completion, result.ending ≠ some (.completed completion)
  resets : result.events = [] ∨ result.events = [.draftReset attempt] ∧ mode = .replaceableDraft
  retries : result.ending = none → index < delays.length ∧
    (delivered = true → mode ≠ .irreversibleStream ∧ (mode = .replaceableDraft → result.events = [.draftReset attempt]))

theorem retryDelay_some {index : Nat} {aborted delivered : Bool} {error : Thrown Usage} {delay : Int}
    (found : retryDelay mode delays index aborted delivered error = some delay) :
    index < delays.length ∧ (delivered = true → mode ≠ .irreversibleStream) := by
  rw [retryDelay] at found
  split at found
  next allowed =>
    rw [Bool.and_eq_true] at allowed
    refine ⟨(List.getElem?_eq_some_iff.mp found).1, fun shown irreversible => ?_⟩
    rw [shown, irreversible] at allowed
    exact absurd allowed.2 (by decide)
  next => cases found

theorem failed_catches (index attempt : Nat) (delivered : Bool) (turn : Turn Usage Call) (error : Thrown Usage) :
    Catches mode delays index attempt delivered (failed mode delays index attempt delivered turn error) := by
  have ended (diagnostics : List (Diagnostic Usage)) (thrown : Thrown Usage) :
      Catches mode delays index attempt delivered (⟨[], diagnostics, some (.threw thrown)⟩ : TurnResult Usage Call) :=
    ⟨fun _ wrong => (by cases wrong), .inl rfl, fun wrong => (by cases wrong)⟩
  rw [failed]
  split
  next => exact ended _ _
  next kept =>
    split
    next => exact ended _ _
    next =>
      split
      next => exact ended _ _
      next delay found =>
        obtain ⟨room, safe⟩ := retryDelay_some found
        refine ⟨fun completion wrong => ?_, ?_, fun _ => ⟨room, fun shown => ⟨safe shown, fun draft => ?_⟩⟩⟩
        · dsimp only at wrong
          split at wrong <;> cases wrong
        · dsimp only
          split
          next both =>
            rw [Bool.and_eq_true] at both
            exact .inr ⟨rfl, eq_of_beq both.2⟩
          next => exact .inl rfl
        · rw [shown, draft]
          rfl

structure TurnSound (mode : ModelOutputTransactionMode) (delays : List Int) (index : Nat) (attempt : Attempt Usage Call)
    (result : TurnResult Usage Call) : Prop where
  completed : ∀ completion, result.ending = some (.completed completion) →
    ∃ deltas : List Delta, result.events = deltas.map .delta ++ [.completed completion] ∧ (streamAttempt attempt).events = result.events
  uncompleted : (∀ completion, result.ending ≠ some (.completed completion)) → (∀ completion, .completed completion ∉ result.events) ∧
    (mode = .terminalBuffered → result.events = [])
  kept : mode = .irreversibleStream → ∀ attempt, .draftReset attempt ∉ result.events
  retried : result.ending = none → index < delays.length ∧ remaining result.events = [] ∧ (mode = .irreversibleStream → result.events = [])

theorem caught_sound {index attempt : Nat} {deltas : List Delta} {completion : Option (Completed Usage Call)}
    {result : TurnResult Usage Call} (source : Attempt Usage Call) (diagnostics : List (Diagnostic Usage))
    (catches : Catches mode delays index attempt (passedBy mode deltas completion).hasDeliveredOutput result) :
    TurnSound mode delays index source
      ⟨(passedBy mode deltas completion).yielded ++ result.events, diagnostics ++ result.diagnostics, result.ending⟩ := by
  constructor
  · intro completion ended
    exact (catches.fails completion ended).elim
  · intro _
    constructor
    · intro completion member
      rcases List.mem_append.mp member with yielded | later
      · rw [passedBy] at yielded
        split at yielded
        next => cases yielded
        next =>
          obtain ⟨_, _, same⟩ := List.mem_map.mp yielded
          cases same
      · rcases catches.resets with none | ⟨reset, _⟩
        · rw [none] at later
          cases later
        · rw [reset, List.mem_singleton] at later
          cases later
    · intro buffered
      rw [passedBy, if_pos buffered]
      rcases catches.resets with none | ⟨_, draft⟩
      · exact none
      · rw [buffered] at draft
        cases draft
  · intro irreversible other member
    rcases List.mem_append.mp member with yielded | later
    · rw [passedBy] at yielded
      split at yielded
      next => cases yielded
      next =>
        obtain ⟨_, _, same⟩ := List.mem_map.mp yielded
        cases same
    · rcases catches.resets with none | ⟨_, draft⟩
      · rw [none] at later
        cases later
      · rw [irreversible] at draft
        cases draft
  · intro again
    obtain ⟨room, safe⟩ := catches.retries again
    refine ⟨room, ?_⟩
    by_cases buffered : mode = .terminalBuffered
    · have silent : result.events = [] := by
        rcases catches.resets with none | ⟨_, draft⟩
        · exact none
        · rw [buffered] at draft
          cases draft
      rw [passedBy, if_pos buffered, silent]
      exact ⟨rfl, fun _ => rfl⟩
    · rw [passedBy, if_neg buffered] at safe ⊢
      cases deltas with
      | nil =>
        rcases catches.resets with none | ⟨reset, draft⟩
        · rw [none]
          exact ⟨rfl, fun _ => rfl⟩
        · rw [reset]
          refine ⟨rfl, fun irreversible => ?_⟩
          rw [irreversible] at draft
          cases draft
      | cons delta deltas =>
        obtain ⟨reversible, taken⟩ := safe rfl
        have draft : mode = .replaceableDraft := by
          cases mode with
          | replaceableDraft => rfl
          | terminalBuffered => exact (buffered rfl).elim
          | irreversibleStream => exact (reversible rfl).elim
        rw [taken draft]
        refine ⟨?_, fun irreversible => (reversible irreversible).elim⟩
        rw [remaining, List.foldl_append]
        rfl

theorem attemptTurn_sound (index attempt : Nat) (turn : Turn Usage Call) :
    TurnSound mode delays index turn.attempt (attemptTurn mode delays index attempt turn) := by
  obtain ⟨deltas, completion, streams⟩ := streamAttempt_streams turn.attempt
  have caught (diagnostics : List (Diagnostic Usage)) (error : Thrown Usage) :
      TurnSound mode delays index turn.attempt
        (if (streamAttempt turn.attempt).startedRecorded then
          ⟨(passedBy mode deltas completion).yielded ++
              (failed mode delays index attempt (passedBy mode deltas completion).hasDeliveredOutput turn error).events,
            diagnostics ++ (failed mode delays index attempt (passedBy mode deltas completion).hasDeliveredOutput turn error).diagnostics,
            (failed mode delays index attempt (passedBy mode deltas completion).hasDeliveredOutput turn error).ending⟩
        else ⟨(passedBy mode deltas completion).yielded, diagnostics, some (.threw error)⟩) := by
    split
    next => exact caught_sound _ diagnostics (failed_catches index attempt _ turn error)
    next =>
      have quiet : Catches mode delays index attempt (passedBy mode deltas completion).hasDeliveredOutput
          (⟨[], [], some (.threw error)⟩ : TurnResult Usage Call) :=
        ⟨fun _ wrong => (by cases wrong), .inl rfl, fun wrong => (by cases wrong)⟩
      have sound := caught_sound turn.attempt diagnostics quiet
      rw [List.append_nil, List.append_nil] at sound
      exact sound
  rw [attemptTurn]
  simp only [passed_eq streams]
  split
  next error _ => exact caught [] _
  next => exact caught [] _
  next done none completed =>
    have whole : completion = some done := by
      rw [← completed, passedBy]
      split <;> rfl
    split
    next => exact caught _ _
    next =>
      have events : (passedBy mode deltas completion).yielded ++ (passedBy mode deltas completion).bufferedOutput.map .delta ++
          [.completed done] = (streamAttempt turn.attempt).events := by
        rw [streams.events, whole, passedBy]
        split
        next => rfl
        next => rw [List.map_nil, List.append_nil]; rfl
      rw [events]
      refine ⟨fun completion same => ?_, fun unfinished => (unfinished done rfl).elim, fun _ other member => ?_, fun wrong => (by cases wrong)⟩
      · cases same
        refine ⟨deltas, ?_, rfl⟩
        rw [streams.events, whole]
        rfl
      · dsimp only at member
        rw [streams.events, whole, List.mem_append] at member
        rcases member with delta | done
        · obtain ⟨_, _, same⟩ := List.mem_map.mp delta
          cases same
        · rw [Option.toList_some, List.map_singleton, List.mem_singleton] at done
          cases done

/-- What a call yields that may try so many times again. -/
structure Orderly (mode : ModelOutputTransactionMode) (retries : Nat) (turns : List (Turn Usage Call)) (run : Run Usage Call) : Prop where
  /-- What is left of the output is that of the last attempt. -/
  last : ∀ completion, run.ending = some (.completed completion) → ∃ turn, (turns.take run.turns.length).getLast? = some turn ∧
    (streamAttempt turn.attempt).events = (remaining run.events).map .delta ++ [.completed completion]
  /-- There is one completion at most, and nothing behind it. -/
  once : ∀ before completion after, run.events = before ++ .completed completion :: after →
    after = [] ∧ run.ending = some (.completed completion)
  irreversible : mode = .irreversibleStream → (∀ attempt, .draftReset attempt ∉ run.events) ∧
    ∀ (index : Nat) (result : TurnResult Usage Call), run.turns[index]? = some result → result.events ≠ [] → index + 1 = run.turns.length
  buffered : mode = .terminalBuffered → ∀ result ∈ run.turns, (∀ completion, result.ending ≠ some (.completed completion)) → result.events = []
  bounded : run.turns.length ≤ retries + 1

theorem uncompleted_front {events later before after : List (ModelEvent Usage Call)} {completion : Completed Usage Call}
    (absent : ∀ completion, .completed completion ∉ events) (same : events ++ later = before ++ .completed completion :: after) :
    ∃ middle, later = middle ++ .completed completion :: after := by
  rcases List.append_eq_append_iff.mp same with ⟨middle, front, back⟩ | ⟨middle, front, back⟩
  · exact ⟨middle, back⟩
  · cases middle with
    | nil =>
      rw [List.nil_append] at back
      exact ⟨[], back.symm⟩
    | cons event middle =>
      rw [List.cons_append] at back
      cases back
      refine (absent completion ?_).elim
      rw [front]
      exact List.mem_append_right before List.mem_cons_self

theorem orderly_stopped {retries : Nat} {turn : Turn Usage Call} {later : List (Turn Usage Call)} {index : Nat}
    {result : TurnResult Usage Call} {ending : Ending Usage Call} (sound : TurnSound mode delays index turn.attempt result)
    (ended : result.ending = some ending) : Orderly mode retries (turn :: later) ⟨[result], some ending⟩ := by
  have events : (⟨[result], some ending⟩ : Run Usage Call).events = result.events := List.append_nil _
  constructor
  · intro completion same
    obtain ⟨deltas, yielded, streamed⟩ := sound.completed completion (ended.trans same)
    refine ⟨turn, rfl, ?_⟩
    rw [streamed, events, yielded, remaining, List.foldl_append, shown_deltas]
    rfl
  · intro before completion after same
    rw [events] at same
    cases ending with
    | threw error =>
      have absent := (sound.uncompleted fun completion wrong => by rw [ended] at wrong; cases wrong).1
      refine (absent completion ?_).elim
      rw [same]
      exact List.mem_append_right before List.mem_cons_self
    | completed done =>
      obtain ⟨deltas, yielded, _⟩ := sound.completed done ended
      rw [yielded] at same
      have quiet : ∀ completion, ModelEvent.completed completion ∉ deltas.map (ModelEvent.delta : Delta → ModelEvent Usage Call) := by
        intro other member
        obtain ⟨_, _, wrong⟩ := List.mem_map.mp member
        cases wrong
      obtain ⟨middle, rest⟩ := uncompleted_front quiet same
      cases middle with
      | nil =>
        cases rest
        exact ⟨rfl, rfl⟩
      | cons event middle =>
        rw [List.cons_append, List.cons.injEq] at rest
        exact absurd rest.2.symm (List.append_ne_nil_of_right_ne_nil _ (List.cons_ne_nil _ _))
  · intro irreversible
    rw [events]
    refine ⟨sound.kept irreversible, fun place other found _ => ?_⟩
    have inside := (List.getElem?_eq_some_iff.mp found).1
    rw [List.length_singleton] at inside ⊢
    omega
  · intro buffered other member unfinished
    rw [List.mem_singleton] at member
    rw [member] at unfinished ⊢
    exact (sound.uncompleted unfinished).2 buffered
  · rw [List.length_singleton]
    omega

theorem orderly_again {turn : Turn Usage Call} {later : List (Turn Usage Call)} {index : Nat}
    {result : TurnResult Usage Call} {rest : Run Usage Call} (sound : TurnSound mode delays index turn.attempt result)
    (again : result.ending = none) (orderly : Orderly mode (delays.length - (index + 1)) later rest) :
    Orderly mode (delays.length - index) (turn :: later) ⟨result :: rest.turns, rest.ending⟩ := by
  obtain ⟨room, gone, silent⟩ := sound.retried again
  have unfinished : ∀ completion, result.ending ≠ some (.completed completion) := by
    rw [again]
    exact fun _ wrong => by cases wrong
  have events : (⟨result :: rest.turns, rest.ending⟩ : Run Usage Call).events = result.events ++ rest.events := List.flatMap_cons
  constructor
  · intro completion ended
    obtain ⟨last, place, streamed⟩ := orderly.last completion ended
    refine ⟨last, ?_, ?_⟩
    · rw [List.length_cons, List.take_succ_cons, List.getLast?_cons, place]
      rfl
    · rw [streamed, events, remaining, remaining, List.foldl_append]
      rw [remaining] at gone
      rw [gone]
  · intro before completion after same
    rw [events] at same
    obtain ⟨middle, split⟩ := uncompleted_front (sound.uncompleted unfinished).1 same
    exact orderly.once middle completion after split
  · intro irreversible
    obtain ⟨kept, alone⟩ := orderly.irreversible irreversible
    rw [events, silent irreversible, List.nil_append]
    refine ⟨kept, fun place other found filled => ?_⟩
    cases place with
    | zero =>
      cases found
      exact (filled (silent irreversible)).elim
    | succ place => exact congrArg (· + 1) (alone place other found filled)
  · intro buffered other member failing
    rcases List.mem_cons.mp member with rfl | inside
    · exact (sound.uncompleted unfinished).2 buffered
    · exact orderly.buffered buffered other inside failing
  · have bounded := orderly.bounded
    rw [List.length_cons]
    omega

theorem streamFrom_orderly (index attempt : Nat) (turns : List (Turn Usage Call)) :
    Orderly mode (delays.length - index) turns (streamFrom mode delays index attempt turns) := by
  induction turns generalizing index attempt with
  | nil =>
    refine ⟨fun _ wrong => (by cases wrong), fun before _ _ same => ?_, fun _ => ⟨fun _ wrong => (by cases wrong), fun _ _ wrong => ?_⟩,
      fun _ _ wrong => ?_, Nat.zero_le _⟩
    · exact absurd same.symm (List.append_ne_nil_of_right_ne_nil _ (List.cons_ne_nil _ _))
    · cases wrong
    · cases wrong
  | cons turn later ih =>
    have sound : TurnSound mode delays index turn.attempt (attemptTurn mode delays index (attempt + 1) turn) :=
      attemptTurn_sound index (attempt + 1) turn
    rw [streamFrom]
    split
    next ending ended => exact orderly_stopped sound ended
    next again => exact orderly_again sound again (ih (index + 1) (attempt + 1))

/-- A retry neither repeats nor leaks output: when a call completes, what a reader is left with is the
output of its last attempt. -/
theorem stream_orderly (mode : ModelOutputTransactionMode) (delays : List Int) (turns : List (Turn Usage Call)) :
    Orderly mode delays.length turns (stream mode delays turns) :=
  streamFrom_orderly 0 0 turns

end

end AgentSaas.Proofs.ModelRetries
