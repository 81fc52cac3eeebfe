import AgentSaas.AppServer.Events
import AgentSaas.Proofs.InterleavingSafety

/-! The state of an installation moves forward as long as nothing is committed over a state that
was not read. Otherwise a slow event brings the old state back. -/

namespace AgentSaas.Proofs.InstallationEvents
open AgentSaas.AppServer.Events Interleaving InterleavingSafety

variable {kind : StoreKind} {installationId : String} {events : RawEvent → Prop}

def Sent (installationId : String) (events : RawEvent → Prop) (event : PlatformEvent) : Prop :=
  ∃ raw, events raw ∧ assertShape installationId raw = .ok event

structure MovesForward (installationId : String) (events : RawEvent → Prop) (shared after : Shared) : Prop where
  version : shared.getState.stateVersion ≤ after.getState.stateVersion
  target : after.getState = shared.getState ∨
    after.getState.stateVersion = shared.getState.stateVersion + 1 ∧ ∃ event, Sent installationId events event ∧
      stateByType event.type = some after.getState.state ∧ event.stateVersion = after.getState.stateVersion
  deleted : shared.getState.state = .deleted → after.getState.state = .deleted

def OneAnswer (shared : Shared) : Prop :=
  ∀ answer ∈ shared.answered, ∀ other ∈ shared.answered, answer.1 = other.1 → answer.2 = other.2

/-- What a commit overwrites is what its call has read, or what it writes, and there is no other
answer to its event. -/
def UpToDate (shared : Shared) : Stage → Move → Prop
  | .committing _ _ _ _, .fail false => True
  | .committing event current state ack, _ =>
    (shared.getState = current ∨ shared.getState = state) ∧ ∀ stored ∈ shared.acks event.eventId, stored = ack
  | _, _ => True

def Answered (shared : Shared) : Prop := ∀ answer ∈ shared.answered, shared.acks answer.1 = some answer.2

def Asserted (installationId : String) (events : RawEvent → Prop) : Stage → Prop
  | .delivered raw => events raw
  | .reading event => Sent installationId events event
  | .working event current state => Sent installationId events event ∧ nextState event current = .ok state
  | .committing event current state ack =>
    Sent installationId events event ∧ nextState event current = .ok state ∧ ack.eventId = event.eventId

def Keeps (shared after : Shared) : Prop := ∀ eventId ack, shared.acks eventId = some ack → after.acks eventId = some ack

variable {shared after : Shared} {event : PlatformEvent} {current state : InstallationStateRecord} {ack : PlatformEventAck}

theorem nextState_cases (next : nextState event current = .ok state) :
    state = current ∨ current.state ≠ .deleted ∧ state.stateVersion = current.stateVersion + 1 ∧
      stateByType event.type = some state.state ∧ event.stateVersion = state.stateVersion := by
  unfold nextState at next
  split at next
  next =>
    cases next
    exact .inl rfl
  next target named =>
    split at next
    next =>
      cases next
      exact .inl rfl
    next alive =>
      split at next
      next =>
        cases next
        exact .inl rfl
      next newer =>
        split at next
        next => cases next
        next gapless =>
          cases next
          exact .inr ⟨alive, by dsimp only; omega, named, rfl⟩

theorem MovesForward.same (same : after.getState = shared.getState) : MovesForward installationId events shared after :=
  ⟨same ▸ Nat.le_refl _, .inl same, fun deleted => same ▸ deleted⟩

theorem commit_forward (sent : Sent installationId events event) (next : nextState event current = .ok state)
    (upToDate : shared.getState = current ∨ shared.getState = state) (same : after.getState = state) :
    MovesForward installationId events shared after := by
  obtain read | written := upToDate
  · obtain kept | ⟨alive, version, named, carried⟩ := nextState_cases next
    · apply MovesForward.same
      rw [same, kept, read]
    · constructor
      · rw [same, read, version]
        exact Nat.le_succ _
      · apply Or.inr
        rw [same, read]
        exact ⟨version, event, sent, named, carried⟩
      · intro deleted
        rw [read] at deleted
        exact (alive deleted).elim
  · apply MovesForward.same
    rw [same, written]

theorem commit_acks (own : ∀ stored ∈ shared.acks ack.eventId, stored = ack) :
    (shared.commit kind ack state).acks = Function.update shared.acks ack.eventId (some ack) := by
  cases kind with
  | memory => rfl
  | postgres =>
    simp only [Shared.commit]
    cases found : shared.acks ack.eventId with
    | none => rfl
    | some stored => rw [own stored found, Option.some_or]

theorem commit_keeps (own : ∀ stored ∈ shared.acks ack.eventId, stored = ack) :
    Keeps shared (shared.commit kind ack state) := by
  intro eventId stored found
  rw [commit_acks own]
  by_cases same : eventId = ack.eventId
  · subst same
    rw [Function.update_self, own stored found]
  · rw [Function.update_of_ne same, found]

theorem Answered.commit (valid : Answered shared) (own : ∀ stored ∈ shared.acks ack.eventId, stored = ack) :
    Answered (shared.commit kind ack state) :=
  fun answer member => commit_keeps own _ _ (valid answer member)

theorem Answered.answer (valid : Answered shared) {eventId : String} (stored : shared.acks eventId = some ack) :
    Answered (shared.answer ack eventId) := by
  intro answer member
  obtain old | added := List.mem_append.mp member
  · exact valid answer old
  · rw [List.mem_singleton.mp added]
    exact stored

theorem Answered.one (valid : Answered shared) : OneAnswer shared := by
  intro answer member other second same
  apply Option.some.inj
  rw [← valid answer member, ← valid other second, same]

def careful (kind : StoreKind) (installationId : String) (events : RawEvent → Prop) : System Shared Stage Move :=
  eventsHandler kind installationId events UpToDate

structure Effect (installationId : String) (events : RawEvent → Prop) (shared after : Shared) (rest : Option Stage) : Prop where
  forward : MovesForward installationId events shared after
  answered : Answered after
  keeps : Keeps shared after
  rest : ∀ next, rest = some next → Asserted installationId events next

theorem effect_still (valid : Answered shared) {rest : Option Stage}
    (asserted : ∀ next, rest = some next → Asserted installationId events next) :
    Effect installationId events shared shared rest :=
  ⟨.same rfl, valid, fun _ _ => id, asserted⟩

theorem effect_commit (valid : Answered shared) (asserted : Asserted installationId events (.committing event current state ack))
    (upToDate : shared.getState = current ∨ shared.getState = state) (own : ∀ stored ∈ shared.acks event.eventId, stored = ack) :
    Effect installationId events shared (shared.commit kind ack state) none := by
  obtain ⟨sent, next, same⟩ := asserted
  rw [← same] at own
  exact ⟨commit_forward sent next upToDate rfl, valid.commit own, commit_keeps own, fun _ left => by cases left⟩

theorem Effect.answer (effect : Effect installationId events shared after none) {eventId : String}
    (stored : after.acks eventId = some ack) : Effect installationId events shared (after.answer ack eventId) none :=
  ⟨⟨effect.forward.version, effect.forward.target, effect.forward.deleted⟩, effect.answered.answer stored, effect.keeps, effect.rest⟩

theorem advance_effect {call : Stage} {move : Move} {rest : Option Stage} (valid : Answered shared)
    (asserted : Asserted installationId events call) (upToDate : UpToDate shared call move)
    (moved : advance kind installationId shared call move = some (after, rest)) :
    Effect installationId events shared after rest := by
  have ended : Effect installationId events shared shared none := effect_still valid fun _ left => by cases left
  cases call with
  | delivered raw =>
    cases move with
    | next verified =>
      simp only [advance] at moved
      split at moved
      next =>
        cases moved
        exact ended
      next event shaped =>
        split at moved
        next ack found =>
          cases moved
          exact ended.answer found
        next =>
          cases moved
          apply effect_still valid
          intro next same
          cases same
          exact ⟨raw, asserted, shaped⟩
    | fail committed =>
      cases moved
      exact ended
  | reading event =>
    cases move with
    | next verified =>
      simp only [advance] at moved
      split at moved
      next =>
        cases moved
        exact ended
      next state found =>
        cases moved
        apply effect_still valid
        intro next same
        cases same
        exact ⟨asserted, found⟩
    | fail committed =>
      cases moved
      exact ended
  | working event current state =>
    cases move with
    | next verified =>
      simp only [advance] at moved
      split at moved
      next =>
        cases moved
        exact ended
      next verifiedKid _ =>
        cases moved
        apply effect_still valid
        intro next same
        cases same
        exact ⟨asserted.1, asserted.2, rfl⟩
    | fail committed =>
      cases moved
      exact ended
  | committing event current state ack =>
    cases move with
    | next verified =>
      cases moved
      apply (effect_commit valid asserted upToDate.1 upToDate.2).answer
      rw [commit_acks (asserted.2.2 ▸ upToDate.2), ← asserted.2.2, Function.update_self]
    | fail committed =>
      cases committed with
      | true =>
        cases moved
        exact effect_commit valid asserted upToDate.1 upToDate.2
      | false =>
        cases moved
        exact ended

theorem relies : Relies Answered (fun _ => Asserted installationId events) Keeps (careful kind installationId events) where
  refl _ _ _ := id
  trans first second eventId ack found := second eventId ack (first eventId ack found)
  mono asserted _ := asserted
  starts {_ call} _ started := by
    cases call with
    | delivered raw => exact started
    | _ => exact started.elim
  advances valid asserted upToDate moved := by
    have effect := advance_effect valid asserted upToDate moved
    exact ⟨effect.answered, effect.keeps, effect.rest⟩

/-- In a run whose commits are up to date, the state moves forward, and an event has one answer. -/
theorem moves_forward (kind : StoreKind) (installationId : String) (events : RawEvent → Prop)
    (record : Option InstallationStateRecord) (acks : String → Option PlatformEventAck) {world next : World Shared Stage}
    (run : Run (careful kind installationId events) ⟨⟨record, acks, []⟩, []⟩ world)
    (step : Step (careful kind installationId events) world next) :
    MovesForward installationId events world.shared next.shared ∧ OneAnswer next.shared := by
  have unanswered : Answered ⟨record, acks, []⟩ := fun answer member => (by cases member)
  have holds := relies.holds unanswered run
  constructor
  · refine holds.moves (fun shared => .same rfl) ?_ step
    exact fun valid asserted upToDate moved => (advance_effect valid asserted upToDate moved).forward
  · exact (holds.step relies.sound step).1.shared.one

def always (_ : RawEvent) : Prop := True

def atAnyTime : System Shared Stage Move := eventsHandler .postgres "i1" always fun _ _ _ => True

instance (shared : Shared) (call : Stage) (move : Move) : Decidable (UpToDate shared call move) := by
  unfold UpToDate
  split <;> infer_instance

instance (shared : Shared) (call : Stage) : Decidable (starts always shared call) := by
  unfold starts
  split
  · exact isTrue trivial
  · infer_instance

instance (shared : Shared) (call : Stage) : Decidable ((careful .postgres "i1" always).starts shared call) :=
  inferInstanceAs (Decidable (starts always shared call))

instance (shared : Shared) (call : Stage) (move : Move) : Decidable ((careful .postgres "i1" always).permits shared call move) :=
  inferInstanceAs (Decidable (UpToDate shared call move))

instance (shared : Shared) (call : Stage) : Decidable (atAnyTime.starts shared call) :=
  inferInstanceAs (Decidable (starts always shared call))

instance (shared : Shared) (call : Stage) (move : Move) : Decidable (atAnyTime.permits shared call move) := isTrue trivial

def disabling : Stage :=
  .delivered ⟨true, some "e2", some "i1", some 1, some "installation.disabled", none⟩

def rotating : Stage :=
  .delivered ⟨true, some "e1", some "i1", some 0, some "jwks.rotated", some ⟨some "k2", none, none, none⟩⟩

def goOn (index count : Nat) : List (Turn Stage Move) := List.replicate count (.advance index (.next true))

def start : World Shared Stage := ⟨⟨none, fun _ => none, []⟩, []⟩

def beforeDisabled : Option (World Shared Stage) := start.play (careful .postgres "i1" always) (.start disabling :: goOn 0 3)

/-- A rotation has read the state before the installation is disabled, and still waits for its keys. -/
def beforeRotated : Option (World Shared Stage) :=
  start.play atAnyTime (.start rotating :: goOn 0 2 ++ .start disabling :: goOn 1 4 ++ goOn 0 1)

theorem moves_forward_disabled : ∃ world next : World Shared Stage, Run (careful .postgres "i1" always) start world ∧
    Step (careful .postgres "i1" always) world next ∧ next.shared.record = some ⟨.disabled, 1⟩ ∧
      MovesForward "i1" always world.shared next.shared ∧ OneAnswer next.shared := by
  obtain ⟨world, played⟩ : ∃ world, beforeDisabled = some world := Option.isSome_iff_exists.mp (by decide +kernel)
  have run := World.run_of_play _ played
  obtain ⟨next, acted⟩ : ∃ next, world.act (careful .postgres "i1" always) (.advance 0 (.next true)) = some next := by
    cases played
    exact Option.isSome_iff_exists.mp (by decide +kernel)
  have step := World.step_of_act _ acted
  cases played
  cases acted
  exact ⟨_, _, run, step, rfl, moves_forward _ _ _ none (fun _ => none) run step⟩

theorem state_brought_back : ¬ ∀ (kind : StoreKind) (installationId : String) (events : RawEvent → Prop)
    (record : Option InstallationStateRecord) (acks : String → Option PlatformEventAck) (world next : World Shared Stage),
    Run (eventsHandler kind installationId events fun _ _ _ => True) ⟨⟨record, acks, []⟩, []⟩ world →
    Step (eventsHandler kind installationId events fun _ _ _ => True) world next →
    MovesForward installationId events world.shared next.shared ∧ OneAnswer next.shared := by
  intro forward
  obtain ⟨world, played⟩ : ∃ world, beforeRotated = some world := Option.isSome_iff_exists.mp (by decide +kernel)
  have run := World.run_of_play _ played
  obtain ⟨next, acted⟩ : ∃ next, world.act atAnyTime (.advance 0 (.next true)) = some next := by
    cases played
    exact Option.isSome_iff_exists.mp (by decide +kernel)
  have step := World.step_of_act _ acted
  cases played
  cases acted
  exact absurd (forward _ _ _ none (fun _ => none) _ _ run step).1.version (by decide)

end AgentSaas.Proofs.InstallationEvents
