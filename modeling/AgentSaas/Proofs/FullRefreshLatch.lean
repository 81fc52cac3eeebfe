import AgentSaas.Proofs.SyncRecovery

/-! The full-refresh latch: which frames break it, and that nothing else does. -/

namespace AgentSaas.Proofs.FullRefreshLatch
open AgentSaas.SyncRecovery AgentSaas.Proofs.SyncRecovery

variable {ω π : Type} {views : Projections ω π} {state next : SyncRecoveryState ω π}

/-- The phase and the request for a refresh go together. -/
def Latched (state : SyncRecoveryState ω π) : Prop := state.phase = .fullRefresh ↔ state.fullRefresh.isSome

/-- What may end a full refresh: its completion, a reset, another overflow, or a server
that the client has not met. -/
def mayClear (state : SyncRecoveryState ω π) : SyncRecoveryAction ω → Bool
  | .fullRefreshComplete | .reset _ _ | .syncOverflow _ _ => true
  | action => adopts state action.epoch

def Held (state : SyncRecoveryState ω π) (action : SyncRecoveryAction ω) (next : SyncRecoveryState ω π) : Prop :=
  state.phase = .fullRefresh → mayClear state action = false →
    next.phase = .fullRefresh ∧ next.fullRefresh = state.fullRefresh

/-- The batch has every number up to `last`, and not the one after it. -/
def Reaches (base last : Int) (events : List (AppliedSyncEvent ω)) : Prop :=
  base ≤ last ∧ (∀ seq, base < seq → seq ≤ last → seq ∈ events.map (·.seq)) ∧ last + 1 ∉ events.map (·.seq)

/-- Frames that come during a full refresh and leave the latch whole: no event or batch of
the same server that the cursor would accept, and after a restart nothing but what brings
the cursor up to date. -/
def Spares (state : SyncRecoveryState ω π) (action : SyncRecoveryAction ω) : Prop :=
  state.phase = .fullRefresh →
    match action with
    | .fullRefreshComplete | .reset _ _ | .syncOverflow _ _ => True
    | .pong _ epoch => adopts state epoch = false
    | .event seq epoch _ =>
      if adopts state epoch then seq = 1 else retired state epoch = true ∨ seq ≠ state.lastSeq + 1
    | .syncOk seq epoch events =>
      if adopts state epoch then Reaches 0 seq events
      else retired state epoch = true ∨ ¬Reaches state.lastSeq seq events

theorem applySorted_reaches (views : Projections ω π) {events : List (AppliedSyncEvent ω)}
    (sorted : events.Pairwise fun left right => left.seq ≤ right.seq) (state : SyncRecoveryState ω π) :
    Reaches state.lastSeq (applySorted views state events).lastSeq events := by
  induction events generalizing state with
  | nil => exact ⟨Int.le_refl _, fun seq after last => by simp only [applySorted] at last; omega, by simp⟩
  | cons candidate rest ih =>
    obtain ⟨first, sorted⟩ := List.pairwise_cons.mp sorted
    simp only [applySorted]
    split
    next stale =>
      obtain ⟨low, every, gap⟩ := ih sorted state
      refine ⟨low, fun seq after last => List.mem_cons_of_mem _ (every seq after last), fun member => ?_⟩
      cases List.mem_cons.mp member with
      | inl same =>
        have same : (applySorted views state rest).lastSeq + 1 = candidate.seq := same
        omega
      | inr member => exact gap member
    next fresh =>
      split
      next later =>
        refine ⟨Int.le_refl _, fun seq after last => by omega, fun member => ?_⟩
        cases List.mem_cons.mp member with
        | inl same => exact later same.symm
        | inr member =>
          obtain ⟨other, present, same⟩ := List.mem_map.mp member
          have above : candidate.seq ≤ other.seq := first other present
          have same : other.seq = state.lastSeq + 1 := same
          omega
      next following =>
        have following : candidate.seq = state.lastSeq + 1 := by simpa using following
        obtain ⟨low, every, gap⟩ := ih sorted { projectEvent views state candidate with lastSeq := candidate.seq }
        refine ⟨by simp only at low; omega, fun seq after last => ?_, fun member => ?_⟩
        · by_cases here : seq = candidate.seq
          · exact here ▸ List.mem_cons_self ..
          · exact List.mem_cons_of_mem _ (every seq (by simp only; omega) last)
        · cases List.mem_cons.mp member with
          | inl same =>
            have same : _ + 1 = candidate.seq := same
            simp only at low
            omega
          | inr member => exact gap member

theorem Reaches.unique {base last other : Int} {events : List (AppliedSyncEvent ω)} (first : Reaches base last events)
    (second : Reaches base other events) : last = other := by
  obtain ⟨low, every, gap⟩ := first
  obtain ⟨low', every', gap'⟩ := second
  rcases Int.lt_trichotomy last other with below | same | above
  · exact absurd (every' (last + 1) (by omega) (by omega)) gap
  · exact same
  · exact absurd (every (other + 1) (by omega) (by omega)) gap'

theorem applyContiguous_lastSeq_iff (views : Projections ω π) (state : SyncRecoveryState ω π) (seq : Int)
    (events : List (AppliedSyncEvent ω)) :
    (applyContiguous views state events).lastSeq = seq ↔ Reaches state.lastSeq seq events := by
  let order := fun left right : AppliedSyncEvent ω => left.seq ≤ right.seq
  have total : Std.Total order := ⟨fun left right => Int.le_total left.seq right.seq⟩
  have trans : IsTrans _ order := ⟨fun _ _ _ => Int.le_trans⟩
  have same : ∀ last, Reaches state.lastSeq last (events.insertionSort order) ↔ Reaches state.lastSeq last events := by
    intro last
    have perm := (events.perm_insertionSort order).map (·.seq)
    simp only [Reaches, perm.mem_iff]
  have reached := (same _).mp (applySorted_reaches views (events.pairwise_insertionSort order) state)
  exact ⟨fun here => here ▸ reached, fun other => reached.unique other⟩

theorem applySorted_latch (views : Projections ω π) (events : List (AppliedSyncEvent ω)) (state : SyncRecoveryState ω π) :
    (applySorted views state events).phase = state.phase ∧
      (applySorted views state events).fullRefresh = state.fullRefresh := by
  induction events generalizing state with
  | nil => exact ⟨rfl, rfl⟩
  | cons candidate rest ih =>
    simp only [applySorted]
    split
    · exact ih state
    split
    · exact ⟨rfl, rfl⟩
    · exact ih _

theorem applyContiguous_latch (views : Projections ω π) (state : SyncRecoveryState ω π)
    (events : List (AppliedSyncEvent ω)) :
    (applyContiguous views state events).phase = state.phase ∧
      (applyContiguous views state events).fullRefresh = state.fullRefresh :=
  applySorted_latch views _ state

theorem requestSync_latch (state : SyncRecoveryState ω π) (reason : SyncReason) :
    (requestSync state reason).phase = (if state.phase = .fullRefresh then .fullRefresh else .syncing) ∧
      (requestSync state reason).fullRefresh = state.fullRefresh := by
  simp only [requestSync]
  split
  next full => exact ⟨full, rfl⟩
  next => split <;> exact ⟨rfl, rfl⟩

theorem adoptEpoch_unlatched (views : Projections ω π) {state : SyncRecoveryState ω π} {epoch : Option String} (changed : (adoptEpoch views state epoch).changed = true) :
    (adoptEpoch views state epoch).state.fullRefresh = none := by
  simp only [adoptEpoch] at changed ⊢
  split at changed
  next => cases changed
  next name named =>
    split at changed
    next => cases changed
    next other =>
      split at changed
      next => cases changed
      next unknown => simp [other, unknown, clearedProjections]

/-! One frame, after the epoch is settled. -/

theorem latched_iff_of_phase (phase : next.phase ≠ .fullRefresh) : Latched next ↔ next.fullRefresh = none := by
  simp [Latched, phase]

theorem latched_iff_of_full (phase : next.phase = .fullRefresh) : Latched next ↔ next.fullRefresh.isSome := by
  simp [Latched, phase]

theorem requestSync_latched (reason : SyncReason) (latched : Latched state) : Latched (requestSync state reason) := by
  obtain ⟨phase, request⟩ := requestSync_latch state reason
  by_cases full : state.phase = .fullRefresh
  · rw [if_pos full] at phase
    rw [latched_iff_of_full phase, request]
    exact latched.mp full
  · rw [if_neg full] at phase
    rw [latched_iff_of_phase (by rw [phase]; decide), request]
    exact (latched_iff_of_phase full).mp latched

theorem reduceEvent_latched (changed : Bool) (seq : Int) (event : ω) (phase : state.phase ≠ .fullRefresh)
    (latched : Latched state) : Latched (reduceEvent views state changed seq event) := by
  simp only [reduceEvent]
  split
  · exact latched
  split
  · exact requestSync_latched _ latched
  · have empty := (latched_iff_of_phase phase).mp latched
    refine (latched_iff_of_phase ?_).mpr ((applyContiguous_latch views state [⟨seq, event⟩]).2.trans empty)
    split <;> simp

theorem reduceBatch_latched (changed : Bool) (seq : Int) (events : List (AppliedSyncEvent ω)) (latched : Latched state) :
    Latched (reduceBatch views state changed seq events) := by
  obtain ⟨phase, request⟩ := applyContiguous_latch views state events
  have applied : Latched (applyContiguous views state events) := by simpa only [Latched, phase, request] using latched
  simp only [reduceBatch]
  split
  · exact (latched_iff_of_phase (by simp)).mpr rfl
  split
  · exact (latched_iff_of_phase (by simp)).mpr rfl
  split
  · exact requestSync_latched _ applied
  · exact requestSync_latched _ applied

theorem requestSync_full (reason : SyncReason) (full : state.phase = .fullRefresh) : requestSync state reason = state := by
  rw [requestSync, if_pos full]

theorem reduceEvent_full (views : Projections ω π) (changed : Bool) (seq : Int) (event : ω) (full : state.phase = .fullRefresh) :
    let next := reduceEvent views state changed seq event
    next.fullRefresh = state.fullRefresh ∧ (next.phase = .fullRefresh ↔ seq ≠ state.lastSeq + 1) := by
  simp only [reduceEvent]
  split
  next stale => exact ⟨rfl, fun _ => by omega, fun _ => full⟩
  split
  next gap =>
    rw [requestSync_full _ full]
    exact ⟨rfl, fun _ => gap, fun _ => full⟩
  next following =>
    refine ⟨(applyContiguous_latch views state [⟨seq, event⟩]).2, ?_⟩
    simp [full, following]

theorem reduceBatch_full (views : Projections ω π) (changed : Bool) (seq : Int) (events : List (AppliedSyncEvent ω))
    (full : state.phase = .fullRefresh) :
    let next := reduceBatch views state changed seq events
    (Reaches state.lastSeq seq events → next.phase = .ready ∧ next.fullRefresh = none) ∧
      (¬Reaches state.lastSeq seq events → next.phase = .fullRefresh ∧ next.fullRefresh = state.fullRefresh) := by
  obtain ⟨phase, request⟩ := applyContiguous_latch views state events
  have reached := applyContiguous_lastSeq_iff views state seq events
  simp only [reduceBatch, full, reduceCtorEq, false_and, if_false]
  refine ⟨fun reaches => ?_, fun short => ?_⟩
  · rw [if_pos (reached.mpr reaches)]
    exact ⟨rfl, rfl⟩
  · rw [if_neg fun here => short (reached.mp here)]
    have kept := phase.trans full
    split <;> rw [requestSync_full _ kept] <;> exact ⟨kept, request⟩

theorem reducePong_latched (changed : Bool) (seq : Option Int) (latched : Latched state) :
    Latched (reducePong state changed seq) := by
  simp only [reducePong]
  split
  · exact requestSync_latched _ latched
  split
  · exact requestSync_latched _ latched
  · exact latched

theorem reducePong_full (changed : Bool) (seq : Option Int) (full : state.phase = .fullRefresh) :
    reducePong state changed seq = state := by
  simp only [reducePong, requestSync_full _ full]
  split <;> simp

theorem reduceOverflow_latched (state : SyncRecoveryState ω π) (seq : Int) : Latched (reduceOverflow views state seq) := by
  simp [Latched, reduceOverflow, clearedProjections]

/-- The state in which a frame meets the reducer, and whether its server is new. -/
theorem adopted_state (views : Projections ω π) (valid : Valid state) (action : SyncRecoveryAction ω) :
    let epoch := adoptEpoch views (withoutApplied state) action.epoch
    epoch.oldServer = retired state action.epoch ∧ epoch.changed = adopts state action.epoch ∧
      (epoch.oldServer = true → epoch.changed = false) ∧ epoch.state.phase = state.phase ∧
      (epoch.changed = true → epoch.state.fullRefresh = none ∧ epoch.state.lastSeq = 0) ∧
      (epoch.changed = false → epoch.state.fullRefresh = state.fullRefresh ∧ epoch.state.lastSeq = state.lastSeq) := by
  have adoption := adoptEpoch_cases views (withoutApplied_valid valid) action.epoch
  have unlatched : (adoptEpoch views (withoutApplied state) action.epoch).changed = true → _ :=
    adoptEpoch_unlatched views
  generalize adoptEpoch views (withoutApplied state) action.epoch = adopted at adoption unlatched
  cases adoption with
  | current adopted known => exact ⟨known.symm, adopted.symm, fun _ => rfl, rfl, nofun, fun _ => ⟨rfl, rfl⟩⟩
  | old adopted known => exact ⟨known.symm, adopted.symm, fun _ => rfl, rfl, nofun, fun _ => ⟨rfl, rfl⟩⟩
  | fresh adopted known zero clean phase =>
    exact ⟨known.symm, adopted.symm, nofun, phase, fun _ => ⟨unlatched rfl, zero⟩, nofun⟩

theorem reduce_latched (valid : Valid state) (latched : Latched state) (phase : state.phase ≠ .fullRefresh)
    (action : SyncRecoveryAction ω) : Latched (reduceSyncRecovery views state action) := by
  have empty := (latched_iff_of_phase phase).mp latched
  obtain ⟨_, _, _, same, fresh, current⟩ := adopted_state views valid action
  generalize outcome : adoptEpoch views (withoutApplied state) action.epoch = epoch at same fresh current
  have phase' : epoch.state.phase ≠ .fullRefresh := same ▸ phase
  have adopted : Latched epoch.state := by
    rw [latched_iff_of_phase phase']
    cases changed : epoch.changed with
    | true => exact (fresh changed).1
    | false => exact (current changed).1.trans empty
  cases action with
  | reset => exact (latched_iff_of_phase (by simp [reduceSyncRecovery, createSyncRecoveryState])).mpr rfl
  | fullRefreshComplete =>
    rw [reduceSyncRecovery, if_pos phase]
    exact latched
  | pong =>
    simp only [reduceSyncRecovery, outcome]
    split
    · exact adopted
    · exact reducePong_latched _ _ adopted
  | event =>
    simp only [reduceSyncRecovery, outcome]
    split
    · exact adopted
    · exact reduceEvent_latched _ _ _ phase' adopted
  | syncOk =>
    simp only [reduceSyncRecovery, outcome]
    split
    · exact adopted
    · exact reduceBatch_latched _ _ _ adopted
  | syncOverflow =>
    simp only [reduceSyncRecovery, outcome]
    split
    · exact adopted
    · exact reduceOverflow_latched _ _

theorem reduce_full_iff (valid : Valid state) (latched : Latched state) (full : state.phase = .fullRefresh)
    (action : SyncRecoveryAction ω) :
    (Latched (reduceSyncRecovery views state action) ∧ Held state action (reduceSyncRecovery views state action)) ↔
      Spares state action := by
  have pending := (latched_iff_of_full full).mp latched
  obtain ⟨old, adopted, kept, same, fresh, current⟩ := adopted_state views valid action
  generalize outcome : adoptEpoch views (withoutApplied state) action.epoch = epoch at old adopted kept same fresh current
  have full' : epoch.state.phase = .fullRefresh := same.trans full
  -- A new server clears the request and leaves the phase.
  have base : Latched epoch.state ↔ epoch.changed = false := by
    rw [latched_iff_of_full full']
    cases changed : epoch.changed with
    | true => simp [(fresh changed).1]
    | false => simpa [(current changed).1] using pending
  have still (next : SyncRecoveryState ω π) (phase : next.phase = .fullRefresh)
      (request : next.fullRefresh = epoch.state.fullRefresh) (plain : mayClear state action = adopts state action.epoch) :
      Latched next ∧ Held state action next ↔ adopts state action.epoch = false := by
    have latch : Latched next ↔ Latched epoch.state := by
      rw [latched_iff_of_full phase, latched_iff_of_full full', request]
    rw [latch, base, adopted]
    refine ⟨fun both => both.1, fun known => ⟨known, fun _ _ => ⟨phase, request.trans ?_⟩⟩⟩
    exact (current (adopted.trans known)).1
  cases action with
  | reset lastSeq serverEpoch =>
    have after : Latched (createSyncRecoveryState views lastSeq serverEpoch) :=
      (latched_iff_of_phase (by simp [createSyncRecoveryState])).mpr rfl
    exact ⟨fun _ _ => trivial, fun _ => ⟨after, fun _ wrong => by cases wrong⟩⟩
  | fullRefreshComplete =>
    have after : Latched (reduceSyncRecovery views state .fullRefreshComplete) := by
      simp [reduceSyncRecovery, full, Latched]
    exact ⟨fun _ _ => trivial, fun _ => ⟨after, fun _ wrong => by cases wrong⟩⟩
  | syncOverflow seq name =>
    have after : Latched (reduceSyncRecovery views state (.syncOverflow seq name)) := by
      simp only [reduceSyncRecovery, outcome]
      split
      next dropped => exact base.mpr (kept dropped)
      next => exact reduceOverflow_latched _ _
    exact ⟨fun _ _ => trivial, fun _ => ⟨after, fun _ wrong => by cases wrong⟩⟩
  | pong seq name =>
    have after : reduceSyncRecovery views state (.pong seq name) = epoch.state := by
      simp only [reduceSyncRecovery, outcome, reducePong_full _ _ full', ite_self]
    rw [after, still _ full' rfl rfl]
    simp [Spares, full, SyncRecoveryAction.epoch]
  | event seq name event =>
    simp only [SyncRecoveryAction.epoch] at old adopted
    obtain ⟨request, phase⟩ := reduceEvent_full views epoch.changed seq event full'
    simp only [reduceSyncRecovery, outcome]
    cases dropped : epoch.oldServer with
    | true =>
      have known : adopts state name = false := adopted.symm.trans (kept dropped)
      rw [if_pos rfl, still _ full' rfl rfl]
      simp [Spares, full, SyncRecoveryAction.epoch, known, ← old, dropped]
    | false =>
      rw [if_neg (by simp)]
      by_cases following : seq = epoch.state.lastSeq + 1
      · have elsewhere : (reduceEvent views epoch.state epoch.changed seq event).phase ≠ .fullRefresh :=
          fun wrong => phase.mp wrong following
        rw [latched_iff_of_phase elsewhere, request]
        cases changed : epoch.changed with
        | true =>
          have known : adopts state name = true := adopted.symm.trans changed
          simp [Spares, Held, mayClear, full, SyncRecoveryAction.epoch, known, (fresh changed).1, following, (fresh changed).2]
        | false =>
          have known : adopts state name = false := adopted.symm.trans changed
          have some : state.fullRefresh ≠ none := Option.isSome_iff_ne_none.mp pending
          simp [Spares, full, known, (current changed).1, (current changed).2, following, ← old, dropped, some]
      · rw [still _ (phase.mpr following) request rfl]
        cases changed : epoch.changed with
        | true =>
          have known : adopts state name = true := adopted.symm.trans changed
          rw [(fresh changed).2] at following
          simp [Spares, full, SyncRecoveryAction.epoch, known]
          omega
        | false =>
          have known : adopts state name = false := adopted.symm.trans changed
          rw [(current changed).2] at following
          simp [Spares, full, SyncRecoveryAction.epoch, known, following]
  | syncOk seq name events =>
    simp only [SyncRecoveryAction.epoch] at old adopted
    obtain ⟨reached, short⟩ := reduceBatch_full views epoch.changed seq events full'
    simp only [reduceSyncRecovery, outcome]
    cases dropped : epoch.oldServer with
    | true =>
      have known : adopts state name = false := adopted.symm.trans (kept dropped)
      rw [if_pos rfl, still _ full' rfl rfl]
      simp [Spares, full, SyncRecoveryAction.epoch, known, ← old, dropped]
    | false =>
      rw [if_neg (by simp)]
      by_cases reaches : Reaches epoch.state.lastSeq seq events
      · obtain ⟨phase, request⟩ := reached reaches
        rw [latched_iff_of_phase (by rw [phase]; simp)]
        cases changed : epoch.changed with
        | true =>
          have known : adopts state name = true := adopted.symm.trans changed
          rw [(fresh changed).2] at reaches
          simp [Spares, Held, mayClear, full, SyncRecoveryAction.epoch, known, ← changed, request, reaches]
        | false =>
          have known : adopts state name = false := adopted.symm.trans changed
          rw [(current changed).2] at reaches
          simp [Spares, Held, mayClear, full, SyncRecoveryAction.epoch, known, ← changed, phase, reaches, ← old, dropped]
      · obtain ⟨phase, request⟩ := short reaches
        rw [still _ phase request rfl]
        cases changed : epoch.changed with
        | true =>
          have known : adopts state name = true := adopted.symm.trans changed
          rw [(fresh changed).2] at reaches
          simp [Spares, full, SyncRecoveryAction.epoch, known, reaches]
        | false =>
          have known : adopts state name = false := adopted.symm.trans changed
          rw [(current changed).2] at reaches
          simp [Spares, full, SyncRecoveryAction.epoch, known, reaches]

theorem reduce_iff_spares (views : Projections ω π) (valid : Valid state) (latched : Latched state)
    (action : SyncRecoveryAction ω) :
    (Latched (reduceSyncRecovery views state action) ∧ Held state action (reduceSyncRecovery views state action)) ↔
      Spares state action := by
  by_cases full : state.phase = .fullRefresh
  · exact reduce_full_iff valid latched full action
  · exact ⟨fun _ wrong => absurd wrong full, fun _ =>
      ⟨reduce_latched valid latched full action, fun wrong => absurd wrong full⟩⟩

/-- Every frame spares the latch that it meets. -/
def AllSpare (views : Projections ω π) (state : SyncRecoveryState ω π) : List (SyncRecoveryAction ω) → Prop
  | [] => True
  | action :: rest => Spares state action ∧ AllSpare views (reduceSyncRecovery views state action) rest

theorem latched_of_allSpare (views : Projections ω π) (actions : List (SyncRecoveryAction ω)) (valid : Valid state)
    (latched : Latched state) (spare : AllSpare views state actions) :
    Valid (actions.foldl (reduceSyncRecovery views) state) ∧ Latched (actions.foldl (reduceSyncRecovery views) state) := by
  induction actions generalizing state with
  | nil => exact ⟨valid, latched⟩
  | cons action rest ih =>
    have kept := ((reduce_iff_spares views valid latched action).mpr spare.1).1
    exact ih (reduceSyncRecovery_counted views valid action).2 kept spare.2

/-- While every frame spares the latch, phase and request stay together; and the next frame
keeps both, the latch included, if and only if it spares it too. -/
theorem latch_kept_iff_spared (views : Projections ω π) (lastSeq : Option Int) (serverEpoch : Option String)
    (actions : List (SyncRecoveryAction ω))
    (spare : AllSpare views (createSyncRecoveryState views lastSeq serverEpoch) actions) :
    let state := actions.foldl (reduceSyncRecovery views) (createSyncRecoveryState views lastSeq serverEpoch)
    Latched state ∧ ∀ action : SyncRecoveryAction ω,
      (Latched (reduceSyncRecovery views state action) ∧ Held state action (reduceSyncRecovery views state action)) ↔
        Spares state action := by
  have created : Latched (createSyncRecoveryState (ω := ω) views lastSeq serverEpoch) :=
    (latched_iff_of_phase (by simp [createSyncRecoveryState])).mpr rfl
  obtain ⟨valid, latched⟩ := latched_of_allSpare views actions (created_valid lastSeq serverEpoch) created spare
  exact ⟨latched, fun action => reduce_iff_spares views valid latched action⟩

def plain : Projections Unit Unit := ⟨(), fun _ _ => ()⟩

/-- A pong comes during a full refresh. -/
theorem latch_kept_during_pong :
    let state := [.syncOverflow 99 (some "e1"), .pong (some 120) (some "e1")].foldl (reduceSyncRecovery plain)
      (createSyncRecoveryState plain none (some "e1"))
    state.phase = .fullRefresh ∧ Latched state := by
  refine ⟨by decide, (latch_kept_iff_spared plain none (some "e1") _ ?_).1⟩
  refine ⟨fun wrong => by simp [createSyncRecoveryState] at wrong, fun _ => ?_, trivial⟩
  decide

/-- A live event that follows the overflow at once, and a pong of a restarted server. -/
theorem latch_broken :
    let overflowed := reduceSyncRecovery plain (createSyncRecoveryState plain none (some "e1")) (.syncOverflow 99 (some "e1"))
    let live := reduceSyncRecovery plain overflowed (.event 100 (some "e1") ())
    let restarted := reduceSyncRecovery plain overflowed (.pong none (some "e2"))
    (Latched overflowed ∧ overflowed.phase = .fullRefresh) ∧
      (¬Latched live ∧ ¬Held overflowed (.event 100 (some "e1") ()) live) ∧ ¬Latched restarted := by
  unfold Latched Held
  decide

end AgentSaas.Proofs.FullRefreshLatch
