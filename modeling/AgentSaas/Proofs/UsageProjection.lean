import AgentSaas.Billing.Projection
import AgentSaas.Proofs.InterleavingSafety

/-! When a drained projection is complete. A drain that joins a projection learns from it only
whether the cursor moved, and a projection that read its rows too early does not move it. -/

namespace AgentSaas.Proofs.UsageProjection
open AgentSaas.Billing.Projection Interleaving InterleavingSafety

/-- The events are not after the cursor. -/
def Covered (events : List RuntimeUsageEventRow) (cursor : Nat) : Prop := ∀ event ∈ events, event.globalSequence ≤ cursor

def reach (lastProjectedSequence : Nat) (rows : List RuntimeUsageEventRow) : Nat :=
  rows.foldl (fun last row => max last row.globalSequence) lastProjectedSequence

/-- The projection has still to read its rows, and from the cursor on, or it has read a row after the cursor. -/
def Gathers (cursor : Nat) : ProjectionStage → Prop
  | .starting limit | .listing limit _ => 0 < limit
  | .selecting limit _ state => 0 < limit ∧ cursor ≤ state
  | .projecting last _ rows _ => cursor < reach last rows
  | .storing last | .settled (some last) | .cleared (some last) => cursor < last
  | .settled none | .cleared none => True

/-- A drain that goes on joins only a projection that gathers, unless nothing was left when it started. -/
def JoinsInTime (shared : Shared) : Call → Prop
  | .drain drain =>
    match drain.stage with
    | .comparing previous _ current =>
      continues previous current = true → ∀ index ∈ shared.projectionInFlight drain.service,
        ∀ projection ∈ shared.projections[index]?, Covered drain.before current ∨ Gathers current projection.stage
    | _ => True
  | _ => True

def inTime : System Shared Call Answer := service fun shared call _ => JoinsInTime shared call

theorem le_reach (last : Nat) (rows : List RuntimeUsageEventRow) : last ≤ reach last rows := by
  induction rows generalizing last with
  | nil => exact Nat.le_refl _
  | cons row rest ih => exact Nat.le_trans (Nat.le_max_left ..) (ih _)

theorem row_le_reach {row : RuntimeUsageEventRow} {rows : List RuntimeUsageEventRow} (member : row ∈ rows) (last : Nat) :
    row.globalSequence ≤ reach last rows := by
  induction rows generalizing last with
  | nil => cases member
  | cons first rest ih =>
    cases List.mem_cons.mp member with
    | inl same => exact same ▸ Nat.le_trans (Nat.le_max_right ..) (le_reach ..)
    | inr later => exact ih later _

/-- A projection that reads from the cursor on finds a row whenever an event is left. -/
theorem listed_reaches {store : Store} {limit cursor : Nat} (room : 0 < limit) {events : List RuntimeUsageEventRow}
    (committed : events ⊆ store.events) (left : ¬Covered events cursor) (last : Nat) :
    cursor < reach last (store.listUnprojectedRuntimeEvents cursor limit) := by
  obtain ⟨event, member, beyond⟩ : ∃ event ∈ events, cursor < event.globalSequence := by
    simpa [Covered] using left
  have listed : event ∈ Cursors.after (·.globalSequence) cursor store.events :=
    Cursors.mem_after.mpr ⟨committed member, beyond⟩
  unfold Store.listUnprojectedRuntimeEvents
  cases rows : Cursors.after (·.globalSequence) cursor store.events with
  | nil =>
    rw [rows] at listed
    cases listed
  | cons first rest =>
    have above := (Cursors.mem_after.mp (rows ▸ List.mem_cons_self : first ∈ Cursors.after (·.globalSequence) cursor store.events)).2
    have taken : first ∈ (first :: rest).take limit := by
      obtain ⟨count, rfl⟩ := Nat.exists_eq_succ_of_ne_zero room.ne'
      exact List.mem_cons_self
    exact Nat.lt_of_lt_of_le above (row_le_reach taken last)

/-- What a drain may count on: nothing is left, the cursor has moved, or the projection will move it. -/
def Pays (store : Store) (before : List RuntimeUsageEventRow) (cursor : Nat) (stage : ProjectionStage) : Prop :=
  Covered before cursor ∨ cursor < store.projectionState ∨ Gathers cursor stage

def Behind (store : Store) : ProjectionStage → Prop
  | .listing _ last => last ≤ store.projectionState
  | .selecting _ last state => last ≤ store.projectionState ∧ state ≤ store.projectionState
  | .settled (some last) | .cleared (some last) => last ≤ store.projectionState
  | _ => True

structure Grows (before after : Store) : Prop where
  events : before.events ⊆ after.events
  cursor : before.projectionState ≤ after.projectionState

theorem Grows.refl (store : Store) : Grows store store := ⟨fun _ => id, Nat.le_refl _⟩

variable {store after : Store} {stage next : ProjectionStage} {before : List RuntimeUsageEventRow} {cursor : Nat}

theorem Behind.mono (behind : Behind store stage) (grows : Grows store after) : Behind after stage := by
  have := grows.cursor
  cases stage with
  | listing limit last => exact Nat.le_trans behind this
  | selecting limit last state => exact ⟨Nat.le_trans behind.1 this, Nat.le_trans behind.2 this⟩
  | settled result | cleared result =>
    cases result with
    | none => trivial
    | some last => exact Nat.le_trans behind this
  | _ => trivial

theorem Pays.mono (pays : Pays store before cursor stage) (grows : Grows store after) : Pays after before cursor stage := by
  obtain covered | moved | gathers := pays
  · exact .inl covered
  · exact .inr (.inl (Nat.lt_of_lt_of_le moved grows.cursor))
  · exact .inr (.inr gathers)

theorem projection_grows (moved : runRuntimeProjection store stage = some (after, next)) : Grows store after := by
  unfold runRuntimeProjection at moved
  split at moved <;> cases moved
  case h_7 => exact ⟨fun _ => id, Nat.le_max_left ..⟩
  all_goals exact ⟨fun _ => id, Nat.le_refl _⟩

theorem projection_behind (behind : Behind store stage) (moved : runRuntimeProjection store stage = some (after, next)) :
    Behind after next := by
  unfold runRuntimeProjection at moved
  split at moved <;> cases moved
  next => exact Nat.le_refl _
  next => exact ⟨behind, Nat.le_refl _⟩
  next => trivial
  next => trivial
  next => trivial
  next last settledRunKeys =>
    split
    next => trivial
    next none =>
      have zero : last = 0 := by omega
      exact zero ▸ Nat.zero_le _
  next => exact Nat.le_max_right ..
  next result => cases result <;> exact behind

/-- Between its reading and its storing a projection keeps what a drain counts on. -/
theorem projection_pays (committed : before ⊆ store.events) (reached : cursor ≤ store.projectionState)
    (behind : Behind store stage) (pays : Pays store before cursor stage)
    (moved : runRuntimeProjection store stage = some (after, next)) : Pays after before cursor next := by
  obtain covered | ahead | gathers := pays
  · exact .inl covered
  · exact .inr (.inl (Nat.lt_of_lt_of_le ahead (projection_grows moved).cursor))
  · unfold runRuntimeProjection at moved
    split at moved <;> cases moved
    next => exact .inr (.inr gathers)
    next => exact .inr (.inr ⟨gathers, reached⟩)
    next limit last state =>
      -- A projection that starts beyond the cursor shows that the cursor has moved.
      cases Nat.eq_or_lt_of_le gathers.2 with
      | inr beyond => exact .inr (.inl (Nat.lt_of_lt_of_le beyond behind.2))
      | inl same =>
        subst same
        by_cases covered : Covered before cursor
        · exact .inl covered
        · exact .inr (.inr (listed_reaches gathers.1 committed covered last))
    next => exact .inr (.inr gathers)
    next => exact .inr (.inr gathers)
    next last settledRunKeys =>
      have stored : cursor < last := gathers
      rw [if_pos (Nat.lt_of_le_of_lt (Nat.zero_le _) stored)]
      exact .inr (.inr stored)
    next last => exact .inr (.inl (Nat.lt_of_lt_of_le gathers (Nat.le_max_right ..)))
    next result => cases result <;> exact .inr (.inr gathers)

structure Valid (shared : Shared) : Prop where
  behind : ∀ (index : Nat) (projection), shared.projections[index]? = some projection → Behind shared.store projection.stage
  started : ∀ service index, shared.projectionInFlight service = some index → index < shared.projections.length

/-- The later state has all that the earlier one had, and its projections still pay. -/
structure Follows (shared later : Shared) : Prop where
  grows : Grows shared.store later.store
  pays : ∀ (index : Nat) (projection), shared.projections[index]? = some projection →
    ∃ after, later.projections[index]? = some after ∧ ∀ before cursor, before ⊆ shared.store.events →
      cursor ≤ shared.store.projectionState → Pays shared.store before cursor projection.stage →
        Pays later.store before cursor after.stage

variable {shared later : Shared}

theorem Grows.trans {first second third : Store} (early : Grows first second) (late : Grows second third) : Grows first third :=
  ⟨fun _ member => late.events (early.events member), Nat.le_trans early.cursor late.cursor⟩

theorem Follows.refl (shared : Shared) : Follows shared shared :=
  ⟨.refl _, fun _ projection found => ⟨projection, found, fun _ _ _ _ pays => pays⟩⟩

theorem Follows.trans {last : Shared} (early : Follows shared later) (late : Follows later last) : Follows shared last := by
  refine ⟨early.grows.trans late.grows, fun index projection found => ?_⟩
  obtain ⟨middle, present, first⟩ := early.pays index projection found
  obtain ⟨final, present, second⟩ := late.pays index middle present
  refine ⟨final, present, fun before cursor committed reached pays => ?_⟩
  exact second before cursor (fun _ member => early.grows.events (committed member)) (Nat.le_trans reached early.grows.cursor)
    (first before cursor committed reached pays)

theorem store_follows (after : Store) (valid : Valid shared) (grows : Grows shared.store after) :
    Valid { shared with store := after } ∧ Follows shared { shared with store := after } := by
  refine ⟨⟨fun index projection found => (valid.behind index projection found).mono grows, valid.started⟩, grows, ?_⟩
  intro index projection found
  exact ⟨projection, found, fun _ _ _ _ pays => pays.mono grows⟩

theorem project_follows (valid : Valid shared) (service limit : Nat) :
    Valid (shared.projectRuntimeEvents service limit).1 ∧ Follows shared (shared.projectRuntimeEvents service limit).1 := by
  unfold Shared.projectRuntimeEvents
  split
  next => exact ⟨valid, .refl _⟩
  next =>
    refine ⟨⟨fun index projection found => ?_, fun other index found => ?_⟩, .refl _, fun index projection found => ?_⟩
    · simp only [List.getElem?_append, List.getElem?_singleton] at found
      split at found
      next => exact valid.behind index projection found
      next =>
        split at found
        next =>
          cases found
          trivial
        next => cases found
    · dsimp only at found ⊢
      rw [List.length_append, List.length_singleton]
      by_cases same : other = service
      · subst same
        rw [Function.update_self] at found
        cases found
        exact Nat.lt_succ_self _
      · rw [Function.update_of_ne same] at found
        exact Nat.lt_succ_of_lt (valid.started other index found)
    · have inside := (List.getElem?_eq_some_iff.mp found).1
      exact ⟨projection, (List.getElem?_append_left inside).trans found, fun _ _ _ _ pays => pays⟩

theorem put_follows {index : Nat} {projection : RuntimeProjection} (next : RuntimeProjection) (after : Store)
    (valid : Valid shared) (found : shared.projections[index]? = some projection) (grows : Grows shared.store after) (behind : Behind after next.stage)
    (pays : ∀ before cursor, before ⊆ shared.store.events → cursor ≤ shared.store.projectionState →
      Pays shared.store before cursor projection.stage → Pays after before cursor next.stage) :
    Valid ({ shared with store := after }.put index next) ∧ Follows shared ({ shared with store := after }.put index next) := by
  have inside := (List.getElem?_eq_some_iff.mp found).1
  refine ⟨⟨fun other projection' found' => ?_, fun service other inFlight => ?_⟩, grows, fun other projection' found' => ?_⟩
  · simp only [Shared.put] at found'
    by_cases same : other = index
    · subst same
      rw [List.getElem?_set_self inside] at found'
      cases found'
      exact behind
    · rw [List.getElem?_set_ne (Ne.symm same)] at found'
      exact (valid.behind other projection' found').mono grows
  · simp only [Shared.put, List.length_set]
    exact valid.started service other inFlight
  · by_cases same : other = index
    · subst same
      cases found.symm.trans found'
      exact ⟨next, List.getElem?_set_self inside, pays⟩
    · exact ⟨projection', (List.getElem?_set_ne (Ne.symm same)).trans found', fun _ _ _ _ paid => paid.mono grows⟩

theorem forget_follows {index : Nat} {projection : RuntimeProjection} (valid : Valid later) (follows : Follows shared later) :
    Valid (later.forget index projection) ∧ Follows shared (later.forget index projection) := by
  unfold Shared.forget
  split
  next =>
    refine ⟨⟨valid.behind, fun service other found => ?_⟩, follows.grows, follows.pays⟩
    dsimp only at found
    by_cases same : service = projection.service
    · subst same
      rw [Function.update_self] at found
      cases found
    · rw [Function.update_of_ne same] at found
      exact valid.started service other found
  next => exact ⟨valid, follows⟩

theorem turn_follows {index : Nat} {answer : Answer} (valid : Valid shared) (moved : shared.turn index answer = some later) :
    Valid later ∧ Follows shared later := by
  obtain ⟨projection, found, moved⟩ := Option.bind_eq_some_iff.mp moved
  have behind := valid.behind index projection found
  cases answer with
  | rejected =>
    dsimp only at moved
    split at moved
    next =>
      cases moved
      exact put_follows _ shared.store valid found (.refl _) trivial fun _ _ _ _ _ => .inr (.inr trivial)
    next => cases moved
  | fulfilled =>
    obtain ⟨⟨store, stage⟩, ran, moved⟩ := Option.bind_eq_some_iff.mp moved
    obtain ⟨kept, follows⟩ := put_follows { projection with stage := stage } store valid found (projection_grows ran)
      (projection_behind behind ran) fun before cursor committed reached pays => projection_pays committed reached behind pays ran
    dsimp only at moved
    split at moved
    next =>
      cases moved
      exact forget_follows kept follows
    next =>
      cases moved
      exact ⟨kept, follows⟩

def Draining (shared : Shared) (before : List RuntimeUsageEventRow) : DrainStage → Prop
  | .reading none _ => True
  | .reading (some previous) _ =>
    previous ≤ shared.store.projectionState ∧ (Covered before previous ∨ previous < shared.store.projectionState)
  | .comparing previous _ current =>
    current ≤ shared.store.projectionState ∧
      ∀ last ∈ previous, last ≤ shared.store.projectionState ∧ (Covered before last ∨ last < current)
  | .waiting previous _ index =>
    previous ≤ shared.store.projectionState ∧ ∃ projection, shared.projections[index]? = some projection ∧
      Pays shared.store before previous projection.stage
  | .returned | .settled | .decided => Covered before shared.store.projectionState

def Asserted (shared : Shared) : Call → Prop
  | .drain drain => drain.before ⊆ shared.store.events ∧ Draining shared drain.before drain.stage
  | _ => True

theorem Covered.mono {events : List RuntimeUsageEventRow} {low high : Nat} (covered : Covered events low) (order : low ≤ high) :
    Covered events high :=
  fun event member => Nat.le_trans (covered event member) order

theorem Draining.mono {stage : DrainStage} (draining : Draining shared before stage) (committed : before ⊆ shared.store.events)
    (follows : Follows shared later) : Draining later before stage := by
  have moved := follows.grows.cursor
  cases stage with
  | reading previous batch =>
    cases previous with
    | none => trivial
    | some previous =>
      obtain ⟨reached, covered⟩ := draining
      exact ⟨Nat.le_trans reached moved, covered.imp_right fun ahead => Nat.lt_of_lt_of_le ahead moved⟩
  | comparing previous batch current =>
    exact ⟨Nat.le_trans draining.1 moved, fun last found => (draining.2 last found).imp_left fun reached => Nat.le_trans reached moved⟩
  | waiting previous batch index =>
    obtain ⟨reached, projection, found, pays⟩ := draining
    obtain ⟨after, present, keeps⟩ := follows.pays index projection found
    exact ⟨Nat.le_trans reached moved, after, present, keeps before previous committed reached pays⟩
  | returned | settled | decided => exact Covered.mono draining moved

theorem join_pays {service current : Nat} (valid : Valid shared)
    (inTime : ∀ index ∈ shared.projectionInFlight service, ∀ projection ∈ shared.projections[index]?,
      Covered before current ∨ Gathers current projection.stage) :
    ∃ projection, (shared.projectRuntimeEvents service drainLimit).1.projections[(shared.projectRuntimeEvents service drainLimit).2]? =
      some projection ∧ Pays (shared.projectRuntimeEvents service drainLimit).1.store before current projection.stage := by
  unfold Shared.projectRuntimeEvents
  split
  next index found =>
    have present := List.getElem?_eq_getElem (valid.started service index found)
    refine ⟨_, present, ?_⟩
    exact (inTime index found _ present).imp id .inr
  next =>
    refine ⟨⟨service, .starting drainLimit⟩, ?_, .inr (.inr ?_)⟩
    · simp
    · change 0 < drainLimit
      decide

theorem drain_follows {drain : Drain} {after : Shared} {rest : Option Drain} (valid : Valid shared)
    (asserted : Asserted shared (.drain drain)) (inTime : JoinsInTime shared (.drain drain))
    (moved : drainRuntimeProjection shared drain = some (after, rest)) :
    Valid after ∧ Follows shared after ∧ ∀ next, rest = some next → Asserted after (.drain next) := by
  obtain ⟨committed, draining⟩ := asserted
  unfold drainRuntimeProjection at moved
  split at moved
  next previous batch stage =>
    cases moved
    refine ⟨valid, .refl _, fun next same => ?_⟩
    cases same
    refine ⟨committed, Nat.le_refl _, fun last found => ?_⟩
    cases found
    rw [stage] at draining
    exact draining
  next previous batch current stage =>
    rw [stage] at draining
    simp only [JoinsInTime, stage] at inTime
    split at moved
    next goesOn =>
      split at moved
      next =>
        cases moved
        obtain ⟨kept, follows⟩ := project_follows valid drain.service drainLimit
        refine ⟨kept, follows, fun next same => ?_⟩
        cases same
        exact ⟨fun _ member => follows.grows.events (committed member), Nat.le_trans draining.1 follows.grows.cursor,
          join_pays valid (inTime goesOn)⟩
      next =>
        cases moved
        exact ⟨valid, .refl _, fun _ same => (by cases same)⟩
    next stops =>
      cases moved
      refine ⟨valid, .refl _, fun next same => ?_⟩
      cases same
      -- The cursor has not moved, so nothing was left.
      obtain ⟨last, present, order⟩ : ∃ last, previous = some last ∧ current ≤ last := by
        cases previous with
        | none => exact (stops rfl).elim
        | some last => exact ⟨last, rfl, by simpa [continues] using stops⟩
      obtain ⟨reached, covered | ahead⟩ := draining.2 last present
      · exact ⟨committed, covered.mono reached⟩
      · exact absurd ahead (Nat.not_lt.mpr order)
  next previous batch index stage =>
    rw [stage] at draining
    obtain ⟨reached, projection, found, pays⟩ := draining
    split at moved
    next service last cleared =>
      cases moved
      refine ⟨valid, .refl _, fun next same => ?_⟩
      cases same
      cases found.symm.trans cleared
      refine ⟨committed, reached, ?_⟩
      obtain covered | ahead | gathers := pays
      · exact .inl covered
      · exact .inr ahead
      · exact .inr (Nat.lt_of_lt_of_le gathers (valid.behind index _ cleared))
    next =>
      cases moved
      exact ⟨valid, .refl _, fun _ same => (by cases same)⟩
    next => cases moved
  next stage =>
    obtain ⟨run, present, same⟩ := Option.map_eq_some_iff.mp moved
    cases same
    obtain ⟨kept, follows⟩ := store_follows
      { shared.store with calls := shared.store.calls ++ [.settleRunDebit run.1 run.2] } valid ⟨fun _ => id, Nat.le_refl _⟩
    refine ⟨kept, follows, fun next same => ?_⟩
    cases same
    rw [stage] at draining
    exact ⟨committed, draining⟩
  next stage =>
    cases moved
    refine ⟨valid, .refl _, fun next same => ?_⟩
    cases same
    rw [stage] at draining
    exact ⟨committed, draining⟩
  next => cases moved

theorem advance_follows {call : Call} {answer : Answer} {after : Shared} {rest : Option Call} (valid : Valid shared)
    (asserted : Asserted shared call) (inTime : JoinsInTime shared call) (moved : advance shared call answer = some (after, rest)) :
    Valid after ∧ Follows shared after ∧ ∀ next, rest = some next → Asserted after next := by
  cases call with
  | append row =>
    cases moved
    obtain ⟨kept, follows⟩ := store_follows
      { shared.store with events := shared.store.events ++ [row] } valid ⟨List.subset_append_left .., Nat.le_refl _⟩
    exact ⟨kept, follows, fun _ same => (by cases same)⟩
  | project service limit =>
    cases moved
    obtain ⟨kept, follows⟩ := project_follows valid service limit
    exact ⟨kept, follows, fun _ same => (by cases same)⟩
  | turn projection =>
    obtain ⟨next, turned, same⟩ := Option.map_eq_some_iff.mp moved
    cases same
    obtain ⟨kept, follows⟩ := turn_follows valid turned
    exact ⟨kept, follows, fun _ same => (by cases same)⟩
  | drain drain =>
    cases answer with
    | rejected =>
      simp only [advance] at moved
      split at moved
      next =>
        cases moved
        exact ⟨valid, .refl _, fun _ same => (by cases same)⟩
      next => cases moved
    | fulfilled =>
      obtain ⟨⟨later, next⟩, drained, same⟩ := Option.map_eq_some_iff.mp moved
      cases same
      obtain ⟨kept, follows, continued⟩ := drain_follows valid asserted inTime drained
      refine ⟨kept, follows, fun call same => ?_⟩
      obtain ⟨drain, present, rfl⟩ := Option.map_eq_some_iff.mp same
      exact continued drain present

def outline : Outline Shared Call := ⟨Valid, Asserted, fun _ _ => True, Follows⟩

theorem Asserted.mono {call : Call} (asserted : Asserted shared call) (follows : Follows shared later) : Asserted later call := by
  cases call with
  | drain drain => exact ⟨fun _ member => follows.grows.events (asserted.1 member), asserted.2.mono asserted.1 follows⟩
  | _ => trivial

theorem starts_asserted {call : Call} (started : starts shared call) : Asserted shared call := by
  cases call with
  | drain drain =>
    simp only [starts] at started
    split at started
    next stage => exact ⟨fun _ member => started ▸ member, by simp only [stage, Draining]⟩
    next => cases started
  | _ => trivial

theorem outline_sound : outline.Sound inTime where
  refl := .refl
  trans := .trans
  symm _ := trivial
  starts _ started := ⟨starts_asserted started, fun _ _ => trivial⟩
  advances valid asserted permitted moved := by
    obtain ⟨kept, follows, continued⟩ := advance_follows valid asserted permitted moved
    exact ⟨kept, follows, fun next same => ⟨continued next same, fun _ _ _ => trivial⟩⟩
  stable valid asserted permitted moved other _ := other.mono (advance_follows valid asserted permitted moved).2.1

theorem initial_valid (events : List RuntimeUsageEventRow) (projectionState : Nat) : Valid (.initial events projectionState) :=
  ⟨fun _ _ found => (by cases found), fun _ _ found => (by cases found)⟩

/-- The drain has returned; `authorizeRun` goes on from there. -/
def hasReturned : DrainStage → Bool
  | .returned | .settled | .decided => true
  | _ => false

/-- Whatever was committed before a drain that has returned is projected. -/
def Complete (world : World Shared Call) : Prop :=
  ∀ (index : Nat) (drain : Drain), world.calls[index]? = some (some (.drain drain)) → hasReturned drain.stage = true →
    Covered drain.before world.shared.store.projectionState

/-- As long as every drain joins in time, a drain that returns has projected all that was
committed before it started, and so a run is authorized on all of that. -/
theorem drained_complete (events : List RuntimeUsageEventRow) (projectionState : Nat) {world : World Shared Call}
    (run : Run inTime ⟨.initial events projectionState, []⟩ world) : Complete world := by
  obtain ⟨holds, -⟩ := (Outline.Holds.start (initial_valid events projectionState)).run outline_sound run
  intro index drain found returned
  obtain ⟨-, draining⟩ := holds.call found
  cases stage : drain.stage with
  | returned | settled | decided =>
    rw [stage] at draining
    exact draining
  | _ =>
    rw [stage] at returned
    cases returned

/-! One event, and a drain that joins a projection before or after it has read its rows. -/

instance (events : List RuntimeUsageEventRow) (cursor : Nat) : Decidable (Covered events cursor) :=
  inferInstanceAs (Decidable (∀ event ∈ events, event.globalSequence ≤ cursor))

instance (cursor : Nat) (stage : ProjectionStage) : Decidable (Gathers cursor stage) := by
  unfold Gathers
  split <;> infer_instance

instance (shared : Shared) (drain : Drain) (stage : DrainStage) :
    Decidable (match stage with
      | .comparing previous _ current =>
        continues previous current = true → ∀ index ∈ shared.projectionInFlight drain.service,
          ∀ projection ∈ shared.projections[index]?, Covered drain.before current ∨ Gathers current projection.stage
      | _ => True) :=
  match stage with
  | .comparing previous _ current =>
    inferInstanceAs (Decidable (continues previous current = true →
      ∀ index ∈ shared.projectionInFlight drain.service, ∀ projection ∈ shared.projections[index]?,
        Covered drain.before current ∨ Gathers current projection.stage))
  | .reading .. | .waiting .. | .returned | .settled | .decided => isTrue trivial

instance (shared : Shared) (call : Call) : Decidable (JoinsInTime shared call) :=
  match call with
  | .drain drain =>
    inferInstanceAs (Decidable (match drain.stage with
      | .comparing previous _ current =>
        continues previous current = true → ∀ index ∈ shared.projectionInFlight drain.service,
          ∀ projection ∈ shared.projections[index]?, Covered drain.before current ∨ Gathers current projection.stage
      | _ => True))
  | .append .. | .project .. | .turn .. => isTrue trivial

instance (shared : Shared) (call : Call) : Decidable (inTime.starts shared call) :=
  inferInstanceAs (Decidable (starts shared call))

instance (shared : Shared) (call : Call) (answer : Answer) : Decidable (inTime.permits shared call answer) :=
  inferInstanceAs (Decidable (JoinsInTime shared call))

def atAnyTime : System Shared Call Answer := service fun _ _ _ => True

instance (shared : Shared) (call : Call) : Decidable (atAnyTime.starts shared call) :=
  inferInstanceAs (Decidable (starts shared call))

instance (shared : Shared) (call : Call) (answer : Answer) : Decidable (atAnyTime.permits shared call answer) := isTrue trivial

def finished : RuntimeUsageEventRow where
  globalSequence := 1
  eventId := "e1"
  eventType := "run_finished"
  tenantId := "acme"
  type := some "run_finished"
  status := none
  runId := some "r1"
  usage := false
  diagnostic := none
  holdKey := none
  billingChargeKey := none

def authorizing : Call := .drain ⟨0, some ("acme", "r2"), [finished], .reading none 0⟩

/-- A call that starts and takes one step. -/
def once (index : Nat) (call : Call) : List (Turn Call Answer) := [.start call, .advance index .fulfilled]

/-- Some turns of a projection, each a call of its own. -/
def turns (first projection count : Nat) : List (Turn Call Answer) :=
  (List.range count).flatMap fun turn => once (first + turn) (.turn projection)

def goOn (index count : Nat) : List (Turn Call Answer) := List.replicate count (.advance index .fulfilled)

def start : World Shared Call := ⟨.initial [] 0, []⟩

def joinedEarly : Option (World Shared Call) :=
  start.play inTime <|
    once 0 (.append finished) ++ once 1 (.project 0 500) ++ [.start authorizing] ++ goOn 2 2 ++ turns 3 0 8 ++
      goOn 2 3 ++ turns 11 1 6 ++ goOn 2 5

def joinedLate : Option (World Shared Call) :=
  start.play atAnyTime <|
    once 0 (.project 0 500) ++ turns 1 0 3 ++ once 4 (.append finished) ++ [.start authorizing] ++ goOn 5 2 ++ turns 6 0 2 ++
      goOn 5 5

theorem drained_complete_early : ∃ world : World Shared Call, Run inTime start world ∧
    (∃ drain, world.calls[2]? = some (some (.drain drain)) ∧ hasReturned drain.stage = true ∧ drain.before = [finished]) ∧
      Complete world := by
  obtain ⟨world, played⟩ : ∃ world, joinedEarly = some world := Option.isSome_iff_exists.mp (by decide +kernel)
  have run : Run inTime start world := World.run_of_play _ played
  refine ⟨world, run, ?_, drained_complete [] 0 run⟩
  cases played
  exact ⟨_, rfl, rfl, rfl⟩

/-- The cursor stays where it was, so the drain returns before the event is projected. -/
theorem event_uncounted : ¬ ∀ (events : List RuntimeUsageEventRow) (projectionState : Nat) (world : World Shared Call),
    Run atAnyTime ⟨.initial events projectionState, []⟩ world → Complete world := by
  intro complete
  obtain ⟨world, played⟩ : ∃ world, joinedLate = some world := Option.isSome_iff_exists.mp (by decide +kernel)
  have run : Run atAnyTime start world := World.run_of_play _ played
  have counted := complete [] 0 world run 5
  cases played
  exact absurd (counted _ rfl rfl finished (by decide)) (by decide +kernel)

end AgentSaas.Proofs.UsageProjection
