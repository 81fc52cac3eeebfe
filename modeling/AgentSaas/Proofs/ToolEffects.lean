import AgentSaas.Proofs.TransactionSafety
import AgentSaas.Runs.ToolInvocations
import Mathlib.Data.List.Induction
import Mathlib.Data.List.Nodup

/-! A tool's side effect starts at most once, and only after a claim that was committed while
its run was going on. Once a run is cancelled, its late invocations are marked for ever. -/

namespace AgentSaas.Proofs.ToolEffects
open AgentSaas.ToolInvocations Transactions TransactionSafety
open AgentSaas.Runs (Json Metadata RowUpdate Run RunStatus StatusOperation UpsertRunInput pendingRun stopSteeringTarget timeText)

def IsClaimed (row : Invocation) : Prop := (row.metadata "invokeClaimedAt").isSome = true

/-- What was committed after the cancellation of its run has a cancel request. -/
def Marked (row : Invocation) : Prop :=
  row.startedLate = true ∨ row.completedLate = true → row.cancelRequestedAt.isSome = true

structure Continues (before after : Invocation) : Prop where
  runId : after.runId = before.runId
  claimed : IsClaimed before → IsClaimed after
  cancelled : before.cancelRequestedAt.isSome = true → after.cancelRequestedAt.isSome = true
  marked : Marked before → Marked after

theorem Continues.refl (row : Invocation) : Continues row row := ⟨rfl, id, id, id⟩

theorem Continues.trans {first second third : Invocation} (early : Continues first second) (late : Continues second third) :
    Continues first third :=
  ⟨late.runId.trans early.runId, late.claimed ∘ early.claimed, late.cancelled ∘ early.cancelled, late.marked ∘ early.marked⟩

/-- The committed claim finds the invocation running and not cancelled, and its run going on. The
lease of an expected worker is that of the time when it was checked. -/
structure Authorized (claim : Claim) (db : Database) : Prop where
  committed : claim ∈ db.claims
  invocation : ∃ row, db.invocations.row claim.invocationId = some row ∧ row.runId = claim.runId ∧ row.status = .running ∧
    row.cancelRequestedAt = none
  run : ∃ run, db.runs.row claim.runId = some run ∧ run.status.isTerminal = false ∧
    ∀ worker, claim.expectedWorkerId.filter (· ≠ "") = some worker →
      run.status = .running ∧ run.workerId = some worker ∧ ∃ expires, run.leaseExpiresAt = some expires ∧ claim.checkedAt < expires
  checked : claim.checkedAt ≤ db.clock

structure Valid (db : Database) : Prop where
  marked : ∀ id row, db.invocations.row id = some row → Marked row
  claimed : ∀ claim ∈ db.claims, ∃ row, db.invocations.row claim.invocationId = some row ∧ IsClaimed row
  once : (db.claims.map (·.invocationId)).Nodup

def RunGoesOn (before after : Option Run) : Prop :=
  ∀ run, before = some run → ∃ later, after = some later ∧ (run.status.isTerminal = true → later.status = run.status)

def RowGoesOn (before after : Option Invocation) : Prop :=
  ∀ row, before = some row → ∃ later, after = some later ∧ Continues row later

structure Grows (before after : Database) : Prop where
  runs : ∀ id, RunGoesOn (before.runs.row id) (after.runs.row id)
  invocations : ∀ id, RowGoesOn (before.invocations.row id) (after.invocations.row id)
  claims : before.claims ⊆ after.claims
  clock : before.clock ≤ after.clock

def Keeps : Lock → Database → Database → Prop
  | .run runId, before, after => after.runs.row runId = before.runs.row runId
  | .share runId _, before, after => (after.runs.row runId).map leaseColumns = (before.runs.row runId).map leaseColumns
  | .invocation invocationId, before, after => after.invocations.row invocationId = before.invocations.row invocationId

theorem RunGoesOn.refl (run : Option Run) : RunGoesOn run run := fun row found => ⟨row, found, fun _ => rfl⟩

theorem RunGoesOn.trans {first second third : Option Run} (early : RunGoesOn first second) (late : RunGoesOn second third) :
    RunGoesOn first third := by
  intro run found
  obtain ⟨middle, present, same⟩ := early run found
  obtain ⟨last, present, still⟩ := late middle present
  refine ⟨last, present, fun terminal => ?_⟩
  have stays := same terminal
  exact (still (stays ▸ terminal)).trans stays

theorem RowGoesOn.refl (row : Option Invocation) : RowGoesOn row row := fun row found => ⟨row, found, .refl row⟩

theorem RowGoesOn.trans {first second third : Option Invocation} (early : RowGoesOn first second)
    (late : RowGoesOn second third) : RowGoesOn first third := by
  intro row found
  obtain ⟨middle, present, first⟩ := early row found
  obtain ⟨last, present, second⟩ := late middle present
  exact ⟨last, present, first.trans second⟩

/-- A run whose claims satisfy the test never gets as far as to authorize one of them. -/
def rules (avoided : Claim → Prop) : Rules Database Lock where
  invariant db := Valid db ∧ ∀ claim ∈ db.claims, ¬avoided claim
  grows := Grows
  keeps := Keeps
  permits _ others before after := KeepsShared others before after ∧ ¬∃ claim, avoided claim ∧ Authorized claim after
  grows_refl db := ⟨fun _ => .refl _, fun _ => .refl _, fun _ => id, Int.le_refl _⟩
  grows_trans first last :=
    ⟨fun id => (first.runs id).trans (last.runs id), fun id => (first.invocations id).trans (last.invocations id),
      fun _ member => last.claims (first.claims member), Int.le_trans first.clock last.clock⟩
  keeps_refl key _ := by cases key <;> rfl
  keeps_trans {key} _ _ _ first last := by cases key <;> exact Eq.trans last first

def RowMoves (before after : Option Invocation) : Prop :=
  RowGoesOn before after ∧ (before = none → ∀ later, after = some later → Marked later)

structure Change (held : List Lock) (before after : Database) : Prop where
  runs : ∀ id, after.runs.row id = before.runs.row id ∨ .run id ∈ held ∧ RunGoesOn (before.runs.row id) (after.runs.row id)
  invocations : ∀ id, after.invocations.row id = before.invocations.row id ∨
    .invocation id ∈ held ∧ RowMoves (before.invocations.row id) (after.invocations.row id)
  claims : after.claims = before.claims ∨ ∃ claim, after.claims = before.claims ++ [claim] ∧
    (∀ row, before.invocations.row claim.invocationId = some row → ¬IsClaimed row) ∧
      (∃ row, after.invocations.row claim.invocationId = some row ∧ IsClaimed row) ∧ Authorized claim after
  clock : before.clock ≤ after.clock

variable {avoided : Claim → Prop} {held : List Lock} {before after : Database}

theorem Change.grows (change : Change held before after) : Grows before after := by
  refine ⟨fun id => ?_, fun id => ?_, ?_, change.clock⟩
  · cases change.runs id with
    | inl same => exact same ▸ .refl _
    | inr moved => exact moved.2
  · cases change.invocations id with
    | inl same => exact same ▸ .refl _
    | inr moved => exact moved.2.1
  · obtain same | ⟨claim, same, -⟩ := change.claims
    · exact fun _ member => same ▸ member
    · exact fun _ member => same ▸ List.mem_append_left _ member

theorem Change.valid (change : Change held before after) (valid : Valid before) : Valid after := by
  have rows := change.grows.invocations
  have claimed : ∀ claim ∈ before.claims, ∃ row, after.invocations.row claim.invocationId = some row ∧ IsClaimed row := by
    intro claim member
    obtain ⟨row, found, claimed⟩ := valid.claimed claim member
    obtain ⟨later, present, continues⟩ := rows claim.invocationId row found
    exact ⟨later, present, continues.claimed claimed⟩
  refine ⟨fun id later found => ?_, ?_, ?_⟩
  · cases change.invocations id with
    | inl same => exact valid.marked id later (same ▸ found)
    | inr moved =>
      cases old : before.invocations.row id with
      | none => exact moved.2.2 old later found
      | some row =>
        obtain ⟨next, present, continues⟩ := rows id row old
        cases present.symm.trans found
        exact continues.marked (valid.marked id row old)
  · obtain same | ⟨claim, same, -, marked, -⟩ := change.claims
    · exact same ▸ claimed
    · intro other member
      rw [same] at member
      cases List.mem_append.mp member with
      | inl earlier => exact claimed other earlier
      | inr last => exact List.mem_singleton.mp last ▸ marked
  · obtain same | ⟨claim, same, unclaimed, -⟩ := change.claims
    · exact same ▸ valid.once
    · rw [same, List.map_append, List.map_singleton]
      refine List.nodup_append.mpr ⟨valid.once, List.nodup_singleton _, fun id earlier other last same => ?_⟩
      obtain ⟨old, member, rfl⟩ := List.mem_map.mp earlier
      rw [List.mem_singleton.mp last] at same
      obtain ⟨row, found, claimed⟩ := valid.claimed old member
      exact unclaimed row (same ▸ found) claimed

theorem Change.commits (change : Change held before after) (valid : (rules avoided).invariant before) :
    Rules.Commits (rules avoided) held before after := by
  intro others apart ⟨shared, unreached⟩
  refine ⟨⟨change.valid valid.1, ?_⟩, change.grows, fun key taken => ?_⟩
  · obtain same | ⟨claim, same, -, -, authorized⟩ := change.claims
    · exact same ▸ valid.2
    · intro other member
      rw [same] at member
      cases List.mem_append.mp member with
      | inl earlier => exact valid.2 other earlier
      | inr last => exact List.mem_singleton.mp last ▸ fun hit => unreached ⟨claim, hit, authorized⟩
  · cases key with
    | run runId => exact (change.runs runId).resolve_right fun moved => apart _ moved.1 taken
    | share runId call => exact shared runId call taken
    | invocation id => exact (change.invocations id).resolve_right fun moved => apart _ moved.1 taken

open AgentSaas.Runs in
theorem operation_stays {operation : StatusOperation} (expected : operation.expectsOpen) {run : Run}
    (hit : operation.update.hits run = true) (terminal : run.status.isTerminal = true) :
    (operation.update.set run).status = run.status := by
  cases operation with
  | markStatus status reason patch now =>
    simp only [StatusOperation.update, Runs.markStatus] at hit ⊢
    split at hit
    next cancels =>
      rw [if_pos cancels]
      simp only [markStatusCancelled, terminal, Bool.not_true, Bool.false_or, decide_eq_true_eq] at hit
      exact hit.symm
    next other =>
      rw [if_neg other]
      simp only [markRunStatus, terminal, Bool.not_true, Bool.false_or, decide_eq_true_eq] at hit
      exact hit.symm
  | markStatusIfCurrent expectedStatuses status reason patch leaseAuthority now =>
    simp only [StatusOperation.update, markRunStatusIfCurrent, Bool.and_eq_true, List.contains_iff_mem] at hit
    rw [expected _ hit.1] at terminal
    cases terminal
  | claimPersistedInteractionResume expectedStatuses reason patch now =>
    simp only [StatusOperation.update, Runs.claimPersistedInteractionResume, List.contains_iff_mem] at hit
    rw [expected _ hit] at terminal
    cases terminal
  | releaseLease workerId finalStatus reason leaseToken now =>
    simp [StatusOperation.update, releaseRunLease, terminal]
  | claimStateOnlyTerminalOutbox | renewLease | markLivenessStale | reapStale | releaseSteeringSource | sealSteeringWindow => rfl
  | acquireLease request inheritsParentCapacity runningTool blockersCleared =>
    simp only [StatusOperation.update, Runs.acquireLease, recoverableRunHandoff, Bool.and_eq_true, Bool.or_eq_true,
      decide_eq_true_eq] at hit
    obtain ⟨⟨⟨(pending | abandoned) | handoff, _⟩, _⟩, _⟩ := hit
    · rw [pending] at terminal
      cases terminal
    · rw [abandoned.1.1] at terminal
      cases terminal
    · rw [handoff.1.1.1.1] at terminal
      cases terminal
  | cancelActiveByUser | cancelActiveByTenant =>
    simp [StatusOperation.update, cancelActiveRunsByUser, Runs.cancelActiveByTenant, terminal] at hit
  | cancelSteeringTarget reason now =>
    simp [StatusOperation.update, stopSteeringTarget, RunStatus.isStoppable, terminal] at hit
  | _ =>
    -- The rest hit a status that is not terminal.
    simp only [StatusOperation.update, Runs.cancelPendingTaskboardRun, Runs.cancelStaleWaitingApproval, Runs.reapOrphaned,
      steeredIntoRun, withdrawSteeringSource, stopSteeringSource, Bool.and_eq_true, decide_eq_true_eq] at hit
    grind [RunStatus.isTerminal]

theorem isClaimed_merge {metadata patch : Metadata} (claimed : (metadata "invokeClaimedAt").isSome = true) :
    ((metadata.merge patch) "invokeClaimedAt").isSome = true := by
  unfold Metadata.merge
  cases patch "invokeClaimedAt" with
  | none => exact claimed
  | some value => rfl

theorem isClaimed_put {metadata : Metadata} (key : String) (value : Json) (claimed : (metadata "invokeClaimedAt").isSome = true) :
    ((metadata.put key value) "invokeClaimedAt").isSome = true := by
  by_cases same : "invokeClaimedAt" = key
  · rw [← same, Metadata.put_self]
    rfl
  · rw [Metadata.put_other _ _ same]
    exact claimed

theorem isSome_coalesce {column : Option Int} (value : Option Int) (requested : column.isSome = true) :
    (column <|> value).isSome = true := by
  cases column with
  | none => cases requested
  | some => rfl

theorem conflictRow_continues (tenantGiven : Bool) (excluded row : Invocation) :
    Continues row (conflictRow tenantGiven excluded row) := by
  have requested : row.cancelRequestedAt.isSome = true → (conflictRow tenantGiven excluded row).cancelRequestedAt.isSome = true := by
    intro requested
    dsimp only [conflictRow]
    split
    · exact isSome_coalesce _ requested
    · exact requested
  refine ⟨rfl, fun claimed => ?_, requested, fun marked late => requested (marked late)⟩
  have present : (row.metadata "invokeClaimedAt").isSome = true := claimed
  simp only [IsClaimed, conflictRow, conflictMetadata, present, if_true]
  exact isClaimed_merge claimed

theorem Change.ofInvocations {rows : Tables.Table String Invocation}
    (moved : ∀ id, rows.row id = before.invocations.row id ∨
      .invocation id ∈ held ∧ RowMoves (before.invocations.row id) (rows.row id)) :
    Change held before { before with invocations := rows } :=
  ⟨fun _ => .inl rfl, moved, .inl rfl, Int.le_refl _⟩

theorem Change.ofRuns {rows : Tables.Table String Run}
    (moved : ∀ id, rows.row id = before.runs.row id ∨ .run id ∈ held ∧ RunGoesOn (before.runs.row id) (rows.row id)) :
    Change held before { before with runs := rows } :=
  ⟨moved, fun _ => .inl rfl, .inl rfl, Int.le_refl _⟩

theorem rowMoves_set {old : Option Invocation} {set : Invocation → Invocation}
    (continues : ∀ row, old = some row → Continues row (set row)) : RowMoves old (old.map set) := by
  refine ⟨fun row found => ⟨set row, by rw [found, Option.map_some], continues row found⟩, fun missing later found => ?_⟩
  rw [missing] at found
  cases found

theorem updateInvocation_change {id : String} {update : InvocationUpdate} {snapshot later : Database}
    (continues : ∀ row, later.invocations.row id = some row → Continues row (update.set later row)) :
    Change ((updateInvocation id update).locks snapshot ++ held) later ((updateInvocation id update).write snapshot later) := by
  refine Change.ofInvocations fun key => ?_
  cases hit : (snapshot.invocations.row id).any update.hits with
  | false =>
    left
    simp
  | true =>
    by_cases same : key = id
    · subst same
      right
      refine ⟨List.mem_append_left _ (by simp [updateInvocation, hit]), ?_⟩
      simpa using rowMoves_set continues
    · left
      simp [same]

theorem cancelInvocations_change {runId reason : String} {metadataPatch : Metadata} {now : Int} {snapshot later : Database} :
    Change ((cancelInvocations runId reason metadataPatch now).locks snapshot ++ held) later
      ((cancelInvocations runId reason metadataPatch now).write snapshot later) := by
  refine Change.ofInvocations fun key => ?_
  by_cases hit : key ∈ snapshot.invocations.select fun _ => isOpen runId
  · right
    refine ⟨List.mem_append_left _ (List.mem_map_of_mem hit), ?_⟩
    simp only [Tables.Table.modify_row, List.contains_iff_mem, hit, if_true]
    refine rowMoves_set fun row _ => ⟨rfl, isClaimed_merge, fun _ => rfl, fun _ _ => rfl⟩
  · left
    simp [hit]

theorem updateRun_change {id : String} {update : RowUpdate} {snapshot later : Database}
    (kept : .run id ∈ (updateRun id update).locks snapshot → later.runs.row id = snapshot.runs.row id)
    (stays : ∀ run, update.hits run = true → run.status.isTerminal = true → (update.set run).status = run.status) :
    Change ((updateRun id update).locks snapshot ++ held) later ((updateRun id update).write snapshot later) := by
  refine Change.ofRuns fun key => ?_
  cases hit : (snapshot.runs.row id).any update.hits with
  | false =>
    left
    simp
  | true =>
    by_cases same : key = id
    · subst same
      right
      have locked : Lock.run key ∈ (updateRun key update).locks snapshot := by simp [updateRun, hit]
      refine ⟨List.mem_append_left _ locked, fun run found => ⟨update.set run, by simp [found], ?_⟩⟩
      have meets : update.hits run = true := by simpa [← kept locked, found] using hit
      exact stays run meets
    · left
      simp [same]

theorem insertRun_change {row : Run} {snapshot later : Database} :
    Change ((insertRun row).locks snapshot ++ held) later ((insertRun row).write snapshot later) := by
  unfold insertRun
  dsimp only
  split
  next present => exact ⟨fun _ => .inl rfl, fun _ => .inl rfl, .inl rfl, Int.le_refl _⟩
  next absent =>
    refine Change.ofRuns fun key => ?_
    by_cases same : key = row.runId
    · subst same
      right
      refine ⟨List.mem_append_left _ (List.mem_singleton_self _), fun run found => ⟨run, ?_, fun _ => rfl⟩⟩
      exact Tables.Table.insert_row_kept found
    · exact .inl (Tables.Table.insert_row_other same row)

theorem completion_continues {status : ToolInvocationStatus} {error : Option String} {cancelled : Bool} {now : Int} {db : Database}
    {row : Invocation} (same : db.isCancelled row.runId = cancelled) :
    Continues row ((completion status error cancelled now).set db row) := by
  cases cancelled with
  | true =>
    have requested : (row.cancelRequestedAt <|> some now).isSome = true := by cases row.cancelRequestedAt <;> rfl
    exact ⟨rfl, isClaimed_put "cancelRecovery" (.text "complete_after_cancelled_run"), fun _ => requested, fun _ _ => requested⟩
  | false =>
    refine ⟨rfl, id, id, fun marked late => marked (late.imp id fun completed => ?_)⟩
    simp only [completion, same] at completed
    cases completed

def Answered (call : Nat) : Reply → Database → Prop
  | .invoked runId invocationId expectedWorkerId, db => ∃ claim ∈ db.claims, claim.call = call ∧ claim.runId = runId ∧
      claim.invocationId = invocationId ∧ claim.expectedWorkerId = expectedWorkerId
  | _, _ => True

abbrev Safe (avoided : Claim → Prop) (call : Nat) (program : Session Reply) (db : Database) : Prop :=
  (rules avoided).Safe (fun reply _ => Answered call reply) program .closed db

variable {call : Nat} {db : Database}

theorem execute_commits {α : Type} {statement : Query α} {snapshot later : Database}
    (change : Change (statement.locks snapshot ++ []) later (statement.write snapshot later))
    (valid : (rules avoided).invariant later) :
    Rules.Commits (rules avoided) (statement.locks snapshot) later (statement.write snapshot later) := by
  rw [List.append_nil] at change
  exact change.commits valid

theorem update_safe {id : String} {update : Outside → InvocationUpdate} {reply : Option Invocation → Session Reply}
    (continues : ∀ outside db row, Continues row ((update outside).set db row))
    (safe : ∀ row db, Safe avoided call (reply row) db) :
    Safe avoided call (receive >>= fun outside => execute (updateInvocation id (update outside)) >>= reply) db := by
  refine Rules.Safe.answer fun outside => ?_
  refine Rules.Safe.execute fun snapshot later _ _ kept _ => ⟨?_, fun _ => safe _ _⟩
  exact execute_commits (updateInvocation_change fun row _ => continues outside later row) kept

theorem record_safe (row : Option Invocation) (db : Database) : Safe avoided call (.returned (.record row)) db :=
  fun _ _ _ => trivial

theorem cancelOnce_continues {hits : Invocation → Bool} {reason : Option String} {metadataPatch : Metadata} {now : Int}
    {db : Database} {row : Invocation} : Continues row ((cancelOnce hits reason metadataPatch now).set db row) :=
  ⟨rfl, isClaimed_merge, fun _ => rfl, fun _ _ => rfl⟩

theorem existingCancellation_safe (id : String) (db : Database) : Safe avoided call (existingCancellation id) db :=
  Rules.Safe.executeRead fun _ _ _ _ _ _ _ _ _ => trivial

theorem cancellation_safe (id : String) (created : Option Invocation) (db : Database) :
    Safe avoided call (match created with
      | some row => return .cancellation (some (row, true))
      | none => existingCancellation id) db := by
  cases created with
  | none => exact existingCancellation_safe id db
  | some row => exact fun _ _ _ => trivial

theorem requestCancel_safe (id : String) (reason : Option String) (metadataPatch : Metadata) :
    Safe avoided call (requestCancel id reason metadataPatch) db := by
  refine update_safe (fun outside db row => ⟨rfl, isClaimed_merge, fun requested => ?_, fun marked late => ?_⟩) record_safe
  · exact isSome_coalesce _ requested
  · exact isSome_coalesce _ (marked late)

theorem requestCancelOnce_safe (id : String) (reason : Option String) (metadataPatch : Metadata) :
    Safe avoided call (requestCancelOnce id reason metadataPatch) db :=
  update_safe (fun _ _ _ => cancelOnce_continues) (cancellation_safe id)

theorem requestCancelOnceAfterRunCancellation_safe (id : String) (reason : Option String) (metadataPatch : Metadata) :
    Safe avoided call (requestCancelOnceAfterRunCancellation id reason metadataPatch) db := by
  refine Rules.Safe.answer fun outside => Rules.Safe.read fun later _ _ => ?_
  split
  next => exact existingCancellation_safe id later
  next cancelledAt _ =>
    refine Rules.Safe.execute fun snapshot later _ _ kept _ => ⟨?_, fun _ => cancellation_safe id _ _⟩
    exact execute_commits (updateInvocation_change fun _ _ => cancelOnce_continues) kept

theorem claimCancelDelivery_safe (id claimId : String) (leaseMs : Int) :
    Safe avoided call (claimCancelDelivery id claimId leaseMs) db := by
  refine update_safe (fun outside _ row => ⟨rfl, fun claimed => ?_, fun requested => requested, fun marked => marked⟩) record_safe
  exact isClaimed_put "cancelDeliveryClaimExpiresAt" (.text (timeText (outside.now + leaseMs)))
    (isClaimed_put "cancelDeliveryClaimId" (.text claimId) claimed)

theorem isClaimed_releaseDelivery {metadata : Metadata} (metadataPatch : Metadata)
    (claimed : (metadata "invokeClaimedAt").isSome = true) :
    ((releaseDelivery metadata metadataPatch) "invokeClaimedAt").isSome = true := by
  refine isClaimed_merge ?_
  rw [Metadata.without_other _ (by decide), Metadata.without_other _ (by decide)]
  exact claimed

theorem markCancelDeliveryAttempt_safe (id : String) (metadataPatch : Metadata) (claimId : Option String) :
    Safe avoided call (markCancelDeliveryAttempt id metadataPatch claimId) db :=
  update_safe (fun _ _ _ => ⟨rfl, isClaimed_releaseDelivery metadataPatch, fun requested => requested, fun marked => marked⟩) record_safe

theorem markCancelDelivered_safe (id : String) (metadataPatch : Metadata) (claimId : Option String) :
    Safe avoided call (markCancelDelivered id metadataPatch claimId) db :=
  update_safe (fun _ _ _ => ⟨rfl, isClaimed_releaseDelivery metadataPatch, fun requested => requested, fun marked => marked⟩) record_safe

theorem enqueueRun_safe (row : Run) : Safe avoided call (execute (insertRun row) >>= fun _ => .returned .done) db := by
  refine Rules.Safe.execute fun snapshot later _ _ kept _ => ⟨?_, fun _ _ _ _ => trivial⟩
  exact execute_commits insertRun_change kept

theorem changeRun_safe (runId : String) {operation : StatusOperation} (expected : operation.expectsOpen) :
    Safe avoided call (execute (updateRun runId operation.update) >>= fun _ => .returned .done) db := by
  refine Rules.Safe.execute fun snapshot later _ _ kept moved => ⟨?_, fun _ _ _ _ => trivial⟩
  refine execute_commits (updateRun_change (fun owned => moved.2 _ owned) fun run hit terminal => ?_) kept
  exact operation_stays expected hit terminal

theorem tick_safe (duration : Nat) :
    Safe avoided call (execute ⟨fun _ => [], fun _ => (), fun _ db => { db with clock := db.clock + duration }⟩ >>= fun _ =>
      .returned .done) db := by
  refine Rules.Safe.execute fun snapshot later _ _ kept _ => ⟨?_, fun _ _ _ _ => trivial⟩
  exact Change.commits ⟨fun _ => .inl rfl, fun _ => .inl rfl, .inl rfl, Int.le_add_of_nonneg_right (Int.natCast_nonneg _)⟩ kept

theorem Change.trans {middle : Database} (first : Change held before middle) (last : Change held middle after)
    (unclaimed : after.claims = middle.claims) (quiet : middle.claims = before.claims) : Change held before after := by
  refine ⟨fun id => ?_, fun id => ?_, .inl (unclaimed.trans quiet), Int.le_trans first.clock last.clock⟩
  · obtain same | moved := last.runs id
    · exact same ▸ first.runs id
    · obtain also | earlier := first.runs id
      · exact .inr (also ▸ moved)
      · exact .inr ⟨moved.1, earlier.2.trans moved.2⟩
  · obtain same | moved := last.invocations id
    · exact same ▸ first.invocations id
    · obtain also | earlier := first.invocations id
      · exact .inr (also ▸ moved)
      · refine .inr ⟨moved.1, earlier.2.1.trans moved.2.1, fun missing later found => ?_⟩
        cases present : middle.invocations.row id with
        | none => exact moved.2.2 present later found
        | some row =>
          obtain ⟨next, same, continues⟩ := moved.2.1 row present
          cases same.symm.trans found
          exact continues.marked (earlier.2.2 missing row present)

theorem Change.mono {more : List Lock} (change : Change held before after) (subset : held ⊆ more) : Change more before after :=
  ⟨fun key => (change.runs key).imp id fun moved => ⟨subset moved.1, moved.2⟩,
    fun key => (change.invocations key).imp id fun moved => ⟨subset moved.1, moved.2⟩, change.claims, change.clock⟩

theorem cancelTargetRun_safe (targetRunId reason : String) (metadataPatch : Metadata) (event : Bool) :
    Safe avoided call (cancelTargetRun targetRunId reason metadataPatch event) db := by
  refine Rules.Safe.answer fun outside => Rules.Safe.query fun first _ _ => ?_
  have stays : ∀ run, (stopSteeringTarget reason outside.now).hits run = true → run.status.isTerminal = true →
      ((stopSteeringTarget reason outside.now).set run).status = run.status := fun run hit terminal =>
    @operation_stays (.cancelSteeringTarget reason outside.now) trivial run hit terminal
  split
  next =>
    split
    next =>
      refine Rules.Safe.query fun second _ early => Rules.Safe.commit fun last valid late => ⟨?_, fun _ _ _ _ => trivial⟩
      have update : Change ((updateRun targetRunId (stopSteeringTarget reason outside.now)).locks first ++ []) last
          ((updateRun targetRunId (stopSteeringTarget reason outside.now)).write first last) :=
        updateRun_change (fun owned => (late.2 _ (List.mem_append_right _ (List.mem_append_left _ owned))).trans
          (early.2 _ (List.mem_append_left _ owned))) stays
      refine Change.commits (Change.trans (update.mono (List.subset_append_right ..)) cancelInvocations_change rfl rfl) valid
    next =>
      refine Rules.Safe.commit fun last valid late => ⟨?_, fun _ _ _ _ => trivial⟩
      exact (updateRun_change (fun owned => late.2 _ (List.mem_append_left _ owned)) stays).commits valid
  next =>
    refine Rules.Safe.commit fun last valid late => ⟨?_, fun _ _ _ _ => trivial⟩
    exact (updateRun_change (fun owned => late.2 _ (List.mem_append_left _ owned)) stays).commits valid

theorem shared_row {runId : String} {run : Run} {read later : Database}
    (kept : (later.runs.row runId).map leaseColumns = (read.runs.row runId).map leaseColumns)
    (found : read.runs.row runId = some run) : ∃ current, later.runs.row runId = some current ∧ leaseColumns current = leaseColumns run := by
  rw [found] at kept
  exact Option.map_eq_some_iff.mp kept

theorem insertInvocation_change {input : StartToolInvocationInput} {run : Run} {now : Int} {snapshot later : Database}
    (kept : later.invocations.row input.invocationId = snapshot.invocations.row input.invocationId)
    (same : later.isCancelled input.runId = true → run.status = .cancelled) :
    Change ((insertInvocation input run now).locks snapshot ++ held) later ((insertInvocation input run now).write snapshot later) := by
  refine Change.ofInvocations fun key => ?_
  by_cases here : key = input.invocationId
  · subst here
    right
    refine ⟨List.mem_cons_self, ?_⟩
    cases present : snapshot.invocations.row input.invocationId with
    | some row =>
      simp only [Option.isSome_some, if_true, Tables.Table.modify_row]
      exact rowMoves_set fun row _ => conflictRow_continues _ _ row
    | none =>
      simp only [Option.isSome_none, Bool.false_eq_true, if_false]
      have missing : later.invocations.row input.invocationId = none := kept.trans present
      rw [Tables.Table.insert_row_of_none missing, Function.update_self]
      refine ⟨fun row found => ?_, fun _ row found => ?_⟩
      · rw [missing] at found
        cases found
      · cases found
        intro late
        have cancelled : run.status = .cancelled := same (late.resolve_right fun completed => by cases completed)
        simp [excluded, cancelled]
  · left
    split
    · simp [here]
    · exact Tables.Table.insert_row_other here _

theorem selectRunForShare_locks {runId : String} {run : Run} (found : db.runs.row runId = some run) :
    (selectRunForShare call runId).locks db = [.share runId call] := by
  simp [selectRunForShare, Statement.lock, found]

theorem start_safe (input : StartToolInvocationInput) : Safe avoided call (start call input) db := by
  refine Rules.Safe.lock fun first _ _ => ?_
  split
  next => exact Rules.Safe.rollback fun _ _ _ _ _ _ => trivial
  next run found =>
    refine Rules.Safe.answer fun outside => Rules.Safe.query fun second _ early => ?_
    refine Rules.Safe.commit fun last valid late => ⟨?_, fun _ _ _ _ => trivial⟩
    have found : first.runs.row input.runId = some run := found
    have shared : Lock.share input.runId call ∈ (selectRunForShare call input.runId).locks first ++ [] := by
      rw [selectRunForShare_locks found]
      exact List.mem_cons_self
    obtain ⟨current, present, same⟩ := shared_row
      ((late.2 _ (List.mem_append_right _ shared)).trans (early.2 _ shared)) found
    refine (insertInvocation_change (late.2 (.invocation input.invocationId) List.mem_cons_self) fun cancelled => ?_).commits valid
    have status : current.status = run.status := congrArg Prod.fst same
    simpa [Database.isCancelled, present, status] using cancelled

theorem complete_safe (id : String) (status : ToolInvocationStatus) (error : Option String) :
    Safe avoided call (complete call id status error) db := by
  refine Rules.Safe.read fun first _ _ => ?_
  split
  next =>
    refine Rules.Safe.commit fun last valid _ => ⟨Rules.Commits.unchanged valid, fun _ _ _ _ => trivial⟩
  next runId owner =>
    refine Rules.Safe.lock fun second _ middle => ?_
    split
    next => exact Rules.Safe.rollback fun _ _ _ _ _ _ => trivial
    next run found =>
      refine Rules.Safe.answer fun outside => Rules.Safe.query fun third _ early => ?_
      refine Rules.Safe.commit fun last valid late => ⟨?_, fun _ _ _ _ => trivial⟩
      have found : second.runs.row runId = some run := found
      have shared : Lock.share runId call ∈ (selectRunForShare call runId).locks second ++ [] := by
        rw [selectRunForShare_locks found]
        exact List.mem_cons_self
      obtain ⟨current, present, same⟩ := shared_row
        ((late.2 _ (List.mem_append_right _ shared)).trans (early.2 _ shared)) found
      have status : current.status = run.status := congrArg Prod.fst same
      refine (updateInvocation_change fun row held => completion_continues ?_).commits valid
      -- The row still belongs to the run whose row was locked.
      obtain ⟨old, there, rfl⟩ := Option.map_eq_some_iff.mp owner
      obtain ⟨later, here, continues⟩ := ((middle.1.invocations id).trans ((early.1.invocations id).trans (late.1.invocations id))) old there
      cases held.symm.trans here
      rw [Database.isCancelled, continues.runId, present, Option.any_some, status]

theorem gateBlock_none {run : Option Run} {invocation : Option Invocation} (passed : gateBlock run invocation = none) :
    ∃ row, run = some row ∧ row.status.isTerminal = false := by
  unfold gateBlock at passed
  split at passed
  next => cases passed
  next =>
    split at passed
    next => cases passed
    next =>
      split at passed
      next => cases passed
      next row =>
        split at passed
        next => cases passed
        next going => exact ⟨row, rfl, Bool.eq_false_iff.mpr going⟩

theorem leaseLost_false {run : Run} {expectedWorkerId : Option String} {clock : Int} (kept : leaseLost run expectedWorkerId clock = false)
    {worker : String} (expected : expectedWorkerId.filter (· ≠ "") = some worker) :
    run.status = .running ∧ run.workerId = some worker ∧ ∃ expires, run.leaseExpiresAt = some expires ∧ clock < expires := by
  simp only [leaseLost, expected, Bool.or_eq_false_iff, decide_eq_false_iff_not, ne_eq, Decidable.not_not, Bool.not_eq_false'] at kept
  obtain ⟨⟨running, owner⟩, unexpired⟩ := kept
  obtain ⟨expires, found, later⟩ := (Option.any_eq_true ..).mp unexpired
  exact ⟨running, owner, expires, found, of_decide_eq_true later⟩

theorem claimInvocation_change {claim : Claim} {now : Int} {run : Run} {snapshot later : Database}
    (hit : (snapshot.invocations.row claim.invocationId).any (isClaimable claim.runId) = true)
    (kept : later.invocations.row claim.invocationId = snapshot.invocations.row claim.invocationId)
    (shared : ∃ current, later.runs.row claim.runId = some current ∧ leaseColumns current = leaseColumns run)
    (going : run.status.isTerminal = false)
    (leased : ∀ worker, claim.expectedWorkerId.filter (· ≠ "") = some worker →
      run.status = .running ∧ run.workerId = some worker ∧ ∃ expires, run.leaseExpiresAt = some expires ∧ claim.checkedAt < expires)
    (checked : claim.checkedAt ≤ later.clock) :
    Change ((claimInvocation claim now).locks snapshot ++ held) later ((claimInvocation claim now).write snapshot later) := by
  obtain ⟨row, found, claimable⟩ := (Option.any_eq_true ..).mp hit
  have present : later.invocations.row claim.invocationId = some row := kept.trans found
  simp only [isClaimable, Bool.and_eq_true, decide_eq_true_eq, Option.isNone_iff_eq_none] at claimable
  obtain ⟨⟨⟨owner, running⟩, uncancelled⟩, unclaimed⟩ := claimable
  have claimed : (claimedMetadata row.metadata claim.expectedWorkerId now "invokeClaimedAt").isSome = true := by
    have put : ((row.metadata.put "invokeClaimedAt" (.text (timeText now))) "invokeClaimedAt").isSome = true := by
      rw [Metadata.put_self]
      rfl
    unfold claimedMetadata
    cases claim.expectedWorkerId <|> row.metadata.text "workerId" with
    | none => exact put
    | some worker => exact isClaimed_put _ _ put
  have written : (later.invocations.modify fun key row =>
      if key = claim.invocationId then claimedRow claim now row else row).row claim.invocationId = some (claimedRow claim now row) := by
    simp only [Tables.Table.modify_row, present, Option.map_some, if_true]
  simp only [claimInvocation, hit, if_true]
  refine ⟨fun _ => .inl rfl, fun key => ?_, .inr ⟨claim, rfl, fun other same => ?_, ?_, ?_⟩, Int.le_refl _⟩
  · by_cases here : key = claim.invocationId
    · subst here
      right
      refine ⟨List.mem_append_left _ (List.mem_singleton_self _), ?_⟩
      simp only [Tables.Table.modify_row, if_true]
      refine rowMoves_set fun other same => ?_
      cases present.symm.trans same
      exact ⟨rfl, fun _ => claimed, fun requested => requested, fun marked => marked⟩
    · left
      simp [here]
  · cases present.symm.trans same
    simp [IsClaimed, unclaimed]
  · exact ⟨_, written, claimed⟩
  · obtain ⟨current, there, same⟩ := shared
    have status : current.status = run.status := congrArg Prod.fst same
    have worker : current.workerId = run.workerId := congrArg (·.2.1) same
    have lease : current.leaseExpiresAt = run.leaseExpiresAt := congrArg (·.2.2) same
    refine ⟨List.mem_append_right _ (List.mem_singleton_self _), ⟨_, written, owner, running, uncancelled⟩,
      ⟨current, there, ?_, ?_⟩, checked⟩
    · rw [status]
      exact going
    · rw [status, worker, lease]
      exact leased

theorem gate_safe (runId invocationId : String) (expectedWorkerId : Option String) :
    Safe avoided call (invokeWithPgActiveRunGate call runId invocationId expectedWorkerId) db := by
  refine Rules.Safe.read fun zero _ _ => Rules.Safe.lock fun first _ before => ?_
  split
  next => exact Rules.Safe.commit fun last valid _ => ⟨Rules.Commits.unchanged valid, fun _ _ _ _ => trivial⟩
  next unlost =>
    refine Rules.Safe.lock fun second _ middle => ?_
    split
    next => exact Rules.Safe.commit fun last valid _ => ⟨Rules.Commits.unchanged valid, fun _ _ _ _ => trivial⟩
    next passed =>
      refine Rules.Safe.answer fun outside => Rules.Safe.query fun third _ early => ?_
      change (rules avoided).Safe _ (if (third.invocations.row invocationId).any (isClaimable runId) = true then _ else _) _ _
      by_cases hit : (third.invocations.row invocationId).any (isClaimable runId) = true
      · rw [if_pos hit]
        obtain ⟨run, found, going⟩ := gateBlock_none passed
        have found : first.runs.row runId = some run := found
        have shared : Lock.share runId call ∈ (selectRunForShare call runId).locks first ++ [] := by
          rw [selectRunForShare_locks found]
          exact List.mem_cons_self
        have sharedThen : Lock.share runId call ∈ (selectInvocationForUpdate runId invocationId).locks second ++
            ((selectRunForShare call runId).locks first ++ []) := List.mem_append_right _ shared
        refine Rules.Safe.commit fun last valid late => ⟨?_, fun _ final _ growth => ?_⟩
        · refine (claimInvocation_change hit ?_ ?_ going (fun worker expected => ?_) ?_).commits valid
          · refine late.2 (.invocation invocationId) (List.mem_append_left _ ?_)
            simp [claimInvocation, Open.closed, hit]
          · exact shared_row ((late.2 _ (List.mem_append_right _ sharedThen)).trans
              ((early.2 _ sharedThen).trans (middle.2 _ shared))) found
          · refine leaseLost_false ?_ expected
            have unlost : ¬(first.runs.row runId).any (leaseLost · expectedWorkerId zero.clock) = true := unlost
            rw [found, Option.any_some] at unlost
            exact Bool.eq_false_iff.mpr unlost
          · exact Int.le_trans before.1.clock (Int.le_trans middle.1.clock (Int.le_trans early.1.clock late.1.clock))
        · refine ⟨⟨call, runId, invocationId, expectedWorkerId, zero.clock⟩, growth.1.claims ?_, rfl, rfl, rfl, rfl⟩
          simp [claimInvocation, Open.after, Open.closed, hit]
      · rw [if_neg hit]
        exact Rules.Safe.rollback fun _ _ _ _ _ _ => trivial

theorem request_safe (request : Request) : Safe avoided call (request.run call) db := by
  cases request with
  | start input => exact start_safe input
  | invokeWithActiveRunGate runId invocationId expectedWorkerId => exact gate_safe runId invocationId expectedWorkerId
  | complete invocationId status ended error => exact complete_safe invocationId status error
  | requestCancel invocationId reason metadataPatch => exact requestCancel_safe invocationId reason metadataPatch
  | requestCancelOnce invocationId reason metadataPatch => exact requestCancelOnce_safe invocationId reason metadataPatch
  | requestCancelOnceAfterRunCancellation invocationId reason metadataPatch =>
    exact requestCancelOnceAfterRunCancellation_safe invocationId reason metadataPatch
  | claimCancelDelivery invocationId claimId leaseMs => exact claimCancelDelivery_safe invocationId claimId leaseMs
  | markCancelDeliveryAttempt invocationId metadataPatch claimId => exact markCancelDeliveryAttempt_safe invocationId metadataPatch claimId
  | markCancelDelivered invocationId metadataPatch claimId => exact markCancelDelivered_safe invocationId metadataPatch claimId
  | enqueueRun input metadata now enqueueSeq => exact enqueueRun_safe (pendingRun input metadata now enqueueSeq)
  | changeRun runId operation expected => exact changeRun_safe runId expected
  | cancelTargetRun targetRunId reason metadataPatch event => exact cancelTargetRun_safe targetRunId reason metadataPatch event
  | tick duration => exact tick_safe duration

theorem answered_lasting {reply : Reply} (grows : Grows before after) (answered : Answered call reply before) :
    Answered call reply after := by
  cases reply with
  | invoked runId invocationId expectedWorkerId =>
    obtain ⟨claim, member, same⟩ := answered
    exact ⟨claim, grows.claims member, same⟩
  | _ => trivial

/-- The runs in which no claim that satisfies the test is authorized by a commit. -/
def unauthorized (avoided : Claim → Prop) : System Database Lock Outside Reply :=
  store.avoiding fun db => ∃ claim, avoided claim ∧ Authorized claim db

theorem covers (avoided : Claim → Prop) : (rules avoided).Covers (unauthorized avoided) Answered where
  permits permitted := permitted
  admits := by
    rintro call program db ⟨request, rfl⟩ _
    exact request_safe request
  lasting _ grows answered := answered_lasting grows answered

theorem covers_store : (rules fun _ => False).Covers store Answered where
  permits permitted := ⟨permitted, fun ⟨_, never, _⟩ => never⟩
  admits := (covers _).admits
  lasting := (covers _).lasting

theorem empty_valid (avoided : Claim → Prop) : (rules avoided).invariant .empty :=
  ⟨⟨fun _ _ found => (by cases found), fun _ member => (by cases member), .nil⟩, fun _ member => (by cases member)⟩

/-- The call has run its callback. -/
def Invokes (world : World Database Lock Outside Reply) (call : Nat) (runId invocationId : String)
    (expectedWorkerId : Option String) : Prop :=
  world.calls[call]? = some (.finished (.invoked runId invocationId expectedWorkerId))

def IsClaimOf (call : Nat) (runId invocationId : String) (expectedWorkerId : Option String) (claim : Claim) : Prop :=
  claim.call = call ∧ claim.runId = runId ∧ claim.invocationId = invocationId ∧ claim.expectedWorkerId = expectedWorkerId

theorem invokes_once {world : World Database Lock Outside Reply} (run : Run store ⟨.empty, []⟩ world) {first second : Nat}
    {runId otherRunId invocationId : String} {worker otherWorker : Option String}
    (one : Invokes world first runId invocationId worker) (other : Invokes world second otherRunId invocationId otherWorker) :
    first = second := by
  obtain ⟨holds, -⟩ := (Rules.Holds.start (empty_valid _)).run covers_store run
  obtain ⟨claim, member, rfl, -, same, -⟩ := holds.fits one
  obtain ⟨also, there, rfl, -, equal, -⟩ := holds.fits other
  exact congrArg Claim.call (List.inj_on_of_nodup_map holds.invariant.1.once member there (same.trans equal.symm))

theorem never_unauthorized {world : World Database Lock Outside Reply} {call : Nat} {runId invocationId : String}
    {worker : Option String} (run : Run (unauthorized (IsClaimOf call runId invocationId worker)) ⟨.empty, []⟩ world) :
    ¬Invokes world call runId invocationId worker := by
  intro invokes
  obtain ⟨holds, -⟩ := (Rules.Holds.start (empty_valid _)).run (covers _) run
  obtain ⟨claim, member, same⟩ := holds.fits invokes
  exact holds.invariant.2 claim member same

/-- A side effect starts at most once. No run starts it without a commit that left the
invocation running and not cancelled, its run going on and, for an expected worker, running
under a lease of that worker which had not run out when the gate checked it. What is committed
after the cancellation of its run keeps a cancel request, and the run stays cancelled. -/
theorem effects_gated :
    (∀ (world : World Database Lock Outside Reply) (first second : Nat) (runId otherRunId invocationId : String)
      (worker otherWorker : Option String), Run store ⟨.empty, []⟩ world → Invokes world first runId invocationId worker →
        Invokes world second otherRunId invocationId otherWorker → first = second) ∧
    (∀ (world : World Database Lock Outside Reply) (call : Nat) (runId invocationId : String) (worker : Option String),
      Run (unauthorized (IsClaimOf call runId invocationId worker)) ⟨.empty, []⟩ world →
        ¬Invokes world call runId invocationId worker) ∧
    ∀ world later : World Database Lock Outside Reply, Run store ⟨.empty, []⟩ world → Run store world later →
      (∀ id row, world.db.invocations.row id = some row → row.startedLate = true ∨ row.completedLate = true →
        ∃ after, later.db.invocations.row id = some after ∧ after.cancelRequestedAt.isSome = true) ∧
      ∀ runId, world.db.isCancelled runId = true → later.db.isCancelled runId = true := by
  refine ⟨fun _ _ _ _ _ _ _ _ run => invokes_once run, fun _ _ _ _ _ run => never_unauthorized run, fun world later run onward => ?_⟩
  obtain ⟨holds, -⟩ := (Rules.Holds.start (empty_valid _)).run covers_store run
  obtain ⟨-, grows⟩ := holds.run covers_store onward
  refine ⟨fun id row found late => ?_, fun runId cancelled => ?_⟩
  · obtain ⟨after, present, continues⟩ := grows.invocations id row found
    exact ⟨after, present, continues.cancelled (holds.invariant.1.marked id row found late)⟩
  · obtain ⟨run, found, status⟩ := (Option.any_eq_true ..).mp cancelled
    have status := of_decide_eq_true status
    obtain ⟨after, present, stays⟩ := grows.runs runId run found
    have terminal : run.status.isTerminal = true := by rw [status]; rfl
    simp [Database.isCancelled, present, stays terminal, status]

/-- The calls have started and have done nothing yet. -/
def begin (requests : List Request) : World Database Lock Outside Reply :=
  ⟨.empty, requests.mapIdx fun call request => .running .closed (request.run call)⟩

theorem begun {permits : List Lock → (Lock → Prop) → Database → Database → Prop} (requests : List Request) :
    Run ⟨store.admits, permits⟩ ⟨.empty, []⟩ (begin requests) := by
  induction requests using List.reverseRecOn with
  | nil => exact .refl
  | append_singleton requests request ih =>
    have step : Step ⟨store.admits, permits⟩ (begin requests)
        { begin requests with calls := (begin requests).calls ++ [.running .closed (request.run (begin requests).calls.length)] } :=
      .start ⟨request, rfl⟩
    have same : begin (requests ++ [request]) =
        { begin requests with calls := (begin requests).calls ++ [.running .closed (request.run (begin requests).calls.length)] } := by
      simp [begin, List.mapIdx_concat]
    exact same ▸ .tail ih step

def sharesKept (world : World Database Lock Outside Reply) (index : Nat) (next : World Database Lock Outside Reply) : Bool :=
  world.calls.zipIdx.all fun entry => entry.2 == index || entry.1.held.all fun
    | .share runId _ => (next.db.runs.row runId).map leaseColumns == (world.db.runs.row runId).map leaseColumns
    | _ => true

theorem sharesKept_sound {world next : World Database Lock Outside Reply} {index : Nat} (kept : sharesKept world index next = true) :
    KeepsShared (world.Others index) world.db next.db := by
  intro runId call ⟨other, found, apart, member, shared⟩
  have entry := List.all_eq_true.mp kept (found, other) (List.mem_zipIdx_iff_getElem?.mpr member)
  simp only [Bool.or_eq_true, beq_iff_eq, apart, false_or] at entry
  simpa using List.all_eq_true.mp entry _ shared

def goOn (index count : Nat) : List (Nat × Outside) := List.replicate count (index, ⟨100, true⟩)

def leaseOf (workerId : String) (leaseMs : Int) : StatusOperation := .acquireLease ⟨workerId, leaseMs, 0, none⟩ false false true

def runInput : UpsertRunInput := ⟨"r1", "s1", none, none, none, none, none, none, none, none, Metadata.empty⟩

def toolInput (invocationId : String) : StartToolInvocationInput :=
  ⟨invocationId, "r1", "s1", "c1", "Bash", "sandbox", none, Metadata.empty⟩

/-- Two gates of one invocation, a cancellation of the run and an invocation that starts after it. -/
def requests : List Request :=
  [.enqueueRun runInput Metadata.empty 0 1, .changeRun "r1" (leaseOf "w1" 1000) trivial, .start (toolInput "i1"),
    .invokeWithActiveRunGate "r1" "i1" (some "w1"), .invokeWithActiveRunGate "r1" "i1" (some "w1"),
    .changeRun "r1" (.markStatus .cancelled none Metadata.empty 200) trivial, .start (toolInput "i2")]

def cancelledRun : Option (World Database Lock Outside Reply) :=
  (begin requests).playWhere sharesKept (goOn 0 3 ++ goOn 1 3 ++ goOn 2 5 ++ goOn 3 7 ++ goOn 4 5 ++ goOn 5 3 ++ goOn 6 5)

theorem cancelledRun_reached {world : World Database Lock Outside Reply} (played : cancelledRun = some world) :
    Run store ⟨.empty, []⟩ world :=
  Relation.ReflTransGen.trans (begun requests) (run_of_playWhere (fun _ _ _ kept => sharesKept_sound kept) played)

def stoppedRequests : List Request :=
  [.enqueueRun runInput Metadata.empty 0 1, .changeRun "r1" (leaseOf "w1" 1000) trivial, .start (toolInput "i1"),
    .changeRun "r1" (.markStatus .cancelled none Metadata.empty 200) trivial, .invokeWithActiveRunGate "r1" "i1" (some "w1")]

def unclaimed (world : World Database Lock Outside Reply) (index : Nat) (next : World Database Lock Outside Reply) : Bool :=
  sharesKept world index next && next.db.claims.isEmpty

def stoppedRun : Option (World Database Lock Outside Reply) :=
  (begin stoppedRequests).playWhere unclaimed (goOn 0 3 ++ goOn 1 3 ++ goOn 2 5 ++ goOn 3 3 ++ goOn 4 4)

theorem stoppedRun_reached (avoided : Claim → Prop) {world : World Database Lock Outside Reply} (played : stoppedRun = some world) :
    Run (unauthorized avoided) ⟨.empty, []⟩ world := by
  refine Relation.ReflTransGen.trans (begun stoppedRequests) (run_of_playWhere (fun before index next kept => ?_) played)
  obtain ⟨shared, none⟩ := Bool.and_eq_true_iff.mp kept
  refine ⟨sharesKept_sound shared, fun ⟨claim, _, authorized⟩ => ?_⟩
  have member := authorized.committed
  rw [List.isEmpty_iff.mp none] at member
  cases member

theorem effects_gated_sample :
    (∃ world : World Database Lock Outside Reply, Run store ⟨.empty, []⟩ world ∧ Invokes world 3 "r1" "i1" (some "w1") ∧
      (∀ call runId worker, Invokes world call runId "i1" worker → call = 3) ∧
      ∃ row, world.db.invocations.row "i2" = some row ∧ row.startedLate = true ∧ row.cancelRequestedAt.isSome = true) ∧
    ∃ world : World Database Lock Outside Reply,
      Run (unauthorized (IsClaimOf 4 "r1" "i1" (some "w1"))) ⟨.empty, []⟩ world ∧ ¬Invokes world 4 "r1" "i1" (some "w1") := by
  obtain ⟨once, gated, marked⟩ := effects_gated
  constructor
  · obtain ⟨world, played⟩ : ∃ world, cancelledRun = some world := Option.isSome_iff_exists.mp (by decide +kernel)
    have run := cancelledRun_reached played
    have invokes : Invokes world 3 "r1" "i1" (some "w1") := by
      cases played
      rfl
    obtain ⟨row, found, late⟩ : ∃ row, world.db.invocations.row "i2" = some row ∧ row.startedLate = true := by
      cases played
      exact ⟨_, rfl, rfl⟩
    obtain ⟨after, present, requested⟩ := (marked world world run .refl).1 "i2" row found (.inl late)
    cases found.symm.trans present
    exact ⟨world, run, invokes, fun call runId worker other => once _ _ _ _ _ _ _ _ run other invokes, row, found, late, requested⟩
  · obtain ⟨world, played⟩ : ∃ world, stoppedRun = some world := Option.isSome_iff_exists.mp (by decide +kernel)
    have run := stoppedRun_reached (IsClaimOf 4 "r1" "i1" (some "w1")) played
    exact ⟨world, run, gated world 4 "r1" "i1" (some "w1") run⟩

/-- The invocation is running and not cancelled, and its run is running under the lease of the worker at this time. -/
def leased (runId invocationId worker : String) (db : Database) : Bool :=
  (db.invocations.row invocationId).any (fun row => row.runId = runId && row.status = .running && row.cancelRequestedAt.isNone) &&
    (db.runs.row runId).any fun run => run.status = .running && run.workerId = some worker && run.leaseExpiresAt.any (db.clock < ·)

def expiringRequests : List Request :=
  [.enqueueRun runInput Metadata.empty 0 1, .changeRun "r1" (leaseOf "w1" 10) trivial,
    .invokeWithActiveRunGate "r1" "i1" (some "w1"), .tick 20, .start (toolInput "i1")]

def unleased (world : World Database Lock Outside Reply) (index : Nat) (next : World Database Lock Outside Reply) : Bool :=
  sharesKept world index next && !leased "r1" "i1" "w1" next.db

def expiredRun : Option (World Database Lock Outside Reply) :=
  (begin expiringRequests).playWhere unleased (goOn 0 3 ++ goOn 1 3 ++ goOn 2 2 ++ goOn 3 3 ++ goOn 4 5 ++ goOn 2 5)

theorem expired_lease_invokes : ¬ ∀ (world : World Database Lock Outside Reply) (call : Nat) (runId invocationId worker : String),
    Run (store.avoiding fun db => leased runId invocationId worker db = true) ⟨.empty, []⟩ world → worker ≠ "" →
      ¬Invokes world call runId invocationId (some worker) := by
  intro gated
  obtain ⟨world, played⟩ : ∃ world, expiredRun = some world := Option.isSome_iff_exists.mp (by decide +kernel)
  have run : Run (store.avoiding fun db => leased "r1" "i1" "w1" db = true) ⟨.empty, []⟩ world := by
    refine Relation.ReflTransGen.trans (begun expiringRequests) (run_of_playWhere (fun before index next kept => ?_) played)
    obtain ⟨shared, none⟩ := Bool.and_eq_true_iff.mp kept
    exact ⟨sharesKept_sound shared, by simpa using none⟩
  refine gated world 2 "r1" "i1" "w1" run (by decide) ?_
  cases played
  rfl

end AgentSaas.Proofs.ToolEffects
