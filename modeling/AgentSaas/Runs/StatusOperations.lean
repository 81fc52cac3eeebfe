import AgentSaas.Runs.StatusUpdates
import Mathlib.Logic.Relation

/-! The status operations on a whole table. Each of them changes a row by one
`UPDATE` under the row's lock, so a run is a sequence of row updates; an operation
on many rows is many steps, with others in between. -/

namespace AgentSaas.Runs

structure UpsertRunInput where
  runId : String
  sessionId : String
  userId : Option String
  submitterUserId : Option String
  tenantId : Option String
  model : Option String
  channel : Option String
  idempotencyKey : Option String
  executionTarget : Option String
  workspaceId : Option String
  metadata : Metadata

/-- `DEFAULT_TENANT_ID` -/
def defaultTenantId : String := "pantheon"

/-- The row that an `INSERT` makes. -/
def pendingRun (input : UpsertRunInput) (metadata : Metadata) (now : Int) (enqueueSeq : Nat) : Run where
  runId := input.runId
  tenantId := input.tenantId.getD defaultTenantId
  sessionId := input.sessionId
  userId := input.userId
  status := .pending
  statusReason := none
  model := input.model
  channel := input.channel
  executionTarget := input.executionTarget
  workspaceId := input.workspaceId
  requestedAt := now
  startedAt := none
  updatedAt := now
  completedAt := none
  failedAt := none
  cancelledAt := none
  workerId := none
  leaseExpiresAt := none
  lastHeartbeatAt := none
  livenessState := some .active
  livenessReasonCode := none
  livenessDetectedAt := some now
  livenessVersion := some 1
  enqueueSeq
  metadata

/-- The `UPDATE` statements of the status operations. `now` is the database clock or
the caller's; the flags are what the statement reads from other rows and tables. -/
inductive StatusOperation where
  | markStatus (status : RunStatus) (reason : Option String) (patch : Metadata) (now : Int)
  | markStatusIfCurrent (expectedStatuses : List RunStatus) (status : RunStatus) (reason : Option String)
      (patch : Metadata) (leaseAuthority : Option RunLeaseAuthority) (now : Int)
  | claimStateOnlyTerminalOutbox (status : RunStatus) (reason : Option String) (patch : Metadata) (now : Int)
  | cancelActiveByUser (userId reason : String) (now : Int)
  | cancelActiveByTenant (tenantId reason : String) (now : Int)
  | cancelPendingTaskboardRun (reason : String) (now : Int)
  | cancelStaleWaitingApproval (cutoff : Int) (reason : String) (patch : Metadata) (now : Int)
  | releaseLease (workerId : String) (finalStatus : Option RunStatus) (reason leaseToken : Option String) (now : Int)
  | acquireLease (request : LeaseRequest) (inheritsParentCapacity runningTool blockersCleared : Bool)
  | renewLease (request : LeaseRequest) (source : RunHeartbeatSource)
  | markLivenessStale (workerId reasonCode : String) (now : Int)
  | reapOrphaned (staleBefore : Int) (runningTool : Bool) (now : Int)
  | reapStale (now : Int)
  | claimPersistedInteractionResume (expectedStatuses : List RunStatus) (reason : String) (patch : Metadata) (now : Int)
  | applySteeringSource (targetRunId : String) (now : Int)
  | cancelPendingSteeringSource (reason : String) (now : Int)
  | cancelSteeringSource (releasable : Bool) (reason : String) (now : Int)
  | cancelSteeringTarget (reason : String) (now : Int)
  | releaseSteeringSource (now : Int)
  | sealSteeringWindow (now : Int)

def StatusOperation.update : StatusOperation → RowUpdate
  | .markStatus status reason patch now => Runs.markStatus status reason patch now
  | .markStatusIfCurrent expectedStatuses status reason patch leaseAuthority now =>
    markRunStatusIfCurrent expectedStatuses status reason patch leaseAuthority now
  | .claimStateOnlyTerminalOutbox status reason patch now => Runs.claimStateOnlyTerminalOutbox status reason patch now
  | .cancelActiveByUser userId reason now => cancelActiveRunsByUser userId reason now
  | .cancelActiveByTenant tenantId reason now => Runs.cancelActiveByTenant tenantId reason now
  | .cancelPendingTaskboardRun reason now => Runs.cancelPendingTaskboardRun reason now
  | .cancelStaleWaitingApproval cutoff reason patch now => Runs.cancelStaleWaitingApproval cutoff reason patch now
  | .releaseLease workerId finalStatus reason leaseToken now => releaseRunLease workerId finalStatus reason leaseToken now
  | .acquireLease request inheritsParentCapacity runningTool blockersCleared =>
    Runs.acquireLease request inheritsParentCapacity runningTool blockersCleared
  | .renewLease request source => renewRunLease request source
  | .markLivenessStale workerId reasonCode now => markRunLivenessStale workerId reasonCode now
  | .reapOrphaned staleBefore runningTool now => Runs.reapOrphaned staleBefore runningTool now
  | .reapStale now => Runs.reapStale now
  | .claimPersistedInteractionResume expectedStatuses reason patch now =>
    Runs.claimPersistedInteractionResume expectedStatuses reason patch now
  | .applySteeringSource targetRunId now => steeredIntoRun targetRunId now
  | .cancelPendingSteeringSource reason now => withdrawSteeringSource reason now
  | .cancelSteeringSource releasable reason now => stopSteeringSource releasable reason now
  | .cancelSteeringTarget reason now => stopSteeringTarget reason now
  | .releaseSteeringSource now => Runs.releaseSteeringSource now
  | .sealSteeringWindow now => Runs.sealSteeringWindow now

/-- The callers of the compare-and-set operations expect a status that is not terminal. -/
def StatusOperation.expectsOpen : StatusOperation → Prop
  | .markStatusIfCurrent expectedStatuses _ _ _ _ _ => ∀ status ∈ expectedStatuses, status.isTerminal = false
  | .claimPersistedInteractionResume expectedStatuses _ _ _ => ∀ status ∈ expectedStatuses, status.isTerminal = false
  | _ => True

/-- One row is inserted or updated. `admits` restricts which update may meet which row. -/
inductive StatusStep (admits : StatusOperation → Run → Prop) : List Run → List Run → Prop
  | enqueue {rows input metadata now enqueueSeq} (fresh : ∀ run ∈ rows, run.runId ≠ input.runId) :
      StatusStep admits rows (rows ++ [pendingRun input metadata now enqueueSeq])
  | update {rows index run} (operation : StatusOperation) (found : rows[index]? = some run)
      (expected : operation.expectsOpen) (admitted : admits operation run) :
      StatusStep admits rows (rows.set index (operation.update.apply run))

def StatusRun (admits : StatusOperation → Run → Prop) : List Run → List Run → Prop :=
  Relation.ReflTransGen (StatusStep admits)

end AgentSaas.Runs
