import AgentSaas.Runs.Row

/-! Every `UPDATE` that moves a run's status, lease or liveness, one by one. They
were written separately, so each has its own `SET` list. -/

namespace AgentSaas.Runs

def timeText (time : Int) : String := toString time

namespace Run

/-- The time column of the current status, as `sandboxLifecycleTerminalAt` reads it. -/
def statusTime (run : Run) : Option Int :=
  match run.status with
  | .completed => run.completedAt
  | .failed => run.failedAt
  | .cancelled => run.cancelledAt <|> run.completedAt <|> run.failedAt
  | .orphaned => some run.updatedAt
  | _ => none

def lifecycleTerminalAt (run : Run) (now : Int) : Json :=
  let kept := if run.status.isTerminal then run.metadata.text "sandboxLifecycleTerminalAt" else none
  .text ((kept <|> run.statusTime.map timeText).getD (timeText now))

/-- The `SET` list that `markRunStatus` and `markRunStatusIfCurrent` share. -/
def transition (run : Run) (status : RunStatus) (reason : Option String) (patch : Metadata) (now : Int) : Run :=
  let releases := status.isWaitingInteraction || status.isTerminal
  { run with
    status
    statusReason := reason
    updatedAt := if run.status = status && status.isTerminal then run.updatedAt else now
    startedAt := if status = .running && run.startedAt.isNone then some now else run.startedAt
    completedAt :=
      if status = .completed then
        run.completedAt <|> some (if run.status = .completed then run.updatedAt else now)
      else run.completedAt
    failedAt :=
      if status = .failed then run.failedAt <|> some (if run.status = .failed then run.updatedAt else now)
      else run.failedAt
    cancelledAt := if status = .cancelled then run.cancelledAt <|> some now else run.cancelledAt
    workerId := if releases then none else run.workerId
    leaseExpiresAt := if releases then none else run.leaseExpiresAt
    livenessState := run.versioned (some (livenessStateForStatus status))
    livenessReasonCode := run.versioned reason
    livenessDetectedAt := run.versioned (some now)
    livenessVersion := run.nextVersion
    metadata :=
      if status.isTerminal then
        ((run.metadata.merge patch).without "wakeMessage").put "sandboxLifecycleTerminalAt"
          (run.lifecycleTerminalAt now)
      else run.metadata.merge patch }

end Run

def markRunStatus (status : RunStatus) (reason : Option String) (patch : Metadata) (now : Int) : RowUpdate where
  hits run := !run.status.isTerminal || run.status = status
  set run := run.transition status reason patch now

/-- The row is locked and read first, and the `UPDATE` follows in the same transaction. -/
def markStatusCancelled (reason : Option String) (patch : Metadata) (now : Int) : RowUpdate where
  hits run := !run.status.isTerminal || run.status = .cancelled
  set run :=
    let kept := if run.status = .cancelled then run.metadata.text "sandboxLifecycleTerminalAt" else none
    let closing := run.cancelledAt <|> run.completedAt <|> run.failedAt <|>
      if run.status = .cancelled then some run.updatedAt else none
    { run with
      status := .cancelled
      statusReason := reason
      updatedAt := now
      cancelledAt := run.cancelledAt <|> some now
      workerId := none
      leaseExpiresAt := none
      livenessState := run.versioned (some .terminal)
      livenessReasonCode := run.versioned (some (reason.getD "cancelled"))
      livenessDetectedAt := run.versioned (some now)
      livenessVersion := run.nextVersion
      metadata := ((run.metadata.merge patch).without "wakeMessage").put "sandboxLifecycleTerminalAt"
        (.text ((kept <|> closing.map timeText).getD (timeText now))) }

def markStatus (status : RunStatus) (reason : Option String) (patch : Metadata) (now : Int) : RowUpdate :=
  if status = .cancelled then markStatusCancelled reason patch now else markRunStatus status reason patch now

structure RunLeaseAuthority where
  workerId : String
  leaseToken : String
  deriving DecidableEq, Repr

def RunLeaseAuthority.owns (authority : RunLeaseAuthority) (run : Run) : Bool :=
  run.workerId = some authority.workerId && run.metadata.text "runLeaseToken" = some authority.leaseToken

def markRunStatusIfCurrent (expectedStatuses : List RunStatus) (status : RunStatus) (reason : Option String)
    (patch : Metadata) (leaseAuthority : Option RunLeaseAuthority) (now : Int) : RowUpdate where
  hits run := expectedStatuses.contains run.status && leaseAuthority.all (·.owns run)
  set run := run.transition status reason patch now

def claimStateOnlyTerminalOutbox (status : RunStatus) (reason : Option String) (patch : Metadata) (now : Int) :
    RowUpdate where
  hits run := run.status = status && (run.metadata "terminalEventOutbox").isNone
  set run :=
    { run with
      statusReason := run.statusReason <|> reason
      updatedAt := now
      metadata := (run.metadata.merge patch).without "wakeMessage" }

def cancelActiveRunsByUser (userId reason : String) (now : Int) : RowUpdate where
  hits run := run.userId = some userId && !run.status.isTerminal
  set run :=
    { run with
      status := .cancelled
      statusReason := some reason
      cancelledAt := run.cancelledAt <|> some now
      updatedAt := now
      workerId := none
      leaseExpiresAt := none
      livenessState := run.versioned (some .terminal)
      livenessReasonCode := run.versioned (some reason)
      livenessDetectedAt := run.versioned (some now)
      livenessVersion := run.nextVersion
      metadata := (run.metadata.put "cancelSource" (.text "user_offboarding")).without "wakeMessage" }

/-- The lease and the liveness columns are not in the `SET` list. -/
def cancelActiveByTenant (tenantId reason : String) (now : Int) : RowUpdate where
  hits run := run.tenantId = tenantId && !run.status.isTerminal
  set run :=
    { run with
      status := .cancelled
      statusReason := some reason
      updatedAt := now
      cancelledAt := some now
      metadata := run.metadata.without "wakeMessage" }

def cancelPendingTaskboardRun (reason : String) (now : Int) : RowUpdate where
  hits run := run.status = .pending && run.metadata.text "taskboardExecution" = some "true"
  set run :=
    { run with
      status := .cancelled
      statusReason := some reason
      updatedAt := now
      cancelledAt := run.cancelledAt <|> some now
      workerId := none
      leaseExpiresAt := none
      livenessState := run.versioned (some .terminal)
      livenessReasonCode := run.versioned (some reason)
      livenessDetectedAt := run.versioned (some now)
      livenessVersion := run.nextVersion
      metadata := run.metadata.without "wakeMessage" }

/-- The liveness columns are not in the `SET` list. -/
def cancelStaleWaitingApproval (cutoff : Int) (reason : String) (patch : Metadata) (now : Int) : RowUpdate where
  hits run := run.status = .waitingApproval && run.updatedAt < cutoff
  set run :=
    { run with
      status := .cancelled
      statusReason := some reason
      updatedAt := now
      cancelledAt := run.cancelledAt <|> some now
      workerId := none
      leaseExpiresAt := none
      metadata := (run.metadata.merge patch).without "wakeMessage" }

def releaseRunLease (workerId : String) (finalStatus : Option RunStatus) (reason leaseToken : Option String)
    (now : Int) : RowUpdate where
  hits run := run.workerId = some workerId &&
    leaseToken.all fun token => run.metadata.text "runLeaseToken" = some token
  set run :=
    let open_ := !run.status.isTerminal
    let next := finalStatus.getD run.status
    let ends := run.status.isTerminal || finalStatus.any (·.isTerminal)
    let state : LivenessState :=
      if run.status = .orphaned || finalStatus = some .orphaned then .orphaned
      else if ends then .terminal
      else if finalStatus.any (·.isWaitingInteraction) then .waitingInteraction
      else if finalStatus.isNone && run.status.isExecuting then .stale
      else if next.isExecuting then .busy
      else .active
    { run with
      status := if open_ then next else run.status
      statusReason := if open_ then reason <|> run.statusReason else run.statusReason
      workerId := none
      leaseExpiresAt := none
      livenessState := run.versioned (some state)
      livenessReasonCode :=
        run.versioned (reason <|> if finalStatus.isNone then some "worker_released" else run.statusReason)
      livenessDetectedAt := run.versioned (some now)
      livenessVersion := run.nextVersion
      updatedAt := if open_ then now else run.updatedAt
      completedAt := if finalStatus = some .completed && open_ then some now else run.completedAt
      failedAt := if finalStatus = some .failed && open_ then some now else run.failedAt
      cancelledAt := if finalStatus = some .cancelled && open_ then some now else run.cancelledAt
      metadata :=
        if ends then
          (run.metadata.without "wakeMessage").put "sandboxLifecycleTerminalAt" (run.lifecycleTerminalAt now)
        else run.metadata }

def legacyHandoffReasons : List String :=
  ["server_drain_handoff", "session_busy", "background_command_monitor_handoff"]

/-- `runningTool` says whether a tool invocation of the run is still running. -/
def recoverableRunHandoff (runningTool : Bool) (run : Run) : Bool :=
  let steering := run.livenessReasonCode.any fun code => "steering_".toList.isPrefixOf code.toList
  let left := run.livenessVersion.isNone && run.metadata.text "drainHandoffReady" = some "true"
  let stale := run.livenessState = some .stale &&
    (run.livenessReasonCode.any legacyHandoffReasons.contains || (run.metadata "drainHandoffAt").isSome && steering)
  run.status = .running && run.workerId.isNone && run.leaseExpiresAt.isNone && (left || stale) && !runningTool

def isStaged (run : Run) : Bool := run.status = .pending && run.metadata.text "schedulerState" = some "staged"

/-- `UNREADY_BACKGROUND_TASK_SQL` -/
def isUnreadyBackgroundTask (run : Run) : Bool :=
  run.metadata.text "backgroundTaskVersion" = some "2" && run.metadata.text "backgroundTaskReady" ≠ some "true"

structure LeaseRequest where
  workerId : String
  leaseMs : Int
  now : Int
  leaseToken : Option String
  deriving DecidableEq, Repr

/-- `blockersCleared` is `runLeaseBlockersClearedSql`, over the other rows of the session. -/
def acquireLease (request : LeaseRequest) (inheritsParentCapacity runningTool blockersCleared : Bool) : RowUpdate where
  hits run :=
    let expired := run.leaseExpiresAt.all (· < request.now)
    let abandoned := run.status = .running &&
      (run.livenessVersion.isNone || run.metadata.text "backgroundTask" = some "true") && expired
    (run.status = .pending || abandoned || recoverableRunHandoff runningTool run) && !isStaged run &&
      !isUnreadyBackgroundTask run && blockersCleared
  set run :=
    let cleaned := run.metadata.without "drainHandoffReady"
    let capacity :=
      if inheritsParentCapacity then cleaned.put "subagentCapacityInherited" (.bool true)
      else cleaned.without "subagentCapacityInherited"
    { run with
      status := .running
      workerId := some request.workerId
      leaseExpiresAt := some (request.now + request.leaseMs)
      lastHeartbeatAt := some request.now
      livenessState := some .busy
      livenessReasonCode := none
      livenessDetectedAt := some request.now
      livenessVersion := some (run.livenessVersion.getD 0 + 1)
      startedAt := run.startedAt <|> some request.now
      updatedAt := request.now
      metadata :=
        match request.leaseToken with
        | some token => capacity.put "runLeaseToken" (.text token)
        | none => capacity }

inductive RunHeartbeatSource where
  | stream | tool | subagent | worker
  deriving DecidableEq, Repr

def RunHeartbeatSource.reason : RunHeartbeatSource → String
  | .stream => "heartbeat_stream"
  | .tool => "heartbeat_tool"
  | .subagent => "heartbeat_subagent"
  | .worker => "heartbeat_worker"

def renewRunLease (request : LeaseRequest) (source : RunHeartbeatSource) : RowUpdate where
  hits run := run.workerId = some request.workerId &&
    request.leaseToken.all (fun token => run.metadata.text "runLeaseToken" = some token) &&
    run.status = .running && run.livenessState ≠ some .stale
  set run :=
    let expires := request.now + request.leaseMs
    { run with
      leaseExpiresAt := some (run.leaseExpiresAt.elim expires (max · expires))
      lastHeartbeatAt := some (run.lastHeartbeatAt.elim request.now (max · request.now))
      livenessState := some .busy
      livenessReasonCode := some source.reason
      livenessDetectedAt := if run.livenessState ≠ some .busy then some request.now else run.livenessDetectedAt
      livenessVersion := some (run.livenessVersion.getD 0 + 1)
      updatedAt := max run.updatedAt request.now }

def markRunLivenessStale (workerId reasonCode : String) (now : Int) : RowUpdate where
  hits run := run.workerId = some workerId && run.status = .running && run.livenessVersion.isSome &&
    run.livenessState = some .busy
  set run :=
    { run with
      livenessState := some .stale
      livenessReasonCode := some reasonCode
      livenessDetectedAt := some now
      livenessVersion := some (run.livenessVersion.getD 0 + 1)
      updatedAt := max run.updatedAt now }

/-- The first `UPDATE` of `reapExpiredRunLiveness`. -/
def reapOrphaned (staleBefore : Int) (runningTool : Bool) (now : Int) : RowUpdate where
  hits run := run.status = .running && run.metadata.text "backgroundTask" ≠ some "true" &&
    run.livenessVersion.isSome && run.livenessState = some .stale &&
    run.livenessDetectedAt.any (· ≤ staleBefore) && !recoverableRunHandoff runningTool run
  set run :=
    let reason := if runningTool then "external_tool_outcome_unknown" else "lease_expired"
    let marked := ((run.metadata.put "livenessTerminalizedBy" (.text "reaper")).put "externalToolOutcomeUnknown"
      (.bool runningTool)).without "wakeMessage"
    { run with
      status := .orphaned
      statusReason := some reason
      workerId := none
      leaseExpiresAt := none
      livenessState := some .orphaned
      livenessReasonCode := some reason
      livenessDetectedAt := some now
      livenessVersion := run.nextVersion
      updatedAt := now
      metadata := marked.put "sandboxLifecycleTerminalAt"
        (.text ((run.metadata.text "sandboxLifecycleTerminalAt").getD (timeText now))) }

/-- The second `UPDATE` of `reapExpiredRunLiveness`. -/
def reapStale (now : Int) : RowUpdate where
  hits run := run.status = .running && run.metadata.text "backgroundTask" ≠ some "true" &&
    run.livenessVersion.isSome && run.livenessState = some .busy && run.leaseExpiresAt.any (· ≤ now)
  set run :=
    { run with
      livenessState := some .stale
      livenessReasonCode := some "lease_expired"
      livenessDetectedAt := some now
      livenessVersion := run.nextVersion
      updatedAt := now }

def claimPersistedInteractionResume (expectedStatuses : List RunStatus) (reason : String) (patch : Metadata)
    (now : Int) : RowUpdate where
  hits run := expectedStatuses.contains run.status
  set run :=
    { run with
      status := .pending
      statusReason := some reason
      workerId := none
      leaseExpiresAt := none
      livenessState := run.versioned (some .active)
      livenessReasonCode := run.versioned (some reason)
      livenessDetectedAt := run.versioned (some now)
      livenessVersion := run.nextVersion
      updatedAt := now
      metadata := (run.metadata.merge patch).put "schedulerState" (.text "staged") }

/-- The source of an applied input, in `markSteeringInputsApplied` and in
`applySteeringInputsAtomically`; the liveness columns are not in the `SET` list. -/
def steeredIntoRun (targetRunId : String) (now : Int) : RowUpdate where
  hits run := run.status = .pending
  set run :=
    let applied := ((run.metadata.put "steeringState" (.text "applied")).put "steeringAppliedToRunId"
      (.text targetRunId)).put "steeringAppliedAt" (.text (timeText now))
    { run with
      status := .completed
      statusReason := some "steered_into_run"
      updatedAt := now
      completedAt := some now
      workerId := none
      leaseExpiresAt := none
      metadata := applied.without "wakeMessage" }

/-- The time goes into `completed_at`, and neither the lease nor the liveness is touched. -/
def withdrawSteeringSource (reason : String) (now : Int) : RowUpdate where
  hits run := run.status = .pending
  set run :=
    { run with
      status := .cancelled
      statusReason := some reason
      updatedAt := now
      completedAt := some now
      metadata := ((run.metadata.put "steeringState" (.text "cancelled")).put "cancelledByQueueRequest"
        (.bool true)).without "wakeMessage" }

/-- A source in `cancelSteeringBeforeDispatchInternal`: a taskboard continuation is
released and stays pending. -/
def stopSteeringSource (releasable : Bool) (reason : String) (now : Int) : RowUpdate where
  hits run := run.status = .pending
  set run :=
    { run with
      status := if releasable then run.status else .cancelled
      statusReason := if releasable then run.statusReason else some reason
      updatedAt := now
      cancelledAt := if releasable then run.cancelledAt else some now
      metadata :=
        if releasable then (run.metadata.without "steeringTargetRunId").put "steeringState" (.text "released")
        else (run.metadata.put "steeringState" (.text "cancelled")).without "wakeMessage" }

/-- The target in `cancelSteeringBeforeDispatchInternal`. -/
def stopSteeringTarget (reason : String) (now : Int) : RowUpdate where
  hits run := run.status.isStoppable
  set run :=
    { run with
      status := .cancelled
      statusReason := some reason
      updatedAt := now
      cancelledAt := some now
      workerId := none
      leaseExpiresAt := none
      metadata := run.metadata.without "wakeMessage" }

/-- `releasePendingSteeringForSourceRun` -/
def releaseSteeringSource (now : Int) : RowUpdate where
  hits run := run.metadata.text "steeringState" = some "pending"
  set run :=
    { run with
      updatedAt := now
      metadata := (run.metadata.without "steeringTargetRunId").put "steeringState" (.text "released") }

/-- `trySealSteeringInputWindow` -/
def sealSteeringWindow (now : Int) : RowUpdate where
  hits _ := true
  set run :=
    { run with
      updatedAt := now
      metadata := run.metadata.put "steeringInputWindow" (.text "sealed") }

end AgentSaas.Runs
