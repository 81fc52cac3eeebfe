import AgentSaas.Cron.Types

/-! Claims: who may execute an occurrence. Every function here is the body of one
store transaction. -/

namespace AgentSaas.Cron

structure ExecutionInvocation where
  trigger : CronRunTrigger
  scheduledAtMs : Option Int
  requestId : Option String
  retryOf : Option String
  parentRunId : Option String
  attempt : Option Int
  deriving DecidableEq, Repr

structure ClaimedJob where
  job : CronJob
  runId : String
  leaseId : String
  ownerId : String
  startedAtMs : Int
  claimedUpdatedAtMs : Int
  forced : Bool
  trigger : CronRunTrigger
  scheduledAtMs : Option Int
  requestId : Option String
  attempt : Int
  parentRunId : Option String
  retryOf : Option String
  idempotencyKey : String
  sessionId : Option String
  runtimeRunId : Option String
  runtimeTenantId : Option String
  recovered : Bool
  deriving DecidableEq, Repr

structure Process where
  ownerId : String
  pid : Int
  hostname : String
  deriving DecidableEq, Repr

/-- What `randomUUID` returns in one claim. -/
structure Uuids where
  run : String
  lease : String
  session : String
  deriving DecidableEq, Repr

def watchdogFallbackTimeoutMs : Int := 6 * 3600000

def watchdogOvertimeMs : Int := 180000

def getJobTimeoutSeconds (deps : Deps) (job : CronJob) : Int :=
  match job.payload with
  | .agentTurn (some timeoutSeconds) => max 0 timeoutSeconds
  | _ => deps.defaultTimeoutSeconds.getD 1800

/-- `getTimeoutSeconds(job) * 1000 || fallback` -/
def jobTimeoutMs (deps : Deps) (job : CronJob) : Int :=
  let timeoutMs := getJobTimeoutSeconds deps job * 1000
  if timeoutMs = 0 then watchdogFallbackTimeoutMs else timeoutMs

def claimSnapshot (job : CronJob) (execution : CronExecutionRecord) (claimedUpdatedAtMs : Int) (recovered : Bool) :
    ClaimedJob where
  job
  runId := execution.runId
  leaseId := execution.leaseId
  ownerId := execution.ownerId
  startedAtMs := execution.startedAtMs
  claimedUpdatedAtMs := scheduleFenceUpdatedAtMs execution claimedUpdatedAtMs
  forced := execution.trigger ≠ .schedule
  trigger := execution.trigger
  scheduledAtMs := execution.scheduledAtMs
  requestId := execution.requestId
  attempt := execution.attempt
  parentRunId := execution.parentRunId
  retryOf := execution.retryOf
  idempotencyKey := execution.idempotencyKey
  sessionId := execution.sessionId
  runtimeRunId := execution.runtimeRunId
  runtimeTenantId := execution.runtimeTenantId
  recovered

def leaseRecord (process : Process) (leaseId : String) (claimedAtMs : Int) (recovered : Bool)
    (execution : CronExecutionRecord) : CronExecutionRecord :=
  { execution with
    status := .claimed
    ownerId := process.ownerId
    leaseId
    claimedAtMs
    leaseVersion := max 0 execution.leaseVersion + 1
    recoveryCount := if recovered then some (max 0 (execution.recoveryCount.getD 0) + 1) else execution.recoveryCount
    lastRecoveredAtMs := if recovered then some claimedAtMs else execution.lastRecoveredAtMs
    runningAtMs := if recovered then execution.runningAtMs else none
    terminalStatus := none
    endedAtMs := none }

/-- The job's side of `assignLease`. -/
def leaseState (deps : Deps) (process : Process) (job : CronJob) (execution : CronExecutionRecord) (leaseId : String)
    (claimedAtMs : Int) (recovered : Bool) : CronJobState :=
  { job.state with
    runningTimedOutAtMs := if recovered then job.state.runningTimedOutAtMs else none
    runningAtMs := some (if recovered then execution.runningAtMs.getD execution.startedAtMs else claimedAtMs)
    runningRunId := some execution.runId
    runningLeaseId := some leaseId
    runningOwnerPid := some process.pid
    runningOwnerHostname := some process.hostname
    runningDeadlineAtMs :=
      if !recovered || job.state.runningDeadlineAtMs.isNone then
        some (execution.startedAtMs + jobTimeoutMs deps job + watchdogOvertimeMs)
      else job.state.runningDeadlineAtMs }

inductive ClaimValue where
  | claim (claim : ClaimedJob)
  | error (message : String)
  | duplicate (record : CronExecutionRecord)
  | nothing
  deriving DecidableEq, Repr

def claimKey (id : String) (invocation : ExecutionInvocation) : Except String String :=
  let requestId := (invocation.requestId.map Runs.trim).filter (· ≠ "")
  if invocation.trigger = .schedule then
    .ok ("cron:" ++ id ++ ":schedule:" ++ (invocation.scheduledAtMs.map toString).getD "undefined")
  else
    match requestId with
    | none => .error "Manual execution request id is required"
    | some requestId =>
      if invocation.trigger = .retry ∧ (invocation.retryOf.filter (· ≠ "")).isNone then
        .error "Retry source run is required"
      else .ok ("cron:" ++ id ++ ":request:" ++ requestId)

def lineageParent (invocation : ExecutionInvocation) : Option String :=
  if invocation.trigger = .retry then (invocation.parentRunId.filter (· ≠ "")) <|> invocation.retryOf else none

def claimAttempt (ledger : List CronExecutionRecord) (invocation : ExecutionInvocation) : Int :=
  let attempt := max 1 (invocation.attempt.getD 1)
  match (lineageParent invocation).filter (· ≠ "") with
  | none => attempt
  | some parentRunId =>
    let maxLineageAttempt := ledger.foldl (fun most record =>
      if record.runId = parentRunId || record.parentRunId = some parentRunId then
        max most (if record.attempt = 0 then 1 else record.attempt)
      else most) 0
    max attempt (maxLineageAttempt + 1)

def cronRunId (claimedAtMs : Int) (uuids : Uuids) : String := toString claimedAtMs ++ "-" ++ uuids.run

/-- The new ledger entry; `leaseRecord` completes it. -/
def newExecution (deps : Deps) (job : CronJob) (invocation : ExecutionInvocation) (idempotencyKey : String)
    (process : Process) (uuids : Uuids) (claimedAtMs : Int) : CronExecutionRecord where
  idempotencyKey
  runId := cronRunId claimedAtMs uuids
  startedAtMs := claimedAtMs
  claimedAtMs
  scheduleUpdatedAtMs := some job.updatedAtMs
  runningAtMs := none
  status := .claimed
  ownerId := process.ownerId
  leaseId := ""
  leaseVersion := 0
  trigger := invocation.trigger
  scheduledAtMs := invocation.scheduledAtMs
  requestId := invocation.requestId.map Runs.trim
  attempt := claimAttempt job.state.executionLedger invocation
  parentRunId := lineageParent invocation
  retryOf := invocation.retryOf
  sessionId := if job.payload.isAgentTurn then some uuids.session else none
  runtimeRunId := if job.payload.isAgentTurn then some ("cron:" ++ cronRunId claimedAtMs uuids) else none
  runtimeTenantId :=
    if job.payload.isAgentTurn then (job.owner.filter (· ≠ "")).bind deps.resolveOwnerTenantId else none
  recoveryCount := none
  lastRecoveredAtMs := none
  terminalStatus := none
  endedAtMs := none

def grantClaim (deps : Deps) (job : CronJob) (invocation : ExecutionInvocation) (idempotencyKey : String)
    (process : Process) (uuids : Uuids) (claimedAtMs : Int) : CronJob × ClaimedJob :=
  let execution := leaseRecord process uuids.lease claimedAtMs false
    (newExecution deps job invocation idempotencyKey process uuids claimedAtMs)
  let state := leaseState deps process job execution uuids.lease claimedAtMs false
  let claimed := { job with state := { state with executionLedger := job.state.executionLedger ++ [execution] } }
  (claimed, claimSnapshot claimed execution job.updatedAtMs false)

def claimCronJob (deps : Deps) (process : Process) (uuids : Uuids) (schedulerActive : Bool) (id : String)
    (invocation : ExecutionInvocation) (idempotencyKey : String) (claimedAtMs : Int) (jobs : List CronJob) :
    List CronJob × ClaimValue :=
  let forced := invocation.trigger ≠ .schedule
  if !forced && !schedulerActive then (jobs, .nothing)
  else
    match findJob jobs id with
    | none => (jobs, .error "Job not found")
    | some job =>
      match job.state.executionLedger.find? (·.idempotencyKey = idempotencyKey) with
      | some duplicate => (jobs, .duplicate duplicate)
      | none =>
        if job.state.runningAtMs.isSome || job.state.runningRunId.isSome then (jobs, .error "Job is already running")
        else if !forced && (!job.enabled || job.state.nextRunAtMs.all (claimedAtMs < ·) ||
            job.state.nextRunAtMs ≠ invocation.scheduledAtMs) then (jobs, .nothing)
        else
          let (claimed, claim) := grantClaim deps job invocation idempotencyKey process uuids claimedAtMs
          (updateJob jobs id fun _ => claimed, .claim claim)

/-- Whether the claim still holds the job and its record is not marked yet. -/
def markCronClaimRunning (claim : ClaimedJob) (nowMs : Int) (jobs : List CronJob) : List CronJob × Bool :=
  match findJob jobs claim.job.id with
  | none => (jobs, false)
  | some job =>
    match job.findRecord claim.runId with
    | none => (jobs, false)
    | some execution =>
      if job.state.runningRunId ≠ some claim.runId || job.state.runningLeaseId ≠ some claim.leaseId ||
          execution.leaseId ≠ claim.leaseId || execution.status ≠ .claimed then (jobs, false)
      else
        (updateJob jobs claim.job.id fun job => job.setRecord claim.runId fun record =>
          { record with status := .running, runningAtMs := record.runningAtMs <|> some nowMs }, true)

structure RecoverValue where
  claim : Option ClaimedJob
  cleared : Bool
  deriving DecidableEq, Repr

def recoverCronClaim (deps : Deps) (process : Process) (uuids : Uuids) (id runId : String)
    (expectedLeaseId : Option String) (recoveredAtMs : Int) (jobs : List CronJob) : List CronJob × RecoverValue :=
  match findJob jobs id with
  | none => (jobs, ⟨none, false⟩)
  | some job =>
    if job.state.runningRunId ≠ some runId || job.state.runningLeaseId ≠ expectedLeaseId then (jobs, ⟨none, false⟩)
    else
      match (job.findRecord runId).filter fun record => record.terminalStatus.isNone && record.status ≠ .terminal with
      | none => (updateJob jobs id clearActiveExecution, ⟨none, true⟩)
      | some execution =>
        let leased := leaseRecord process uuids.lease recoveredAtMs true execution
        let state := leaseState deps process job leased uuids.lease recoveredAtMs true
        let recovered := { job with state }.setRecord runId fun _ => leased
        (updateJob jobs id fun _ => recovered, ⟨some (claimSnapshot recovered leased job.updatedAtMs true), false⟩)

end AgentSaas.Cron
