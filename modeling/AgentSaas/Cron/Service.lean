import AgentSaas.Cron.ExecutionClaim

/-! The other writers of a job: whoever ends or takes over a run, and the edits. Every
function here is the body of one store transaction. -/

namespace AgentSaas.Cron

structure CronRunLogEntry where
  runId : String
  startedAtMs : Int
  endedAtMs : Int
  trigger : Option CronRunTrigger
  scheduledAtMs : Option Int
  requestId : Option String
  attempt : Option Int
  parentRunId : Option String
  retryOf : Option String
  jobId : String
  status : TerminalStatus
  durationMs : Int
  deriving DecidableEq, Repr

def logEntry (jobId : String) (execution : CronExecutionRecord) (endedAtMs : Int) (status : TerminalStatus) :
    CronRunLogEntry :=
  ⟨execution.runId, execution.startedAtMs, endedAtMs, some execution.trigger, execution.scheduledAtMs,
    execution.requestId, some execution.attempt, execution.parentRunId, execution.retryOf, jobId, status,
    max 0 (endedAtMs - execution.startedAtMs)⟩

def claimEntry (claim : ClaimedJob) (endedAtMs : Int) (status : TerminalStatus) : CronRunLogEntry :=
  ⟨claim.runId, claim.startedAtMs, endedAtMs, some claim.trigger, claim.scheduledAtMs, claim.requestId,
    some claim.attempt, claim.parentRunId, claim.retryOf, claim.job.id, status, max 0 (endedAtMs - claim.startedAtMs)⟩

/-- `record.status = 'terminal'; record.terminalStatus = ...; record.endedAtMs = ...` -/
def settleRecord (status : TerminalStatus) (endedAtMs : Int) (record : CronExecutionRecord) : CronExecutionRecord :=
  { record with status := .terminal, terminalStatus := some status, endedAtMs := some endedAtMs }

def CronJob.setNextRun (job : CronJob) (nextRunAtMs : Option Int) : CronJob :=
  { job with state := { job.state with nextRunAtMs } }

def CronJob.isHeldBy (job : CronJob) (claim : ClaimedJob) : Bool :=
  job.state.runningRunId = some claim.runId && job.state.runningLeaseId = some claim.leaseId

def releaseClaim (claim : ClaimedJob) (jobs : List CronJob) : List CronJob :=
  match findJob jobs claim.job.id with
  | none => jobs
  | some job =>
    if !job.isHeldBy claim then jobs
    else
      updateJob jobs claim.job.id fun job =>
        let ledger := job.state.executionLedger
        let kept :=
          if (job.findRecord claim.runId).any (·.status = .claimed) then ledger.eraseP (·.runId = claim.runId) else ledger
        clearActiveExecution { job with state := { job.state with executionLedger := kept } }

structure Ending where
  status : TerminalStatus
  executionTimedOut : Bool
  endedAtMs : Int
  deriving DecidableEq, Repr

/-- The schedule of a job whose claim was not overtaken by an edit. -/
def advanceSchedule (deps : Deps) (claim : ClaimedJob) (ending : Ending) (job : CronJob) : CronJob :=
  if job.updatedAtMs ≠ claim.claimedUpdatedAtMs then job
  else if job.schedule.isAt && claim.trigger = .schedule && job.state.nextRunAtMs = claim.scheduledAtMs then
    { job.setNextRun none with enabled := if ending.status = .ok then false else job.enabled }
  else if !job.schedule.isAt && !claim.forced && job.enabled then
    job.setNextRun (computeJobNextRunAtMs deps job ending.endedAtMs)
  else job

/-- The transaction of `executeClaimedJobInternal`, with the log entry it owes. -/
def completeClaim (deps : Deps) (claim : ClaimedJob) (ending : Ending) (jobs : List CronJob) :
    List CronJob × Option CronRunLogEntry :=
  match findJob jobs claim.job.id with
  | none => (jobs, none)
  | some current =>
    if !current.isHeldBy claim then (jobs, none)
    else
      match (current.findRecord claim.runId).filter (·.leaseId = claim.leaseId) with
      | none => (jobs, none)
      | some execution =>
        if execution.terminalStatus.isSome then (updateJob jobs claim.job.id clearActiveExecution, none)
        else if current.state.runningTimedOutAtMs.isSome && !ending.executionTimedOut then
          (updateJob jobs claim.job.id clearActiveExecution, none)
        else
          (updateJob jobs claim.job.id fun job =>
            advanceSchedule deps claim ending
              ((clearActiveExecution job).setRecord claim.runId (settleRecord ending.status ending.endedAtMs)),
            some (claimEntry claim ending.endedAtMs ending.status))

structure WatchdogCandidate where
  id : String
  updatedAtMs : Int
  runningRunId : Option String
  runningLeaseId : Option String
  execution : Option CronExecutionRecord
  startedAtMs : Int
  deadlineAtMs : Int
  deriving DecidableEq, Repr

def watchdogCandidate (deps : Deps) (job : CronJob) : Option WatchdogCandidate :=
  if job.state.runningTimedOutAtMs.isSome then none
  else
    job.state.runningAtMs.map fun startedAtMs =>
      ⟨job.id, job.updatedAtMs, job.state.runningRunId, job.state.runningLeaseId,
        job.state.runningRunId.bind job.findRecord, startedAtMs,
        job.state.runningDeadlineAtMs.getD (startedAtMs + (jobTimeoutMs deps job + watchdogOvertimeMs))⟩

def watchdogSchedule (deps : Deps) (candidate : WatchdogCandidate) (execution : CronExecutionRecord) (nowMs : Int)
    (job : CronJob) : CronJob :=
  let current := job.updatedAtMs = scheduleFenceUpdatedAtMs execution candidate.updatedAtMs
  if job.schedule.isAt && execution.trigger = .schedule && decide current &&
      job.state.nextRunAtMs = execution.scheduledAtMs then job.setNextRun none
  else if !job.schedule.isAt && job.enabled && decide current then
    job.setNextRun (computeJobNextRunAtMs deps job nowMs)
  else job

def checkStaleJob (deps : Deps) (candidate : WatchdogCandidate) (nowMs : Int) (jobs : List CronJob) :
    List CronJob × Option CronRunLogEntry :=
  match findJob jobs candidate.id with
  | none => (jobs, none)
  | some job =>
    if job.state.runningAtMs ≠ some candidate.startedAtMs || job.state.runningRunId ≠ candidate.runningRunId ||
        job.state.runningLeaseId ≠ candidate.runningLeaseId || job.state.runningTimedOutAtMs.isSome then (jobs, none)
    else
      match candidate.runningRunId with
      | none => (jobs, none)
      | some runId =>
        match (job.findRecord runId).filter fun record =>
            some record.leaseId = candidate.runningLeaseId && record.terminalStatus.isNone with
        | none => (jobs, none)
        | some execution =>
          (updateJob jobs candidate.id fun job =>
            (watchdogSchedule deps candidate execution nowMs (clearActiveExecution job)).setRecord runId
              (settleRecord .error nowMs),
            some ⟨runId, candidate.startedAtMs, nowMs, candidate.execution.map (·.trigger),
              candidate.execution.bind (·.scheduledAtMs), candidate.execution.bind (·.requestId),
              candidate.execution.map (·.attempt), candidate.execution.bind (·.parentRunId),
              candidate.execution.bind (·.retryOf), candidate.id, .error, nowMs - candidate.startedAtMs⟩)

/-! Explicit cancellation and quarantine. -/

/-- What `cancelCronRun` asks of its snapshot before it stops the runtime. -/
def isCancellable (job : CronJob) (runId : String) : Bool :=
  (job.findRecord runId).any fun execution =>
    execution.terminalStatus.isNone && job.state.runningRunId = some runId &&
      (execution.runtimeRunId.filter (· ≠ "")).isSome && (execution.sessionId.filter (· ≠ "")).isSome

def settleSchedule (deps : Deps) (job : CronJob) (record : CronExecutionRecord) (status : TerminalStatus)
    (endedAtMs : Int) (current : CronJob) : CronJob :=
  let unedited := current.updatedAtMs = scheduleFenceUpdatedAtMs record job.updatedAtMs
  if current.schedule.isAt && record.trigger = .schedule && decide unedited &&
      current.state.nextRunAtMs = record.scheduledAtMs then
    { current.setNextRun none with enabled := if status = .ok then false else current.enabled }
  else if !current.schedule.isAt && current.enabled && decide unedited then
    current.setNextRun (computeJobNextRunAtMs deps current endedAtMs)
  else current

/-- `job` is the snapshot of the cancelling call. -/
def settleExplicitCancellation (deps : Deps) (job : CronJob) (runId : String) (status : TerminalStatus) (endedAtMs : Int)
    (jobs : List CronJob) : List CronJob × Option CronRunLogEntry :=
  match findJob jobs job.id with
  | none => (jobs, none)
  | some current =>
    match (current.findRecord runId).filter (·.terminalStatus.isNone) with
    | none => (jobs, none)
    | some record =>
      (updateJob jobs job.id fun current =>
        settleSchedule deps job record status endedAtMs
          ((clearActiveExecution current).setRecord runId (settleRecord status endedAtMs)),
        (job.findRecord runId).map fun execution => logEntry job.id execution endedAtMs status)

def quarantineLegacyOrphan (claim : ClaimedJob) (endedAtMs : Int) (jobs : List CronJob) :
    List CronJob × Option CronRunLogEntry :=
  match findJob jobs claim.job.id with
  | none => (jobs, none)
  | some job =>
    match (job.findRecord claim.runId).filter (·.terminalStatus.isNone) with
    | none => (jobs, none)
    | some _ =>
      if !job.isHeldBy claim then (jobs, none)
      else
        (updateJob jobs claim.job.id fun job =>
          { (((clearActiveExecution job).setNextRun none).setRecord claim.runId (settleRecord .error endedAtMs)) with
            enabled := false },
          some (claimEntry claim endedAtMs .error))

/-- A recovered claim that must not be dispatched again. -/
def ClaimedJob.isLegacyOrphan (claim : ClaimedJob) : Bool :=
  claim.recovered && claim.job.payload.isAgentTurn &&
    ((claim.runtimeRunId.filter (· ≠ "")).isNone || (claim.sessionId.filter (· ≠ "")).isNone)

structure CronJobPatch where
  enabled : Option Bool
  schedule : Option CronSchedule
  /-- `mergeCronPayload(job.payload, patch.payload)`, which may throw. -/
  mergePayload : CronPayload → Option CronPayload

def patchSchedule (job : CronJob) (patch : CronJobPatch) (nowMs : Int) : CronSchedule :=
  let enabled := patch.enabled.getD job.enabled
  let enabling := patch.enabled = some true && !job.enabled
  match patch.schedule with
  | some (.every everyMs anchorMs) =>
    let incomingEveryMs := max 1 everyMs
    let preserved :=
      match job.schedule with
      | .every existing existingAnchor => if !enabling && max 1 existing = incomingEveryMs then existingAnchor else none
      | _ => none
    .every incomingEveryMs (anchorMs <|> preserved <|> if enabled then some nowMs else none)
  | some schedule => schedule
  | none =>
    match job.schedule with
    | .every everyMs anchorMs => .every everyMs (if enabling then anchorMs <|> some nowMs else anchorMs)
    | schedule => schedule

def CronJob.rearm (deps : Deps) (job : CronJob) (nowMs : Int) : CronJob :=
  job.setNextRun (computeJobNextRunAtMs deps job nowMs)

def patchJob (deps : Deps) (job : CronJob) (patch : CronJobPatch) (payload : CronPayload) (nowMs : Int) : CronJob :=
  let patched :=
    { job with
      enabled := patch.enabled.getD job.enabled
      schedule := patchSchedule job patch nowMs
      payload
      updatedAtMs := updatedAtAfterEdit job nowMs }
  patched.rearm deps nowMs

/-- `none` when the mutation throws, and nothing is written. -/
def update (deps : Deps) (id : String) (patch : CronJobPatch) (nowMs : Int) (jobs : List CronJob) : Option (List CronJob) :=
  match findJob jobs id with
  | none => some jobs
  | some job =>
    if job.systemKind.isSome then none
    else (patch.mergePayload job.payload).map fun payload => updateJob jobs id fun job => patchJob deps job patch payload nowMs

def isSameCronSchedule : CronSchedule → CronSchedule → Bool
  | .cron expr tz, .cron otherExpr otherTz => expr = otherExpr && tz.getD "" = otherTz.getD ""
  | .every everyMs anchorMs, .every otherMs otherAnchor => everyMs = otherMs && anchorMs.getD 0 = otherAnchor.getD 0
  | .at atMs, .at otherMs => atMs = otherMs
  | _, _ => false

structure SystemPlan where
  toCreate : List CronJob
  toUpdate : List CronJob

def createSystemJob (deps : Deps) (nowMs : Int) (jobs : List CronJob) (job : CronJob) : List CronJob :=
  if job.systemKind.isNone || jobs.any (fun existing =>
      existing.id = job.id || existing.systemKind = job.systemKind && existing.owner = job.owner) then jobs
  else jobs ++ [if job.enabled then job.rearm deps nowMs else job]

def isSystemChange (job planned : CronJob) : Bool :=
  job.systemKind.isSome && job.updatedAtMs < planned.updatedAtMs &&
    (!isSameCronSchedule job.schedule planned.schedule || job.enabled ≠ planned.enabled)

def updateSystemJob (deps : Deps) (nowMs : Int) (jobs : List CronJob) (planned : CronJob) : List CronJob :=
  updateJob jobs planned.id fun job =>
    if !isSystemChange job planned then job
    else
      let changed :=
        { job with
          schedule := if isSameCronSchedule job.schedule planned.schedule then job.schedule else planned.schedule
          enabled := planned.enabled
          updatedAtMs := updatedAtAfterEdit job planned.updatedAtMs }
      changed.rearm deps nowMs

def applySystemJobs (deps : Deps) (plan : SystemPlan) (nowMs : Int) (jobs : List CronJob) : List CronJob :=
  plan.toUpdate.foldl (updateSystemJob deps nowMs) (plan.toCreate.foldl (createSystemJob deps nowMs) jobs)

structure CronJobCreate where
  enabled : Option Bool
  schedule : CronSchedule
  payload : CronPayload
  owner : Option String

/-- The job that `add` appends. -/
def createdJob (deps : Deps) (id : String) (create : CronJobCreate) (nowMs : Int) : CronJob :=
  let enabled := create.enabled.getD true
  let schedule :=
    match create.schedule with
    | .every everyMs anchorMs => .every everyMs (anchorMs <|> if enabled then some nowMs else none)
    | schedule => schedule
  let job : CronJob := ⟨id, enabled, none, schedule, create.payload, create.owner, nowMs, .empty⟩
  job.rearm deps nowMs

/-- `none` when it throws; `nowMs` is read inside the mutation. -/
def transferCronJobOwner (id expectedOwner owner : String) (nowMs : Int) (jobs : List CronJob) : Option (List CronJob) :=
  match findJob jobs id with
  | none => some jobs
  | some job =>
    if job.systemKind.isSome || job.owner ≠ some expectedOwner || (job.state.runningRunId.filter (· ≠ "")).isSome then none
    else some (updateJob jobs id fun job =>
      { job.setNextRun none with enabled := false, owner := some owner, updatedAtMs := updatedAtAfterEdit job nowMs })

def remove (id : String) (jobs : List CronJob) : Option (List CronJob) :=
  if (findJob jobs id).any (·.systemKind.isSome) then none else some (jobs.eraseP (·.id = id))

def removeByOwners (ownerIds : List String) (jobs : List CronJob) : List CronJob :=
  jobs.filter fun job => (job.owner.filter (· ≠ "")).all fun owner => !ownerIds.contains owner

/-! The repair on load. -/

def normalizeEverySchedule (job : CronJob) (nowMs : Int) : CronJob :=
  match job.schedule with
  | .every everyMs anchorMs =>
    let everyMs := max 1 everyMs
    let fallback := job.state.nextRunAtMs.elim nowMs fun next => max 0 (next - everyMs)
    { job with
      schedule := .every everyMs (anchorMs <|> if job.enabled then some fallback else none) }
  | _ => job

/-- Whether the process that owned the claim is known to be dead here. -/
def isAbandoned (process : Process) (isProcessAlive : Int → Bool) (job : CronJob) : Bool :=
  job.state.runningAtMs.isSome && (job.state.runningRunId.bind job.findRecord).isNone &&
    job.state.runningOwnerHostname = some process.hostname &&
    job.state.runningOwnerPid.any fun pid => 0 < pid && !isProcessAlive pid

def normalizeStoredJob (deps : Deps) (process : Process) (isProcessAlive : Int → Bool) (nowMs : Int) (job : CronJob) :
    CronJob :=
  let normalized := normalizeEverySchedule job nowMs
  let cleared :=
    if isAbandoned process isProcessAlive normalized || normalized.state.runningAtMs.isNone then
      clearActiveExecution normalized
    else normalized
  if cleared.enabled && cleared.state.nextRunAtMs.isNone then cleared.rearm deps nowMs else cleared

end AgentSaas.Cron
