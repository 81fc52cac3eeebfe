import AgentSaas.Runs.Row

/-! Cron jobs, their execution ledger and the schedule arithmetic. Times are
milliseconds; a field that is absent is `none`. -/

namespace AgentSaas.Cron

inductive CronSchedule where
  | at (atMs : Int)
  | every (everyMs : Int) (anchorMs : Option Int)
  | cron (expr : String) (tz : Option String)
  deriving DecidableEq, Repr

def CronSchedule.isAt : CronSchedule → Bool
  | .at _ => true
  | _ => false

inductive CronPayload where
  | agentTurn (timeoutSeconds : Option Int)
  | systemEvent
  deriving DecidableEq, Repr

def CronPayload.isAgentTurn : CronPayload → Bool
  | .agentTurn _ => true
  | .systemEvent => false

inductive CronRunTrigger where
  | schedule | manual | retry
  deriving DecidableEq, Repr

inductive CronExecutionState where
  | claimed | running | terminal
  deriving DecidableEq, Repr

inductive TerminalStatus where
  | ok | error | skipped
  deriving DecidableEq, Repr

structure CronExecutionRecord where
  idempotencyKey : String
  runId : String
  startedAtMs : Int
  claimedAtMs : Int
  /-- The job's edit version at the first claim. -/
  scheduleUpdatedAtMs : Option Int
  runningAtMs : Option Int
  status : CronExecutionState
  ownerId : String
  leaseId : String
  leaseVersion : Int
  trigger : CronRunTrigger
  scheduledAtMs : Option Int
  requestId : Option String
  attempt : Int
  parentRunId : Option String
  retryOf : Option String
  sessionId : Option String
  runtimeRunId : Option String
  runtimeTenantId : Option String
  recoveryCount : Option Int
  lastRecoveredAtMs : Option Int
  terminalStatus : Option TerminalStatus
  endedAtMs : Option Int
  deriving DecidableEq, Repr

/-- The last run's summary is not stored with the jobs and is left out. -/
structure CronJobState where
  nextRunAtMs : Option Int
  runningAtMs : Option Int
  runningRunId : Option String
  runningLeaseId : Option String
  runningDeadlineAtMs : Option Int
  runningTimedOutAtMs : Option Int
  runningOwnerPid : Option Int
  runningOwnerHostname : Option String
  executionLedger : List CronExecutionRecord
  deriving DecidableEq, Repr

def CronJobState.empty : CronJobState := ⟨none, none, none, none, none, none, none, none, []⟩

structure CronJob where
  id : String
  enabled : Bool
  systemKind : Option String
  schedule : CronSchedule
  payload : CronPayload
  owner : Option String
  updatedAtMs : Int
  state : CronJobState
  deriving DecidableEq, Repr

/-- `clearActiveExecution`, and `clearRunningState` of the service. -/
def clearActiveExecution (job : CronJob) : CronJob :=
  { job with
    state := { job.state with
      runningAtMs := none
      runningRunId := none
      runningLeaseId := none
      runningDeadlineAtMs := none
      runningTimedOutAtMs := none
      runningOwnerPid := none
      runningOwnerHostname := none } }

/-- What the service is given: the cron-expression library, the default timeout and
the owner's tenant. -/
structure Deps where
  nextRun : String → Option String → Int → Option Int
  defaultTimeoutSeconds : Option Int
  resolveOwnerTenantId : String → Option String

def computeNextRunAtMs (deps : Deps) (schedule : CronSchedule) (nowMs : Int) : Option Int :=
  match schedule with
  | .at atMs => if atMs > nowMs then some atMs else none
  | .every everyMs anchorMs =>
    let everyMs := max 1 everyMs
    let anchor := max 0 (anchorMs.getD nowMs)
    if nowMs < anchor then some anchor
    else
      let steps := (nowMs - anchor) / everyMs + 1
      some (anchor + steps * everyMs)
  | .cron expr tz =>
    let expr := Runs.trim expr
    if expr = "" then none else deps.nextRun expr ((tz.map Runs.trim).filter (· ≠ "")) nowMs

def computeJobNextRunAtMs (deps : Deps) (job : CronJob) (nowMs : Int) : Option Int :=
  if job.enabled then computeNextRunAtMs deps job.schedule nowMs else none

def updatedAtAfterEdit (job : CronJob) (candidateMs : Int) : Int := max candidateMs (job.updatedAtMs + 1)

def scheduleFenceUpdatedAtMs (execution : CronExecutionRecord) (currentUpdatedAtMs : Int) : Int :=
  execution.scheduleUpdatedAtMs.getD (min currentUpdatedAtMs execution.claimedAtMs)

/-! Jobs and records are found by a scan. -/

def updateFirst (wanted : α → Bool) (change : α → α) : List α → List α
  | [] => []
  | first :: rest => if wanted first then change first :: rest else first :: updateFirst wanted change rest

def findJob (jobs : List CronJob) (id : String) : Option CronJob := jobs.find? (·.id = id)

def updateJob (jobs : List CronJob) (id : String) (change : CronJob → CronJob) : List CronJob :=
  updateFirst (·.id = id) change jobs

def CronJob.findRecord (job : CronJob) (runId : String) : Option CronExecutionRecord :=
  job.state.executionLedger.find? (·.runId = runId)

def CronJob.setRecord (job : CronJob) (runId : String) (change : CronExecutionRecord → CronExecutionRecord) : CronJob :=
  { job with
    state := { job.state with executionLedger := updateFirst (·.runId = runId) change job.state.executionLedger } }

end AgentSaas.Cron
