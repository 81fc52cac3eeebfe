import AgentSaas.Runs.Database
import Mathlib.Data.List.Sort

/-! Steering: a message sent to a running session waits as a pending run of its own
until the target run takes it in, or until it is withdrawn. -/

namespace AgentSaas.Runs
open AgentSaas.Transactions AgentSaas.Tables

inductive MessageDeliveryMode where
  | queue | steer
  deriving DecidableEq, Repr

def MessageDeliveryMode.text : MessageDeliveryMode → String
  | .queue => "queue"
  | .steer => "steer"

inductive SteeringError where
  | missingIdempotencyKey
  | stopped
  | createConflict (message : String)
  | runIdCollision (runId : String)
  | submissionWithoutRun
  | authorityDisappeared
  deriving DecidableEq, Repr

/-- The run whose message this event put into another run. -/
def PlatformEvent.interjection : PlatformEvent → Option String
  | .userMessage _ interjectionSourceRunId => interjectionSourceRunId.filter (· ≠ "")
  | _ => none

namespace SteeringState

/-- `state IN ('pending', 'reserved')` -/
def isOpen : SteeringState → Bool
  | .pending | .reserved => true
  | _ => false

end SteeringState

namespace Database

def input (db : Database) (sourceRunId : String) : Option SteeringInput := db.inputs.row sourceRunId

def hasOwnInput (db : Database) (runId : String) (row : Run) : Bool :=
  (db.input runId).any fun input =>
    input.tenantId = row.tenantId && input.sessionId = row.sessionId && input.state.isOpen

/-- An open input of the session whose source run is pending. -/
def isUndispatched (db : Database) (tenantId sessionId sourceRunId : String) (input : SteeringInput) : Bool :=
  input.tenantId = tenantId && input.sessionId = sessionId && input.state.isOpen &&
    (db.run sourceRunId).any fun source =>
      source.tenantId = input.tenantId && source.sessionId = input.sessionId && source.status = .pending

end Database

def advisory (key : Lock) : Query Unit := .lock (fun _ => [key]) fun _ => ()

/-- `UPDATE steering_inputs ... WHERE ... RETURNING source_run_id` -/
def updateInputs (wanted : Database → String → SteeringInput → Bool)
    (set : String → SteeringInput → SteeringInput) : Query (List String) where
  locks db := (db.inputs.select (wanted db)).map .input
  result db := db.inputs.select (wanted db)
  write snapshot db :=
    { db with
      inputs := db.inputs.modify fun key row =>
        if (snapshot.inputs.select (wanted snapshot)).contains key then set key row else row }

/-- `SELECT ... FOR UPDATE` on the runs of a `WHERE`. -/
def lockRuns (wanted : String → Run → Bool) : Query (List (String × Run)) where
  locks db := (db.runs.select wanted).map .run
  result db := (db.runs.select wanted).filterMap fun key => (db.run key).map fun row => (key, row)
  write _ := id

def lockInputs (wanted : Database → String → SteeringInput → Bool) : Query (List (String × SteeringInput)) where
  locks db := (db.inputs.select (wanted db)).map .input
  result db := (db.inputs.select (wanted db)).filterMap fun key => (db.input key).map fun row => (key, row)
  write _ := id

def appendEvents (events : List PlatformEvent) : Query Unit where
  locks _ := if events.isEmpty then [] else [.events]
  result _ := ()
  write _ db := { db with events := db.events ++ events }

/-- The unique keys of the submissions: the caller's key, and the run. -/
def MessageSubmission.conflicts (submission other : MessageSubmission) : Bool :=
  other.userScope = submission.userScope && other.clientMessageId = submission.clientMessageId ||
    other.runId = submission.runId

def insertSubmission (submission : MessageSubmission) : Query Bool where
  locks db :=
    if db.submissions.any submission.conflicts then []
    else [.submission submission.userScope submission.clientMessageId, .rawKey "submission-run" submission.runId]
  result db := !db.submissions.any submission.conflicts
  write snapshot db :=
    if snapshot.submissions.any submission.conflicts then db
    else { db with submissions := db.submissions ++ [submission] }

/-- `ON CONFLICT (source_run_id) DO NOTHING` -/
def insertInput (sourceRunId : String) (input : SteeringInput) : Query Unit where
  locks db := if (db.input sourceRunId).isSome then [] else [.input sourceRunId]
  result _ := ()
  write snapshot db :=
    if (snapshot.input sourceRunId).isSome then db else { db with inputs := db.inputs.insert sourceRunId input }

/-- The first run of a query in its order; `FOR UPDATE` locks that one. -/
def lockFirst (wanted : Database → String → Run → Bool) (before : Run → Run → Bool) : Query (Option String) :=
  let chosen := fun (db : Database) =>
    ((db.runs.select (wanted db)).insertionSort fun left right =>
      (db.run left).all fun a => (db.run right).all fun b => before a b : List String).head?
  .lock (fun db => ((chosen db).map Lock.run).toList) chosen

namespace RunStore

structure EnqueueInput extends UpsertRunInput where
  /-- `Date.parse(metadata.steeringAcceptedAt)`, when that is a date. -/
  steeringAcceptedAt : Option Int

def EnqueueInput.userScope (input : EnqueueInput) : String :=
  (input.submitterUserId <|> input.userId).getD "__anonymous__"

def EnqueueInput.tenant (input : EnqueueInput) : String := input.tenantId.getD defaultTenantId

/-- `ORDER BY CASE status WHEN 'running' ... END, requested_at` -/
def dispatchOrder (left right : Run) : Bool :=
  let rank := fun (row : Run) => if row.status.isExecuting then 0 else 1
  rank left < rank right || rank left = rank right && left.requestedAt ≤ right.requestedAt

def isSameQueue (input : EnqueueInput) (key : String) (row : Run) : Bool :=
  row.tenantId = input.tenant && row.sessionId = input.sessionId && key ≠ input.runId &&
    row.status.isSteeringTarget && (row.metadata.text "backgroundTask").getD "false" ≠ "true"

def isWindowOpen (row : Run) : Bool := (row.metadata.text "steeringInputWindow").getD "open" = "open"

def selectTarget (input : EnqueueInput) : Query (Option String) :=
  lockFirst
    (fun db key row => isSameQueue input key row &&
      (row.channel = some "web" || (row.metadata "subagentAgentId").isSome) && row.model = input.model &&
      row.executionTarget = input.executionTarget && row.workspaceId = input.workspaceId && isWindowOpen row &&
      !db.hasOwnInput key row)
    dispatchOrder

def selectBlocker (input : EnqueueInput) : Query (Option String) :=
  lockFirst (fun db key row => isSameQueue input key row && !db.hasOwnInput key row) dispatchOrder

def enqueueMetadata (input : EnqueueInput) (deliveryMode : MessageDeliveryMode) (now : Int)
    (targetRunId queuedBehindRunId : Option String) : Metadata :=
  let accepted := (input.metadata.put "deliveryMode" (.text deliveryMode.text)).put "acceptedAt" (.text (timeText now))
  let queued := queuedBehindRunId.elim accepted fun behind => accepted.put "queuedBehindRunId" (.text behind)
  targetRunId.elim queued fun target =>
    (queued.put "steeringTargetRunId" (.text target)).put "steeringState" (.text "pending")

/-- `ROLLBACK` and the error on its way out. -/
def abort (error : SteeringError) : Session (Except SteeringError α) := do
  rollback
  return .error error

def finish (value : α) : Session (Except SteeringError α) := do
  commit
  return .ok value

/-- The submission's own tenant comes first; another tenant's closes the call. -/
def readSameTenantSubmissionRun (input : EnqueueInput) : Query (Except SteeringError Run) :=
  .read fun db =>
    let known := db.submissions.filter fun submission =>
      submission.userScope = input.userScope && some submission.clientMessageId = input.idempotencyKey
    match (known.find? (·.tenantId = input.tenant)).or known.head? with
    | none => .error (.createConflict "shared authority")
    | some owner =>
      if owner.tenantId ≠ input.tenant then .error (.createConflict "shared authority")
      else
        match (db.run owner.runId).filter (·.tenantId = input.tenant) with
        | none => .error .submissionWithoutRun
        | some row => .ok row

def insertMessage (input : EnqueueInput) (deliveryMode : MessageDeliveryMode) (now : Int) (enqueueSeq : Nat)
    (targetRunId queuedBehindRunId : Option String) : Session (Except SteeringError Run) := do
  let row := pendingRun input.toUpsertRunInput
    (enqueueMetadata input deliveryMode now targetRunId queuedBehindRunId) now enqueueSeq
  let inserted ← query (insertRun row)
  if !inserted then abort (.runIdCollision input.runId)
  else
    match targetRunId with
    | none => finish row
    | some target =>
      query (insertInput input.runId ⟨input.tenant, target, input.sessionId, .pending, now, none, none⟩)
      finish row

def isStopped (input : EnqueueInput) : Query Bool :=
  .read fun db => (db.sessions.row input.sessionId).any fun session =>
    session.tenantId = some input.tenant && input.steeringAcceptedAt.any (· ≤ session.stoppedAt)

def enqueueUserMessage (input : EnqueueInput) (deliveryMode : MessageDeliveryMode) (enqueueSeq : Nat) :
    Session (Except SteeringError Run) :=
  match input.idempotencyKey.filter (· ≠ "") with
  | none => return .error .missingIdempotencyKey
  | some key => do
    query (advisory (.message input.tenant input.sessionId))
    let outside ← receive
    query (advisory (.rawKey "message-submissions" (input.userScope ++ "\u001f" ++ key)))
    let accepted ← query (insertSubmission ⟨input.tenant, input.userScope, key, input.runId, input.sessionId⟩)
    if !accepted then
      match ← query (readSameTenantSubmissionRun input) with
      | .error error => abort error
      | .ok existing => finish existing
    else
      match deliveryMode with
      | .steer =>
        let stopped ← query (isStopped input)
        if stopped then abort .stopped
        else
          let target ← query (selectTarget input)
          insertMessage input deliveryMode outside.now enqueueSeq target none
      | .queue =>
        let blocker ← query (selectBlocker input)
        insertMessage input deliveryMode outside.now enqueueSeq none blocker

/-! Reservation and application. -/

def isSealed (row : Run) : Bool := row.metadata "steeringInputWindow" = some (.text "sealed")

def takesSteering (row : Run) : Bool := row.status.isSteeringTarget && !isSealed row

def pendingOnly (rows : List (String × Run)) : List String :=
  (rows.filter (·.2.status = .pending)).map (·.1)

def reserveInputs (tenantId sessionId targetRunId : String) (sources : List String) (now : Int) : Query (List String) :=
  updateInputs
    (fun _ key input => input.tenantId = tenantId && input.sessionId = sessionId && input.targetRunId = targetRunId &&
      sources.contains key && input.state = .pending)
    fun _ input => { input with state := .reserved, reservedAt := input.reservedAt <|> some now }

def selectReserved (tenantId sessionId targetRunId : String) (sources : List String) : Query (List String) :=
  .read fun db => db.inputs.select fun key input =>
    input.tenantId = tenantId && input.sessionId = sessionId && input.targetRunId = targetRunId &&
      sources.contains key && input.state = .reserved

def reserveSteeringInputs (targetRunId : String) (sourceRunIds : List String) : Session (List String) :=
  if sourceRunIds = [] then return []
  else do
    let outside ← receive
    match (← query (lockRun targetRunId)).filter takesSteering with
    | none =>
      commit
      return []
    | some target =>
      let sources ← query (lockRuns fun key row =>
        row.tenantId = target.tenantId && row.sessionId = target.sessionId && sourceRunIds.contains key)
      let claimable := sourceRunIds.filter (pendingOnly sources).contains
      if claimable = [] then
        commit
        return []
      else
        let reserved ← query (reserveInputs target.tenantId target.sessionId targetRunId claimable outside.now)
        let already ← query (selectReserved target.tenantId target.sessionId targetRunId claimable)
        commit
        return sourceRunIds.filter fun key => reserved.contains key || already.contains key

def applyInput (now : Int) (input : SteeringInput) : SteeringInput :=
  { input with state := .applied, appliedAt := some now }

def markSteeringInputsApplied (targetRunId : String) (sourceRunIds : List String) : Session (List String) :=
  if sourceRunIds = [] then return []
  else do
    let outside ← receive
    match (← query (lockRun targetRunId)).filter takesSteering with
    | none =>
      commit
      return []
    | some _ =>
      let sources ← query (lockRuns fun key _ => sourceRunIds.contains key)
      let claimable := sourceRunIds.filter (pendingOnly sources).contains
      if claimable = [] then
        commit
        return []
      else
        let applied ← query (updateInputs
          (fun _ key input => input.targetRunId = targetRunId && claimable.contains key && input.state = .reserved)
          fun _ => applyInput outside.now)
        if applied = [] then
          commit
          return []
        else
          let _ ← query (updateRuns (fun key _ => applied.contains key) fun _ _ => steeredIntoRun targetRunId outside.now)
          commit
          return applied

structure SteeringApplyInput where
  sourceRunId : String
  clientMsgId : Option String
  event : Option PlatformEvent
  deriving DecidableEq, Repr

/-- `selectSteeringEventCandidates` -/
def selectSteeringEventCandidates (inputs : List SteeringApplyInput) (appliedSourceRunIds : List String) :
    List PlatformEvent × List String :=
  let candidates := (inputs.filter fun input => appliedSourceRunIds.contains input.sourceRunId).filterMap (·.event)
  (candidates, candidates.filterMap PlatformEvent.interjection)

/-- `buildAppliedSteeringEventInputs` -/
def buildAppliedSteeringEventInputs (inputs : List SteeringApplyInput) (appliedSourceRunIds : List String)
    (candidates : List PlatformEvent) (durable : List String) (targetRunId sessionId : String) : List PlatformEvent :=
  let fresh := candidates.filter fun event => event.interjection.all fun source => !durable.contains source
  let clientMsgIds := (inputs.filter fun input => appliedSourceRunIds.contains input.sourceRunId).filterMap fun input =>
    input.clientMsgId.filter (· ≠ "")
  fresh ++ [.interjectionApplied targetRunId sessionId appliedSourceRunIds clientMsgIds]

def selectDurableSources (sources : List String) : Query (List String) :=
  .read fun db => (db.events.filterMap PlatformEvent.interjection).filter sources.contains

def lockTarget (tenantId sessionId targetRunId : String) : Query (List (String × Run)) :=
  lockRuns fun key row => key = targetRunId && row.tenantId = tenantId && row.sessionId = sessionId

structure SteeringApplyResult where
  appliedSourceRunIds : List String
  events : List PlatformEvent
  deriving DecidableEq, Repr

def nothingApplied : Session SteeringApplyResult := do
  commit
  return ⟨[], []⟩

/-- The events, the inputs and the source runs of one application. -/
def applyReserved (tenantId sessionId targetRunId : String) (inputs : List SteeringApplyInput) (applied : List String) :
    Session SteeringApplyResult := do
  let (candidates, candidateSources) := selectSteeringEventCandidates inputs applied
  let durable ← query (selectDurableSources candidateSources)
  let events := buildAppliedSteeringEventInputs inputs applied candidates durable targetRunId sessionId
  query (appendEvents events)
  let outside ← receive
  let _ ← query (updateInputs
    (fun _ key input => input.tenantId = tenantId && input.sessionId = sessionId &&
      input.targetRunId = targetRunId && applied.contains key && input.state = .reserved)
    fun _ => applyInput outside.now)
  let _ ← query (updateRuns
    (fun key row => row.tenantId = tenantId && row.sessionId = sessionId && applied.contains key)
    fun _ _ => steeredIntoRun targetRunId outside.now)
  commit
  return ⟨applied, events⟩

def applySteeringInputsAtomically (targetRunId : String) (inputs : List SteeringApplyInput) (tenantId : String) :
    Session SteeringApplyResult :=
  if inputs = [] then return ⟨[], []⟩
  else do
    let sourceRunIds := (inputs.map (·.sourceRunId)).eraseDups
    match (← query (selectRun targetRunId)).filter fun row => row.tenantId = tenantId && row.sessionId ≠ "" with
    | none => nothingApplied
    | some seen =>
      let sessionId := seen.sessionId
      query (advisory (.message tenantId sessionId))
      let target ← query (lockTarget tenantId sessionId targetRunId)
      if !target.any fun row => takesSteering row.2 then nothingApplied
      else
        let sources ← query (lockRuns fun key row =>
          row.tenantId = tenantId && row.sessionId = sessionId && sourceRunIds.contains key)
        let reserved ← query (lockInputs fun _ key input => input.tenantId = tenantId && input.sessionId = sessionId &&
          input.targetRunId = targetRunId && sourceRunIds.contains key && input.state = .reserved)
        let applied := sourceRunIds.filter fun key =>
          (pendingOnly sources).contains key && (reserved.map (·.1)).contains key
        if applied = [] then nothingApplied else applyReserved tenantId sessionId targetRunId inputs applied

/-! Sealing and release. -/

/-- The answer of `trySealSteeringInputWindow`, with whether its first query found
the target: that is not part of the source's result. -/
structure SealResult where
  found : Bool
  result : Bool
  deriving DecidableEq, Repr

def trySealSteeringInputWindow (targetRunId : String) : Session SealResult := do
  match (← execute (selectRun targetRunId)).filter fun row => row.sessionId ≠ "" && row.tenantId ≠ "" with
  | none => return ⟨false, true⟩
  | some seen =>
    query (advisory (.message seen.tenantId seen.sessionId))
    let pending ← query (.read fun db => db.inputs.has fun key input =>
      db.isUndispatched seen.tenantId seen.sessionId key input && input.targetRunId = targetRunId)
    if pending then
      commit
      return ⟨true, false⟩
    else
      let outside ← receive
      let _ ← query (updateRun targetRunId fun _ => sealSteeringWindow outside.now)
      commit
      return ⟨true, true⟩

/-- One statement: the input is released, and the run stands for itself again. -/
def releasePendingSteering (sourceRunId : String) (now : Int) : Query Unit where
  locks db :=
    (if (db.input sourceRunId).any (·.state.isOpen) then [.input sourceRunId] else []) ++
      if (db.run sourceRunId).any (releaseSteeringSource now).hits then [.run sourceRunId] else []
  result _ := ()
  write snapshot db :=
    { db with
      inputs := db.inputs.modify fun key input =>
        if key = sourceRunId && (snapshot.input sourceRunId).any (·.state.isOpen) then { input with state := .released }
        else input
      runs := db.runs.modify fun key row =>
        if key = sourceRunId && (snapshot.run sourceRunId).any (releaseSteeringSource now).hits then
          (releaseSteeringSource now).set row
        else row }

def releasePendingSteeringForSourceRun (sourceRunId : String) : Session Unit := do
  let outside ← receive
  execute (releasePendingSteering sourceRunId outside.now)

inductive CancelFailure where
  | tooLate | notFound
  deriving DecidableEq, Repr

structure CancelSteeringResult where
  ok : Bool
  reason : Option CancelFailure
  sessionId : Option String
  clientMsgId : Option String
  deriving DecidableEq, Repr

def clientMsgId (row : Run) : Option String :=
  match row.metadata "clientMsgId" with
  | some (.text text) => some text
  | _ => none

def isSteeringSource (row : Run) : Bool :=
  (row.metadata "steeringState").isSome || (row.metadata "steeringTargetRunId").isSome

def tooLate (row : Run) : CancelSteeringResult := ⟨false, some .tooLate, some row.sessionId, clientMsgId row⟩

def withdrawn (row : Run) : CancelSteeringResult := ⟨true, none, some row.sessionId, clientMsgId row⟩

def cancelPendingSteeringSourceRun (sourceRunId reason : String) : Session CancelSteeringResult := do
  match (← query (lockRun sourceRunId)).filter isSteeringSource with
  | none =>
    rollback
    return ⟨false, some .notFound, none, none⟩
  | some row =>
    if row.status ≠ .pending || row.metadata "steeringState" ≠ some (.text "pending") then
      rollback
      return if row.status = .cancelled && row.metadata "cancelledByQueueRequest" = some (.bool true) then withdrawn row
        else tooLate row
    else
      let cancelled ← query (updateInputs (fun _ key input => key = sourceRunId && input.state = .pending)
        fun _ input => { input with state := .cancelled })
      if cancelled = [] then
        rollback
        return tooLate row
      else
        let outside ← receive
        let _ ← query (updateRun sourceRunId fun _ => withdrawSteeringSource reason outside.now)
        commit
        return withdrawn row

/-! Stopping a session. -/

/-- `MIN(tenant_id)` over the session's runs, when they have one tenant. -/
def sessionTenant (db : Database) (sessionId : String) : Option String :=
  match ((db.runs.select fun _ row => row.sessionId = sessionId).filterMap fun key =>
      (db.run key).map (·.tenantId)).eraseDups with
  | [tenantId] => some tenantId
  | _ => none

def insertSteeringSession (tenantId sessionId : String) (stoppedAt : Int) : Query Unit where
  locks db := if (db.sessions.row sessionId).isSome then [] else [.session sessionId]
  result _ := ()
  write snapshot db :=
    if (snapshot.sessions.row sessionId).isSome then db
    else { db with sessions := db.sessions.insert sessionId ⟨some tenantId, stoppedAt⟩ }

/-- `updateSteeringStop`: whether a row of this tenant was there. -/
def updateSteeringStop (tenantId sessionId : String) (stoppedAt : Int) : Query Bool where
  locks _ := [.session sessionId]
  result db := (db.sessions.row sessionId).any (·.tenantId = some tenantId)
  write _ db :=
    { db with
      sessions := db.sessions.modify fun key row =>
        if key = sessionId && row.tenantId = some tenantId then { row with stoppedAt := max row.stoppedAt stoppedAt }
        else row }

def selectSessionOwner (sessionId : String) : Query (Option String) :=
  .read fun db => (db.sessions.row sessionId).bind fun row => row.tenantId <|> sessionTenant db sessionId

def adoptSteeringSession (tenantId sessionId : String) : Query Unit where
  locks _ := [.session sessionId]
  result _ := ()
  write _ db :=
    { db with
      sessions := db.sessions.modify fun key row =>
        if key = sessionId && row.tenantId.isNone then { row with tenantId := some tenantId } else row }

/-- An error makes the caller roll back. -/
def upsertSteeringStopAuthority (tenantId sessionId : String) (stoppedAt : Int) : Session (Option SteeringError) := do
  query (advisory (.rawKey "steering-sessions" sessionId))
  query (insertSteeringSession tenantId sessionId stoppedAt)
  let updated ← query (updateSteeringStop tenantId sessionId stoppedAt)
  if updated then return none
  else
    let owner ← query (selectSessionOwner sessionId)
    if owner ≠ some tenantId then return some (.createConflict "steering authority")
    else
      query (adoptSteeringSession tenantId sessionId)
      let adopted ← query (updateSteeringStop tenantId sessionId stoppedAt)
      return if adopted then none else some .authorityDisappeared

structure StopResult where
  /-- The source runs of the inputs in `cancelled`. -/
  cancelled : List String
  targetCancelled : Bool
  eventCreated : Bool
  deriving DecidableEq, Repr

def isTaskboardContinuation (row : Run) : Bool := row.metadata "taskboardContinuation" = some (.bool true)

structure Stopped where
  sourceRunId : String
  state : SteeringState
  taskboardContinuation : Bool
  deriving DecidableEq, Repr

/-- `FOR UPDATE OF input, source` -/
def selectStopped (tenantId sessionId : String) (sources : List String) : Query (List Stopped) where
  locks db := (chosen db).flatMap fun key => [.input key, .run key]
  result db := (chosen db).filterMap fun key =>
    (db.input key).bind fun input => (db.run key).map fun row => ⟨key, input.state, isTaskboardContinuation row⟩
  write _ := id
where
  chosen (db : Database) : List String := db.inputs.select fun key input =>
    sources.contains key && db.isUndispatched tenantId sessionId key input

def Stopped.releasable (row : Stopped) : Bool := row.state = .pending && row.taskboardContinuation

/-- `UPDATE steering_inputs SET state = CASE ... END` -/
def stopInputs (tenantId sessionId : String) (releasable selected : List String) : Query (List String) :=
  updateInputs
    (fun _ key input => input.tenantId = tenantId && input.sessionId = sessionId && selected.contains key &&
      input.state.isOpen)
    fun key input => { input with state := if releasable.contains key then .released else .cancelled }

def stopSources (tenantId sessionId reason : String) (releasable selected : List String) (now : Int) :
    Query (List (String × Run)) :=
  updateRuns (fun key row => row.tenantId = tenantId && row.sessionId = sessionId && selected.contains key)
    fun _ key => stopSteeringSource (releasable.contains key) reason now

def stopTarget (tenantId sessionId targetRunId reason : String) (now : Int) : Query (List (String × Run)) :=
  updateRuns (fun key row => row.tenantId = tenantId && row.sessionId = sessionId && key = targetRunId)
    fun _ _ => stopSteeringTarget reason now

def requestToolCancels (targetRunId reason : String) (now : Int) : Query (List PlatformEvent) where
  locks db := (chosen db).map .invocation
  result db := (chosen db).filterMap fun key => (db.invocations.row key).map fun row =>
    .toolInvocationCancelRequested targetRunId key row.toolCallId row.toolName reason
  write snapshot db :=
    { db with
      invocations := db.invocations.modify fun key row =>
        if (chosen snapshot).contains key then
          { row with cancelRequestedAt := some now, cancelReason := row.cancelReason <|> some reason }
        else row }
where
  chosen (db : Database) : List String := db.invocations.select fun _ row =>
    row.runId = targetRunId && row.running && row.cancelRequestedAt.isNone

/-- A requested stop that is in the event log already. -/
def hasCancelEvent (event : Option PlatformEvent) : Query Bool :=
  .read fun db =>
    match event with
    | some (.runCancelRequested (some runId)) => db.events.contains (.runCancelRequested (some runId))
    | _ => false

/-- `buildRunCancellationEvents` -/
def buildRunCancellationEvents (requested : Option PlatformEvent) (appendRequested : Bool) (toolEvents : List PlatformEvent)
    (sessionId : String) (targetRunId : Option String) (cancelled : Bool) (previousStatus : Option RunStatus)
    (reason : String) : List PlatformEvent :=
  (if appendRequested then requested.toList else []) ++ toolEvents ++
    match targetRunId with
    | some runId => if cancelled then [.runStateChanged runId sessionId .cancelled previousStatus (some reason)] else []
    | none => []

def stopTargetRun (tenantId sessionId reason : String) (targetRunId : Option String) (now : Int) : Session Bool :=
  match targetRunId with
  | none => return false
  | some target => do
    let stopped ← query (stopTarget tenantId sessionId target reason now)
    return !stopped.isEmpty

def stopTools (targetRunId reason : String) (now : Int) (asked : Bool) : Session (List PlatformEvent) :=
  if asked then query (requestToolCancels targetRunId reason now) else return []

def stopSession (tenantId sessionId reason : String) (targetRunId : Option String) (event : Option PlatformEvent)
    (previousStatus : Option RunStatus) (cancelled : List String) : Session (Except SteeringError StopResult) := do
  let outside ← receive
  let targetCancelled ← stopTargetRun tenantId sessionId reason targetRunId outside.now
  let toolEvents ← stopTools (targetRunId.getD "") reason outside.now (targetCancelled && event.isSome)
  let existing ← query (hasCancelEvent event)
  let appendRequested := event.isSome && !existing && (targetRunId.isNone || targetCancelled)
  query (appendEvents (buildRunCancellationEvents event appendRequested toolEvents sessionId targetRunId targetCancelled
    previousStatus reason))
  finish ⟨cancelled, targetCancelled, appendRequested⟩

/-- The sources are selected, locked, selected again and taken back. -/
def withdrawSources (tenantId sessionId reason : String) (now : Int) : Session (List Stopped) := do
  let candidates ← query (.read fun db => db.inputs.select (db.isUndispatched tenantId sessionId))
  let _ ← query (lockRuns fun key row =>
    row.tenantId = tenantId && row.sessionId = sessionId && candidates.contains key)
  let _ ← query (lockInputs fun _ key input =>
    input.tenantId = tenantId && input.sessionId = sessionId && candidates.contains key)
  let selected ← query (selectStopped tenantId sessionId candidates)
  let releasable := (selected.filter (·.releasable)).map (·.sourceRunId)
  let _ ← query (stopInputs tenantId sessionId releasable (selected.map (·.sourceRunId)))
  let _ ← query (stopSources tenantId sessionId reason releasable (selected.map (·.sourceRunId)) now)
  return selected

def lockTargetStatus (tenantId sessionId : String) (targetRunId : Option String) : Session (Option RunStatus) :=
  match targetRunId with
  | none => return none
  | some target => do
    let rows ← query (lockTarget tenantId sessionId target)
    return rows.head?.map (·.2.status)

def cancelSteeringBeforeDispatchInternal (sessionId reason : String) (targetRunId : Option String)
    (event : Option PlatformEvent) (tenantId : String) : Session (Except SteeringError StopResult) := do
  query (advisory (.message tenantId sessionId))
  let guard ← receive
  if !guard.granted then finish ⟨[], false, false⟩
  else
    let previousStatus ← lockTargetStatus tenantId sessionId targetRunId
    if previousStatus.any (·.isTerminal) then finish ⟨[], false, false⟩
    else
      match ← upsertSteeringStopAuthority tenantId sessionId guard.now with
      | some error => abort error
      | none =>
        let selected ← withdrawSources tenantId sessionId reason guard.now
        stopSession tenantId sessionId reason targetRunId event previousStatus
          ((selected.filter (!·.taskboardContinuation)).map (·.sourceRunId))

end RunStore

/-! The calls that meet in a session. -/

namespace Steering

/-- Any other writer of a run row: a lease, the reaper, a status change. It leaves a
terminal row alone, reopens no run, and completes none in the name of steering. -/
structure Foreign (update : RowUpdate) : Prop where
  sink : ∀ row, update.hits row → row.status.isTerminal = false
  reopens : ∀ row, (update.set row).status = .pending → row.status = .pending
  steered : ∀ row, (update.set row).status = .completed → (update.set row).statusReason ≠ some "steered_into_run"
  window : ∀ row, (update.set row).metadata "steeringInputWindow" = row.metadata "steeringInputWindow"

inductive Request where
  | enqueueUserMessage (input : RunStore.EnqueueInput) (deliveryMode : MessageDeliveryMode) (enqueueSeq : Nat)
  | reserveSteeringInputs (targetRunId : String) (sourceRunIds : List String)
  | markSteeringInputsApplied (targetRunId : String) (sourceRunIds : List String)
  | applySteeringInputsAtomically (targetRunId : String) (inputs : List RunStore.SteeringApplyInput) (tenantId : String)
  | trySealSteeringInputWindow (targetRunId : String)
  | releasePendingSteeringForSourceRun (sourceRunId : String)
  | cancelPendingSteeringSourceRun (sourceRunId reason : String)
  | cancelSteeringBeforeDispatch (sessionId reason : String) (targetRunId : Option String) (event : Option PlatformEvent)
      (tenantId : String)
  | changeRun (runId : String) (update : RowUpdate) (foreign : Foreign update)

inductive Reply where
  | accepted (result : Except SteeringError Run)
  | reserved (sourceRunIds : List String)
  | applied (result : RunStore.SteeringApplyResult)
  | windowSealed (targetRunId : String) (result : RunStore.SealResult)
  | withdrawn (sourceRunId : String) (result : RunStore.CancelSteeringResult)
  | stopped (result : Except SteeringError RunStore.StopResult)
  | changed

def Request.run : Request → Session Reply
  | .enqueueUserMessage input deliveryMode enqueueSeq => do
    return .accepted (← RunStore.enqueueUserMessage input deliveryMode enqueueSeq)
  | .reserveSteeringInputs targetRunId sourceRunIds => do
    return .reserved (← RunStore.reserveSteeringInputs targetRunId sourceRunIds)
  | .markSteeringInputsApplied targetRunId sourceRunIds => do
    return .reserved (← RunStore.markSteeringInputsApplied targetRunId sourceRunIds)
  | .applySteeringInputsAtomically targetRunId inputs tenantId => do
    return .applied (← RunStore.applySteeringInputsAtomically targetRunId inputs tenantId)
  | .trySealSteeringInputWindow targetRunId => do
    return .windowSealed targetRunId (← RunStore.trySealSteeringInputWindow targetRunId)
  | .releasePendingSteeringForSourceRun sourceRunId => do
    RunStore.releasePendingSteeringForSourceRun sourceRunId
    return .changed
  | .cancelPendingSteeringSourceRun sourceRunId reason => do
    return .withdrawn sourceRunId (← RunStore.cancelPendingSteeringSourceRun sourceRunId reason)
  | .cancelSteeringBeforeDispatch sessionId reason targetRunId event tenantId => do
    return .stopped (← RunStore.cancelSteeringBeforeDispatchInternal sessionId reason targetRunId event tenantId)
  | .changeRun runId update _ => do
    let _ ← execute (updateRun runId fun _ => update)
    return .changed

/-- Any number of calls, in any interleaving. -/
def store : System Database Lock Outside Reply where
  admits _ program := ∃ request : Request, program = request.run
  permits _ _ _ _ := True

end Steering

end AgentSaas.Runs
