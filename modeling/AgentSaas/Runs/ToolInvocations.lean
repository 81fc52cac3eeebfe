import AgentSaas.Runs.StatusOperations
import AgentSaas.Tables
import AgentSaas.Transactions

/-! The tool invocations of a run: their start, the gate before the side effect, their
completion and cancellation. The clock is that of the database and goes on by itself. -/

namespace AgentSaas.ToolInvocations
open Transactions Tables Runs

inductive ToolInvocationStatus
  | running | completed | failed | cancelled
  deriving DecidableEq

/-- The last two fields are kept for the record: whether the run was cancelled when the row was
committed for the first time, and when its completion was. -/
structure Invocation where
  runId : String
  sessionId : String
  toolCallId : String
  toolName : String
  executionTarget : String
  tenantId : String
  status : ToolInvocationStatus
  startedAt : Int
  updatedAt : Int
  completedAt : Option Int
  cancelRequestedAt : Option Int
  cancelReason : Option String
  cancelDeliveredAt : Option Int
  error : Option String
  metadata : Metadata
  startedLate : Bool
  completedLate : Bool

/-- A commit of the gate, and the time at which it had checked the lease. -/
structure Claim where
  call : Nat
  runId : String
  invocationId : String
  expectedWorkerId : Option String
  checkedAt : Int

structure Database where
  runs : Table String Run
  invocations : Table String Invocation
  clock : Int
  claims : List Claim

def Database.empty : Database := ⟨.empty, .empty, 0, []⟩

/-- Any number of calls may share a row, each under a key of its own. -/
inductive Lock
  | run (runId : String)
  | share (runId : String) (call : Nat)
  | invocation (invocationId : String)
  deriving DecidableEq

/-- What a call gets from outside: a clock reading, and whether the times in the metadata let a
cancellation be delivered. -/
structure Outside where
  now : Int
  due : Bool

abbrev Query := Statement Database Lock

abbrev Session := Program Database Lock Outside

namespace Database

def isCancelled (db : Database) (runId : String) : Bool := (db.runs.row runId).any (·.status = .cancelled)

end Database

/-- `SELECT ... FOR SHARE` -/
def selectRunForShare (call : Nat) (runId : String) : Query (Option Run) :=
  .lock (fun db => if (db.runs.row runId).isSome then [.share runId call] else []) (·.runs.row runId)

/-- `SELECT ... WHERE invocation_id = $1 AND run_id = $2 FOR UPDATE` -/
def selectInvocationForUpdate (runId invocationId : String) : Query (Option Invocation) :=
  .lock (fun db => if (db.invocations.row invocationId).any (·.runId = runId) then [.invocation invocationId] else [])
    fun db => (db.invocations.row invocationId).filter (·.runId = runId)

structure InvocationUpdate where
  hits : Invocation → Bool
  /-- The database is that of the commit; only the record of it is read. -/
  set : Database → Invocation → Invocation

/-- `UPDATE ... WHERE invocation_id = $1 AND ... RETURNING *` -/
def updateInvocation (invocationId : String) (update : InvocationUpdate) : Query (Option Invocation) where
  locks db := if (db.invocations.row invocationId).any update.hits then [.invocation invocationId] else []
  result db := ((db.invocations.row invocationId).filter update.hits).map (update.set db)
  write snapshot db :=
    { db with
      invocations := db.invocations.modify fun key row =>
        if key = invocationId && (snapshot.invocations.row invocationId).any update.hits then update.set db row else row }

def statusText : RunStatus → String
  | .pending => "pending"
  | .running => "running"
  | .waitingApproval => "waiting_approval"
  | .waitingUser => "waiting_user"
  | .waitingHand => "waiting_hand"
  | .completed => "completed"
  | .failed => "failed"
  | .cancelled => "cancelled"
  | .orphaned => "orphaned"

structure StartToolInvocationInput where
  invocationId : String
  runId : String
  sessionId : String
  toolCallId : String
  toolName : String
  executionTarget : String
  tenantId : Option String
  metadata : Metadata

def handoffReady (run : Run) : Bool := run.workerId.isNone && run.metadata "drainHandoffReady" = some (.bool true)

def startStatus (run : Run) : ToolInvocationStatus :=
  if run.status = .cancelled then .cancelled
  else if run.status.isTerminal || handoffReady run then .failed
  else .running

def terminalError (run : Run) : Option String :=
  if run.status.isTerminal && run.status ≠ .cancelled then
    some ("run_already_terminal_before_tool_start status=" ++ statusText run.status)
  else if handoffReady run then some "run_handoff_ready_before_tool_start"
  else none

def startMetadata (metadata : Metadata) (run : Run) : Metadata :=
  let terminal := if run.status.isTerminal then metadata.put "terminalRunStatus" (.text (statusText run.status)) else metadata
  if run.status = .cancelled then terminal.put "cancelRecovery" (.text "late_start") else terminal

/-- The row that the `INSERT` proposes. -/
def excluded (input : StartToolInvocationInput) (run : Run) (now : Int) : Invocation where
  runId := input.runId
  sessionId := input.sessionId
  toolCallId := input.toolCallId
  toolName := input.toolName
  executionTarget := input.executionTarget
  tenantId := input.tenantId.getD defaultTenantId
  status := startStatus run
  startedAt := now
  updatedAt := now
  completedAt := if startStatus run = .running then none else some now
  cancelRequestedAt := if run.status = .cancelled then some now else none
  cancelReason := if run.status = .cancelled then some "run_already_cancelled_before_tool_start" else none
  cancelDeliveredAt := none
  error := terminalError run
  metadata := startMetadata input.metadata run
  startedLate := false
  completedLate := false

/-- What `ON CONFLICT` takes from the metadata of the proposed row. -/
def conflictMetadata (existing : Invocation) (metadata : Metadata) : Metadata :=
  let patch := if existing.status = .running then metadata else (metadata.without "cancelRecovery").without "terminalRunStatus"
  if (existing.metadata "invokeClaimedAt").isSome then
    existing.metadata.merge (((patch.without "workerId").without "invokeClaimedAt").without "invokeClaimedByWorkerId")
  else existing.metadata.merge patch

/-- `ON CONFLICT (invocation_id) DO UPDATE SET ...` -/
def conflictRow (tenantGiven : Bool) (excluded existing : Invocation) : Invocation :=
  let ends := excluded.status ≠ .running ∧ existing.status = .running
  let cancels := excluded.status = .cancelled ∧ existing.status = .running
  let fails := excluded.status = .failed ∧ existing.status = .running
  { existing with
    updatedAt := excluded.updatedAt
    tenantId := if tenantGiven then excluded.tenantId else existing.tenantId
    status := if ends then excluded.status else existing.status
    completedAt := if ends then existing.completedAt <|> excluded.completedAt else existing.completedAt
    cancelRequestedAt :=
      if cancels then existing.cancelRequestedAt <|> excluded.cancelRequestedAt else existing.cancelRequestedAt
    cancelReason := if cancels then existing.cancelReason <|> excluded.cancelReason else existing.cancelReason
    error := if fails then existing.error <|> excluded.error else existing.error
    metadata := conflictMetadata existing excluded.metadata }

def insertInvocation (input : StartToolInvocationInput) (run : Run) (now : Int) : Query Unit where
  locks _ := [.invocation input.invocationId]
  result _ := ()
  write snapshot db :=
    let row := excluded input run now
    { db with
      invocations :=
        if (snapshot.invocations.row input.invocationId).isSome then
          db.invocations.modify fun key existing =>
            if key = input.invocationId then conflictRow input.tenantId.isSome row existing else existing
        else db.invocations.insert input.invocationId { row with startedLate := db.isCancelled input.runId } }

inductive ToolInvocationRunGateReason
  | runLeaseLost | invocationMissing | invocationClaimed | runMissing | runTerminal | invocationTerminal | cancelRequested
  deriving DecidableEq

inductive Reply
  | done
  | record (row : Option Invocation)
  | cancellation (row : Option (Invocation × Bool))
  | blocked (reason : ToolInvocationRunGateReason)
  /-- The callback was run. -/
  | invoked (runId invocationId : String) (expectedWorkerId : Option String)
  | thrown

def start (call : Nat) (input : StartToolInvocationInput) : Session Reply := do
  match ← query (selectRunForShare call input.runId) with
  | none =>
    rollback
    return .thrown
  | some run =>
    let outside ← receive
    query (insertInvocation input run outside.now)
    commit
    return .done

def leaseLost (run : Run) (expectedWorkerId : Option String) (clock : Int) : Bool :=
  match expectedWorkerId.filter (· ≠ "") with
  | none => false
  | some worker => run.status ≠ .running || run.workerId ≠ some worker || !run.leaseExpiresAt.any (clock < ·)

/-- `typeof value === 'string'` -/
def isString : Option Json → Bool
  | some (.text _) => true
  | _ => false

def gateBlock (run : Option Run) (invocation : Option Invocation) : Option ToolInvocationRunGateReason :=
  match invocation with
  | none => some .invocationMissing
  | some invocation =>
    if isString (invocation.metadata "invokeClaimedAt") then some .invocationClaimed
    else
      match run with
      | none => some .runMissing
      | some run =>
        if run.status.isTerminal then some .runTerminal
        else if invocation.status ≠ .running then some .invocationTerminal
        else if invocation.cancelRequestedAt.isSome then some .cancelRequested
        else none

def isClaimable (runId : String) (row : Invocation) : Bool :=
  row.runId = runId && row.status = .running && row.cancelRequestedAt.isNone && (row.metadata "invokeClaimedAt").isNone

def claimedMetadata (metadata : Metadata) (expectedWorkerId : Option String) (now : Int) : Metadata :=
  let claimed := metadata.put "invokeClaimedAt" (.text (timeText now))
  match expectedWorkerId <|> metadata.text "workerId" with
  | none => claimed
  | some worker => claimed.put "invokeClaimedByWorkerId" (.text worker)

def claimedRow (claim : Claim) (now : Int) (row : Invocation) : Invocation :=
  { row with updatedAt := now, metadata := claimedMetadata row.metadata claim.expectedWorkerId now }

def claimInvocation (claim : Claim) (now : Int) : Query Bool where
  locks db := if (db.invocations.row claim.invocationId).any (isClaimable claim.runId) then [.invocation claim.invocationId] else []
  result db := (db.invocations.row claim.invocationId).any (isClaimable claim.runId)
  write snapshot db :=
    if (snapshot.invocations.row claim.invocationId).any (isClaimable claim.runId) then
      { db with
        invocations := db.invocations.modify fun key row => if key = claim.invocationId then claimedRow claim now row else row
        claims := db.claims ++ [claim] }
    else db

/-- The callback is run last, when the claim is committed. The clock of the first statement may
be read before its lock is granted. -/
def invokeWithPgActiveRunGate (call : Nat) (runId invocationId : String) (expectedWorkerId : Option String) : Session Reply := do
  let clock ← query (.read (·.clock))
  let run ← query (selectRunForShare call runId)
  if run.any (leaseLost · expectedWorkerId clock) then
    commit
    return .blocked .runLeaseLost
  else
    let invocation ← query (selectInvocationForUpdate runId invocationId)
    match gateBlock run invocation with
    | some reason =>
      commit
      return .blocked reason
    | none =>
      let outside ← receive
      if ← query (claimInvocation ⟨call, runId, invocationId, expectedWorkerId, clock⟩ outside.now) then
        commit
        return .invoked runId invocationId expectedWorkerId
      else
        rollback
        return .blocked .invocationClaimed

/-! Completion and cancellation. -/

def completion (status : ToolInvocationStatus) (error : Option String) (runAlreadyCancelled : Bool) (now : Int) :
    InvocationUpdate where
  hits row := row.status = .running
  set db row :=
    { row with
      status := status
      updatedAt := now
      completedAt := some now
      error := error
      cancelRequestedAt := if runAlreadyCancelled then row.cancelRequestedAt <|> some now else row.cancelRequestedAt
      cancelReason :=
        if runAlreadyCancelled then row.cancelReason <|> some "run_cancelled_before_tool_completion" else row.cancelReason
      metadata :=
        if runAlreadyCancelled then row.metadata.put "cancelRecovery" (.text "complete_after_cancelled_run") else row.metadata
      completedLate := db.isCancelled row.runId }

def complete (call : Nat) (invocationId : String) (status : ToolInvocationStatus) (error : Option String) : Session Reply := do
  match ← query (.read fun db => (db.invocations.row invocationId).map (·.runId)) with
  | none =>
    commit
    return .record none
  | some runId =>
    match ← query (selectRunForShare call runId) with
    | none =>
      rollback
      return .thrown
    | some run =>
      let outside ← receive
      let row ← query (updateInvocation invocationId (completion status error (run.status = .cancelled) outside.now))
      commit
      return .record row

def requestCancel (invocationId : String) (reason : Option String) (metadataPatch : Metadata) : Session Reply := do
  let outside ← receive
  return .record (← execute (updateInvocation invocationId
    { hits := fun _ => true
      set := fun _ row =>
        { row with
          cancelRequestedAt := row.cancelRequestedAt <|> some outside.now
          cancelReason := row.cancelReason <|> reason
          updatedAt := outside.now
          metadata := row.metadata.merge metadataPatch } }))

/-- The `SET` list that the first requests share. -/
def cancelOnce (hits : Invocation → Bool) (reason : Option String) (metadataPatch : Metadata) (now : Int) : InvocationUpdate where
  hits row := row.cancelRequestedAt.isNone && hits row
  set _ row :=
    { row with
      cancelRequestedAt := some now
      cancelReason := row.cancelReason <|> reason
      updatedAt := now
      metadata := row.metadata.merge metadataPatch }

def existingCancellation (invocationId : String) : Session Reply := do
  let existing ← execute (.read fun db => (db.invocations.row invocationId).filter (·.cancelRequestedAt.isSome))
  return .cancellation (existing.map (·, false))

def requestCancelOnce (invocationId : String) (reason : Option String) (metadataPatch : Metadata) : Session Reply := do
  let outside ← receive
  match ← execute (updateInvocation invocationId (cancelOnce (fun _ => true) reason metadataPatch outside.now)) with
  | some row => return .cancellation (some (row, true))
  | none => existingCancellation invocationId

/-- The run is that of the statement's snapshot, which may be older than the row that is updated. -/
def selectCancelledAt (invocationId : String) : Query (Option Int) :=
  .read fun db => (db.invocations.row invocationId).bind fun row =>
    ((db.runs.row row.runId).filter (·.status = .cancelled)).bind (·.cancelledAt)

def requestCancelOnceAfterRunCancellation (invocationId : String) (reason : Option String) (metadataPatch : Metadata) :
    Session Reply := do
  let outside ← receive
  match ← query (selectCancelledAt invocationId) with
  | none => existingCancellation invocationId
  | some cancelledAt =>
    let late (row : Invocation) := row.status = .running || row.completedAt.any (cancelledAt ≤ ·)
    match ← execute (updateInvocation invocationId (cancelOnce late reason metadataPatch outside.now)) with
    | some row => return .cancellation (some (row, true))
    | none => existingCancellation invocationId

def claimCancelDelivery (invocationId claimId : String) (leaseMs : Int) : Session Reply := do
  let outside ← receive
  return .record (← execute (updateInvocation invocationId
    { hits := fun row => row.cancelRequestedAt.isSome && row.cancelDeliveredAt.isNone && outside.due
      set := fun _ row =>
        { row with
          updatedAt := outside.now
          metadata := (row.metadata.put "cancelDeliveryClaimId" (.text claimId)).put "cancelDeliveryClaimExpiresAt"
            (.text (timeText (outside.now + leaseMs))) } }))

def releaseDelivery (metadata metadataPatch : Metadata) : Metadata :=
  ((metadata.without "cancelDeliveryClaimId").without "cancelDeliveryClaimExpiresAt").merge metadataPatch

def isDeliveryOf (claimId : Option String) (row : Invocation) : Bool :=
  claimId.all fun claimId => row.metadata.text "cancelDeliveryClaimId" = some claimId

def markCancelDeliveryAttempt (invocationId : String) (metadataPatch : Metadata) (claimId : Option String) : Session Reply := do
  let outside ← receive
  return .record (← execute (updateInvocation invocationId
    { hits := isDeliveryOf claimId
      set := fun _ row => { row with updatedAt := outside.now, metadata := releaseDelivery row.metadata metadataPatch } }))

def markCancelDelivered (invocationId : String) (metadataPatch : Metadata) (claimId : Option String) : Session Reply := do
  let outside ← receive
  return .record (← execute (updateInvocation invocationId
    { hits := isDeliveryOf claimId
      set := fun _ row =>
        { row with
          cancelDeliveredAt := row.cancelDeliveredAt <|> some outside.now
          updatedAt := outside.now
          metadata := releaseDelivery row.metadata metadataPatch } }))

def insertRun (row : Run) : Query Unit where
  locks db := if (db.runs.row row.runId).isSome then [] else [.run row.runId]
  result _ := ()
  write snapshot db :=
    if (snapshot.runs.row row.runId).isSome then db else { db with runs := db.runs.insert row.runId row }

def updateRun (runId : String) (update : RowUpdate) : Query Bool where
  locks db := if (db.runs.row runId).any update.hits then [.run runId] else []
  result db := (db.runs.row runId).any update.hits
  write snapshot db :=
    { db with
      runs := db.runs.modify fun key row =>
        if key = runId && (snapshot.runs.row runId).any update.hits then update.set row else row }

def isOpen (runId : String) (row : Invocation) : Bool :=
  row.runId = runId && row.status = .running && row.cancelRequestedAt.isNone

/-- The invocations of a stopped run that are still running. -/
def cancelInvocations (runId reason : String) (metadataPatch : Metadata) (now : Int) : Query Unit where
  locks db := (db.invocations.select fun _ => isOpen runId).map .invocation
  result _ := ()
  write snapshot db :=
    { db with
      invocations := db.invocations.modify fun key row =>
        if (snapshot.invocations.select fun _ => isOpen runId).contains key then
          { row with
            cancelRequestedAt := some now
            cancelReason := row.cancelReason <|> some reason
            updatedAt := now
            metadata := row.metadata.merge metadataPatch }
        else row }

/-- The part of `cancelSteeringBeforeDispatchInternal` that is about the target run. -/
def cancelTargetRun (targetRunId reason : String) (metadataPatch : Metadata) (event : Bool) : Session Reply := do
  let outside ← receive
  if ← query (updateRun targetRunId (stopSteeringTarget reason outside.now)) then
    if event then
      query (cancelInvocations targetRunId reason metadataPatch outside.now)
      commit
      return .done
    else
      commit
      return .done
  else
    commit
    return .done

inductive Request
  | start (input : StartToolInvocationInput)
  | invokeWithActiveRunGate (runId invocationId : String) (expectedWorkerId : Option String)
  | complete (invocationId : String) (status : ToolInvocationStatus) (ended : status ≠ .running) (error : Option String)
  | requestCancel (invocationId : String) (reason : Option String) (metadataPatch : Metadata)
  | requestCancelOnce (invocationId : String) (reason : Option String) (metadataPatch : Metadata)
  | requestCancelOnceAfterRunCancellation (invocationId : String) (reason : Option String) (metadataPatch : Metadata)
  | claimCancelDelivery (invocationId claimId : String) (leaseMs : Int)
  | markCancelDeliveryAttempt (invocationId : String) (metadataPatch : Metadata) (claimId : Option String)
  | markCancelDelivered (invocationId : String) (metadataPatch : Metadata) (claimId : Option String)
  | enqueueRun (input : UpsertRunInput) (metadata : Metadata) (now : Int) (enqueueSeq : Nat)
  | changeRun (runId : String) (operation : StatusOperation) (expected : operation.expectsOpen)
  | cancelTargetRun (targetRunId reason : String) (metadataPatch : Metadata) (event : Bool)
  /-- Time passes. -/
  | tick (duration : Nat)

def Request.run (call : Nat) : Request → Session Reply
  | .start input => ToolInvocations.start call input
  | .invokeWithActiveRunGate runId invocationId expectedWorkerId =>
    invokeWithPgActiveRunGate call runId invocationId expectedWorkerId
  | .complete invocationId status _ error => ToolInvocations.complete call invocationId status error
  | .requestCancel invocationId reason metadataPatch => ToolInvocations.requestCancel invocationId reason metadataPatch
  | .requestCancelOnce invocationId reason metadataPatch => ToolInvocations.requestCancelOnce invocationId reason metadataPatch
  | .requestCancelOnceAfterRunCancellation invocationId reason metadataPatch =>
    ToolInvocations.requestCancelOnceAfterRunCancellation invocationId reason metadataPatch
  | .claimCancelDelivery invocationId claimId leaseMs => ToolInvocations.claimCancelDelivery invocationId claimId leaseMs
  | .markCancelDeliveryAttempt invocationId metadataPatch claimId =>
    ToolInvocations.markCancelDeliveryAttempt invocationId metadataPatch claimId
  | .markCancelDelivered invocationId metadataPatch claimId =>
    ToolInvocations.markCancelDelivered invocationId metadataPatch claimId
  | .enqueueRun input metadata now enqueueSeq => do
    execute (insertRun (pendingRun input metadata now enqueueSeq))
    return .done
  | .changeRun runId operation _ => do
    let _ ← execute (updateRun runId operation.update)
    return .done
  | .cancelTargetRun targetRunId reason metadataPatch event =>
    ToolInvocations.cancelTargetRun targetRunId reason metadataPatch event
  | .tick duration => do
    execute ⟨fun _ => [], fun _ => (), fun _ db => { db with clock := db.clock + duration }⟩
    return .done

def leaseColumns (run : Run) : RunStatus × Option String × Option Int := (run.status, run.workerId, run.leaseExpiresAt)

/-- No commit changes these columns of a row that another call shares. -/
def KeepsShared (others : Lock → Prop) (before after : Database) : Prop :=
  ∀ runId call, others (.share runId call) →
    (after.runs.row runId).map leaseColumns = (before.runs.row runId).map leaseColumns

def store : System Database Lock Outside Reply where
  admits call program := ∃ request : Request, program = request.run call
  permits _ others before after := KeepsShared others before after

end AgentSaas.ToolInvocations
