import AgentSaas.Runs.Database

/-! Who executes in a session: leases, the reaper, and the status changes of a run
that waits for a person. -/

namespace AgentSaas.Runs
open AgentSaas.Transactions AgentSaas.Tables

/-- One statement that locks the row before it decides, and returns it either way. -/
def updateLockedRun (runId : String) (update : RowUpdate) : Query (Option Run) where
  locks db := if (db.run runId).isSome then [.run runId] else []
  result db := (db.run runId).map update.apply
  write snapshot db :=
    { db with
      runs := db.runs.modify fun key row =>
        if key = runId && (snapshot.run runId).isSome then update.apply row else row }

namespace RunStore

def get (runId : String) : Session (Option Run) := execute (selectRun runId)

def markStatus (runId : String) (status : RunStatus) (reason : Option String) (patch : Metadata) :
    Session (Option Run) :=
  if status = .cancelled then do
    match ← query (lockRun runId) with
    | none =>
      commit
      return none
    | some existing =>
      if existing.status.isTerminal && existing.status ≠ .cancelled then
        commit
        return some existing
      else
        let outside ← receive
        let updated ← query (updateRun runId fun _ => markStatusCancelled reason patch outside.now)
        commit
        return updated <|> some existing
  else do
    let outside ← receive
    execute (updateLockedRun runId (markRunStatus status reason patch outside.now))

def nonTerminalRunStatuses : List RunStatus := [.pending, .running, .waitingApproval, .waitingUser, .waitingHand]

def markStatusIfCurrent (runId : String) (expectedStatuses : List RunStatus) (status : RunStatus)
    (reason : Option String) (patch : Metadata) (leaseAuthority : Option RunLeaseAuthority) : Session (Option Run) := do
  let outside ← receive
  execute (updateRun runId fun _ =>
    markRunStatusIfCurrent expectedStatuses status reason patch leaseAuthority outside.now)

def claimPersistedInteractionResume (runId : String) (expectedStatuses : List RunStatus) (reason : String)
    (patch : Metadata) : Session (Option Run) := do
  let outside ← receive
  execute (updateRun runId fun _ => Runs.claimPersistedInteractionResume expectedStatuses reason patch outside.now)

def renewLease (runId : String) (request : LeaseRequest) (source : RunHeartbeatSource) : Session (Option Run) :=
  execute (updateRun runId fun _ => renewRunLease request source)

def releaseLease (runId workerId : String) (finalStatus : Option RunStatus) (reason leaseToken : Option String) :
    Session (Option Run) := do
  let outside ← receive
  execute (updateRun runId fun _ => releaseRunLease workerId finalStatus reason leaseToken outside.now)

structure RunLeaseAdmission where
  foreground : Bool
  foregroundReservedRuns : Int
  inheritFromRunId : Option String
  deriving DecidableEq, Repr

structure RunLeaseIdentity where
  tenantId : String
  sessionId : String
  deriving DecidableEq, Repr

def isLeased (row : Run) (now : Int) : Bool := row.status = .running && row.leaseExpiresAt.any (now < ·)

def hasInheritedCapacity (row : Run) : Bool := row.metadata.text "subagentCapacityInherited" = some "true"

/-- Whether the parent runs, the child is its own, and no sibling has the parent's slot. -/
def selectEligibility (parentRunId runId : String) (now : Int) : Query (Bool × Bool × Bool) :=
  .read fun db =>
    ((db.run parentRunId).any (isLeased · now),
      (db.run runId).any fun row =>
        row.metadata.text "subagent" = some "true" && row.metadata.text "parentRunId" = some parentRunId,
      db.runs.has fun key row => key ≠ runId && isLeased row now && hasInheritedCapacity row &&
        row.metadata.text "parentRunId" = some parentRunId)

/-- A run in its parent's slot is not counted. -/
def countActive (now : Int) : Query Int :=
  .read fun db => (db.runs.select fun _ row => isLeased row now &&
    !(hasInheritedCapacity row &&
      ((row.metadata.text "parentRunId").bind db.run).any (isLeased · now))).length

def selectCandidate (runId : String) (identity : Option RunLeaseIdentity) : Query (Option (String × String)) :=
  .read fun db => ((db.run runId).filter fun row =>
    identity.all fun known => row.tenantId = known.tenantId && row.sessionId = known.sessionId).map fun row =>
      (row.tenantId, row.sessionId)

end RunStore

/-- `runLeaseBlockersClearedSql` -/
def Database.blockersCleared (db : Database) (runId : String) (candidate : Run) : Bool :=
  let sameSession := fun (row : Run) => row.tenantId = candidate.tenantId && row.sessionId = candidate.sessionId
  let predecessor := db.runs.has fun key row => sameSession row && row.status = .pending && key ≠ runId &&
    row.enqueueSeq < candidate.enqueueSeq
  let active := db.runs.has fun key row => sameSession row && key ≠ runId && row.status.isExecuting
  let steering := db.inputs.has fun source input =>
    source = runId && input.tenantId = candidate.tenantId && input.sessionId = candidate.sessionId &&
      (db.run input.targetRunId).any fun target =>
        sameSession target &&
          (input.state = .reserved && !target.status.isTerminal ||
            input.state = .pending && target.status.isSteeringTarget &&
              (target.metadata.text "steeringInputWindow").getD "open" = "open")
  (candidate.status ≠ .pending || !predecessor) && !active && !steering

namespace RunStore

/-- Foreground runs may take the reserved slots too. -/
def admitByCount (now maximum : Int) (admission : Option RunLeaseAdmission) : Session (Option Bool) := do
  let active ← query (countActive now)
  let reserved :=
    if admission.any (·.foreground) then 0
    else min (max 0 ((admission.map (·.foregroundReservedRuns)).getD 0)) (max 0 (maximum - 1))
  return if active ≥ maximum - reserved then none else some false

/-- `some inherits` when the run may take a slot. -/
def admitCapacity (runId : String) (now : Int) (maxConcurrentRuns : Option Int) (admission : Option RunLeaseAdmission) :
    Session (Option Bool) :=
  match maxConcurrentRuns with
  | none => return some false
  | some maximum => do
    query (.lock (fun _ => [.capacity]) fun _ => ())
    match ((admission.bind (·.inheritFromRunId)).map trim).filter (· ≠ "") with
    | none => admitByCount now maximum admission
    | some parentRunId =>
      let (parentActive, candidateEligible, inheritedActive) ← query (selectEligibility parentRunId runId now)
      if !parentActive || !candidateEligible then return none
      else if inheritedActive then admitByCount now maximum admission
      else return some true

def refused : Session (Except String (Option Run)) := do
  rollback
  return .ok none

/-- The `UPDATE` under the session's dispatch lock. -/
def takeLease (runId : String) (request : LeaseRequest) (inherits : Bool) : Query (Option Run) :=
  updateRun runId fun db =>
    Runs.acquireLease request inherits (db.runningTool runId) ((db.run runId).any (db.blockersCleared runId))

def acquireLease (runId : String) (request : LeaseRequest) (maxConcurrentRuns : Option Int)
    (admission : Option RunLeaseAdmission) (identity : Option RunLeaseIdentity) :
    Session (Except String (Option Run)) := do
  if maxConcurrentRuns.any (· < 1) then return .error "maxConcurrentRuns must be a positive integer"
  else
    match ← admitCapacity runId request.now maxConcurrentRuns admission with
    | none => refused
    | some inherits =>
      match ← query (selectCandidate runId identity) with
      | none => refused
      | some (tenantId, sessionId) =>
        if tenantId = "" || sessionId = "" then refused
        else
          query (.lock (fun _ => [.dispatch tenantId sessionId]) fun _ => ())
          let leased ← query (takeLease runId request inherits)
          commit
          return .ok leased

/-- The rows that `SKIP LOCKED` leaves, in the statement's order, up to its limit. -/
def lockFree (unlocked : List String) (limit : Nat) (wanted : Run → Bool) : Query (List String) :=
  let chosen := fun (db : Database) => (unlocked.filter fun key => (db.run key).any wanted).take limit
  .lock (fun db => (chosen db).map .run) chosen

def isRepairable (row : Run) : Bool :=
  row.status = .orphaned && row.metadata.text "livenessTerminalizedBy" = some "reaper" &&
    (row.metadata "terminalEventOutbox").isNone

def reapExpiredLiveness (now staleGraceMs : Int) (limit : Nat) : Session (List String × List String) := do
  let boundedLimit := min (max limit 1) 500
  let first ← receive
  let repairable ← query (lockFree first.unlocked boundedLimit isRepairable)
  let second ← receive
  let orphaned ← query (updateRuns (fun key _ => (second.unlocked.take (boundedLimit - repairable.length)).contains key)
    fun db key => reapOrphaned (now - max 0 staleGraceMs) (db.runningTool key) second.now)
  let third ← receive
  let stale ← query (updateRuns
    (fun key _ => (third.unlocked.take (boundedLimit - repairable.length - orphaned.length)).contains key)
    fun _ _ => reapStale now)
  commit
  return (stale.map (·.1), repairable ++ orphaned.map (·.1))

/-! Status changes that follow an event. -/

inductive StateEvent where
  | approvalRequested (approvalId : String)
  | approvalResolved (approvalId : String)
  | interactionRequested (askUser : Bool) (interactionId : String)
  | interactionResolved (askUser : Bool) (interactionId : String)
  | other
  deriving DecidableEq, Repr

def stateAfterEvent : StateEvent → Option (RunStatus × String)
  | .approvalRequested approvalId => some (.waitingApproval, s!"approval:{approvalId}")
  | .approvalResolved approvalId => some (.running, s!"approval_resolved:{approvalId}")
  | .interactionRequested true interactionId => some (.waitingUser, s!"interaction:{interactionId}")
  | .interactionResolved true interactionId => some (.running, s!"interaction_resolved:{interactionId}")
  | _ => none

/-- The result says whether a `run_state_changed` event follows. -/
def trackRunStateAfterEvent (runId : String) (event : StateEvent) : Session Bool := do
  match stateAfterEvent event with
  | none => return false
  | some (status, reason) =>
    let before ← get runId
    if before.any (·.status.isTerminal) then return false
    else
      let updated ← markStatus runId status (some reason) .empty
      return updated.any (·.status = status)

/-- The claim of a terminal status; `patch` is the outbox. Delivering the outbox
afterwards changes no status. -/
def finalizeTerminalRun (runId : String) (status : RunStatus) (reason : Option String) (patch : Metadata)
    (stateOnlyRepair : Bool) : Session Bool := do
  let _ ← get runId
  let updated ←
    if stateOnlyRepair then do
      let outside ← receive
      execute (updateRun runId fun _ => claimStateOnlyTerminalOutbox status reason patch outside.now)
    else markStatusIfCurrent runId nonTerminalRunStatuses status reason patch none
  return updated.isSome

def markRunState (runId : String) (status : RunStatus) (reason : Option String) (patch : Metadata) : Session Bool := do
  let _ ← get runId
  if status.isTerminal then finalizeTerminalRun runId status reason patch false
  else
    let updated ← markStatus runId status reason .empty
    return updated.any (·.status = status)

end RunStore

/-! The calls that meet in a session. -/

namespace Dispatch

inductive Request where
  | enqueue (row : Run)
  | acquireLease (runId : String) (request : LeaseRequest) (maxConcurrentRuns : Option Int)
      (admission : Option RunStore.RunLeaseAdmission) (identity : Option RunStore.RunLeaseIdentity)
  | renewLease (runId : String) (request : LeaseRequest) (source : RunHeartbeatSource)
  | releaseLease (runId workerId : String) (finalStatus : Option RunStatus) (reason leaseToken : Option String)
  | reapExpiredLiveness (now staleGraceMs : Int) (limit : Nat)
  | trackRunStateAfterEvent (runId : String) (event : RunStore.StateEvent)
  | markRunState (runId : String) (status : RunStatus) (reason : Option String) (patch : Metadata)
  | claimPersistedInteractionResume (runId : String) (expectedStatuses : List RunStatus) (reason : String)
      (patch : Metadata)
  | finalizeTerminalRun (runId : String) (status : RunStatus) (reason : Option String) (patch : Metadata)
      (stateOnlyRepair : Bool)
  /-- Any writer of the steering and tool tables, which the gate reads. -/
  | changeOthers (inputs : Table String SteeringInput → Table String SteeringInput)
      (invocations : Table String ToolInvocation → Table String ToolInvocation)

inductive Reply where
  | row (run : Option Run)
  | leased (result : Except String (Option Run))
  | reaped (stale orphaned : List String)
  | done (changed : Bool)

def changeOthers (inputs : Table String SteeringInput → Table String SteeringInput)
    (invocations : Table String ToolInvocation → Table String ToolInvocation) : Query Unit where
  locks _ := []
  result _ := ()
  write _ db := { db with inputs := inputs db.inputs, invocations := invocations db.invocations }

def Request.run : Request → Session Reply
  | .enqueue row => do return .done (← execute (insertRun { row with status := .pending }))
  | .acquireLease runId request maxConcurrentRuns admission identity => do
    return .leased (← RunStore.acquireLease runId request maxConcurrentRuns admission identity)
  | .renewLease runId request source => do return .row (← RunStore.renewLease runId request source)
  | .releaseLease runId workerId finalStatus reason leaseToken => do
    return .row (← RunStore.releaseLease runId workerId finalStatus reason leaseToken)
  | .reapExpiredLiveness now staleGraceMs limit => do
    let (stale, orphaned) ← RunStore.reapExpiredLiveness now staleGraceMs limit
    return .reaped stale orphaned
  | .trackRunStateAfterEvent runId event => do return .done (← RunStore.trackRunStateAfterEvent runId event)
  | .markRunState runId status reason patch => do return .done (← RunStore.markRunState runId status reason patch)
  | .claimPersistedInteractionResume runId expectedStatuses reason patch => do
    return .row (← RunStore.claimPersistedInteractionResume runId expectedStatuses reason patch)
  | .finalizeTerminalRun runId status reason patch stateOnlyRepair => do
    return .done (← RunStore.finalizeTerminalRun runId status reason patch stateOnlyRepair)
  | .changeOthers inputs invocations => do
    execute (Dispatch.changeOthers inputs invocations)
    return .done true

/-- The run executes in this session. -/
def Executes (tenantId sessionId : String) (db : Database) (runId : String) : Prop :=
  ∃ row, db.run runId = some row ∧ row.tenantId = tenantId ∧ row.sessionId = sessionId ∧ row.status.isExecuting

/-- Any number of calls; `permits` restricts the commits of a conditional result. -/
def store (permits : List Lock → (Lock → Prop) → Database → Database → Prop) : System Database Lock Outside Reply where
  admits _ program := ∃ request : Request, program = request.run
  permits := permits

/-- A commit without the session's dispatch lock may make a run execute only when
nobody executes in the session and nobody is acquiring a lease there. -/
def Quiet (tenantId sessionId : String) (own : List Lock) (others : Lock → Prop) (before after : Database) : Prop :=
  .dispatch tenantId sessionId ∉ own →
    ∀ runId, Executes tenantId sessionId after runId → ¬ Executes tenantId sessionId before runId →
      (∀ other, ¬ Executes tenantId sessionId before other) ∧ ¬ others (.dispatch tenantId sessionId)

end Dispatch

end AgentSaas.Runs
