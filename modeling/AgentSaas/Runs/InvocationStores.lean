import AgentSaas.Runs.ToolInvocations

/-! The two stores of tool invocations, one that is a map in memory and one over the database, as
calls that do not overlap see them. A call reads and writes one invocation only. -/

namespace AgentSaas.InvocationStores
open Runs
open ToolInvocations (ToolInvocationStatus Invocation StartToolInvocationInput InvocationUpdate excluded conflictRow completion
  cancelOnce releaseDelivery isString)

structure ToolInvocationRecord where
  invocationId : String
  runId : String
  sessionId : String
  toolCallId : String
  toolName : String
  executionTarget : String
  tenantId : Option String
  status : ToolInvocationStatus
  startedAt : Int
  updatedAt : Int
  completedAt : Option Int
  cancelRequestedAt : Option Int
  cancelReason : Option String
  cancelDeliveredAt : Option Int
  error : Option String
  metadata : Metadata

inductive Reply (α : Type)
  | thrown
  | record (found : Option α)
  | cancellation (found : Option (α × Bool))

def Reply.map (f : α → β) : Reply α → Reply β
  | .thrown => .thrown
  | .record found => .record (found.map f)
  | .cancellation found => .cancellation (found.map fun pair => (f pair.1, pair.2))

/-- What a call answers, and what the store has of its invocation afterwards. -/
structure Answer (α : Type) where
  reply : Reply α
  stored : Option α

def update (existing changed : Option α) : Answer α := ⟨.record changed, changed.or existing⟩

/-- How the two stores read and write the times in the metadata. An `Invalid Date` has no text. -/
structure Dates where
  toISOString : Int → Option String
  parse : String → Option Int
  /-- `text::timestamptz`, which fails for a text that is no time. -/
  timestamptz : String → Option Int

def claimKeys : List String := ["cancelDeliveryClaimId", "cancelDeliveryClaimExpiresAt"]

namespace InMemory

def keepClaim (existing merged : Metadata) : Metadata :=
  if isString (existing "invokeClaimedAt") then fun key =>
    if key = "workerId" ∨ key = "invokeClaimedAt" ∨ key = "invokeClaimedByWorkerId" then existing key else merged key
  else merged

def start (existing : Option ToolInvocationRecord) (input : StartToolInvocationInput) (now : Int) : Answer ToolInvocationRecord :=
  let record : ToolInvocationRecord :=
    match existing with
    | some existing =>
      { existing with
        updatedAt := now
        tenantId := input.tenantId <|> existing.tenantId
        metadata := keepClaim existing.metadata (existing.metadata.merge input.metadata) }
    | none =>
      { invocationId := input.invocationId
        runId := input.runId
        sessionId := input.sessionId
        toolCallId := input.toolCallId
        toolName := input.toolName
        executionTarget := input.executionTarget
        tenantId := input.tenantId
        status := .running
        startedAt := now
        updatedAt := now
        completedAt := none
        cancelRequestedAt := none
        cancelReason := none
        cancelDeliveredAt := none
        error := none
        metadata := input.metadata }
  ⟨.record (some record), some record⟩

def complete (existing : Option ToolInvocationRecord) (status : ToolInvocationStatus) (error : Option String) (now : Int) :
    Answer ToolInvocationRecord :=
  update existing ((existing.filter (·.status = .running)).map fun record =>
    { record with
      status := status
      updatedAt := now
      completedAt := some now
      error := error.filter (· ≠ "") <|> record.error })

def requested (reason : Option String) (metadataPatch : Metadata) (now : Int) (record : ToolInvocationRecord) :
    ToolInvocationRecord :=
  { record with
    cancelRequestedAt := record.cancelRequestedAt <|> some now
    cancelReason := record.cancelReason <|> reason
    updatedAt := now
    metadata := record.metadata.merge metadataPatch }

def requestCancel (existing : Option ToolInvocationRecord) (reason : Option String) (metadataPatch : Metadata) (now : Int) :
    Answer ToolInvocationRecord :=
  update existing (existing.map (requested reason metadataPatch now))

def requestCancelOnce (existing : Option ToolInvocationRecord) (reason : Option String) (metadataPatch : Metadata) (now : Int) :
    Answer ToolInvocationRecord :=
  let record := existing.map (requested reason metadataPatch now)
  ⟨.cancellation (record.map fun record => (record, existing.all (·.cancelRequestedAt.isNone))), record.or existing⟩

def isDue (dates : Dates) (field : Option Json) (now : Int) : Bool :=
  match field with
  | some (.text text) => (dates.parse text).all (· ≤ now)
  | _ => true

def isClaimable (dates : Dates) (now : Int) (record : ToolInvocationRecord) : Bool :=
  record.cancelRequestedAt.isSome && record.cancelDeliveredAt.isNone &&
    isDue dates (record.metadata "cancelDeliveryNextAttemptAt") now &&
    isDue dates (record.metadata "cancelDeliveryClaimExpiresAt") now

def claimCancelDelivery (dates : Dates) (existing : Option ToolInvocationRecord) (claimId : String) (leaseMs now : Int) :
    Answer ToolInvocationRecord :=
  match existing.filter (isClaimable dates now) with
  | none => update existing none
  | some record =>
    match dates.toISOString (now + leaseMs) with
    | none => ⟨.thrown, existing⟩
    | some expiresAt =>
      update existing (some
        { record with
          updatedAt := now
          metadata := (record.metadata.put "cancelDeliveryClaimId" (.text claimId)).put "cancelDeliveryClaimExpiresAt"
            (.text expiresAt) })

/-- `!claimId || record.metadata.cancelDeliveryClaimId === claimId` -/
def isHeldBy (claimId : Option String) (record : ToolInvocationRecord) : Bool :=
  (claimId.filter (· ≠ "")).all fun claimId => record.metadata "cancelDeliveryClaimId" = some (.text claimId)

def released (metadata metadataPatch : Metadata) : Metadata :=
  ((metadata.merge metadataPatch).without "cancelDeliveryClaimId").without "cancelDeliveryClaimExpiresAt"

def markCancelDeliveryAttempt (existing : Option ToolInvocationRecord) (metadataPatch : Metadata) (claimId : Option String)
    (now : Int) : Answer ToolInvocationRecord :=
  update existing ((existing.filter (isHeldBy claimId)).map fun record =>
    { record with updatedAt := now, metadata := released record.metadata metadataPatch })

def markCancelDelivered (existing : Option ToolInvocationRecord) (metadataPatch : Metadata) (claimId : Option String)
    (now : Int) : Answer ToolInvocationRecord :=
  update existing ((existing.filter (isHeldBy claimId)).map fun record =>
    { record with cancelDeliveredAt := some now, updatedAt := now, metadata := released record.metadata metadataPatch })

end InMemory

/-! Over the database. -/

namespace Pg

def rowToRecord (invocationId : String) (row : Invocation) : ToolInvocationRecord where
  invocationId := invocationId
  runId := row.runId
  sessionId := row.sessionId
  toolCallId := row.toolCallId
  toolName := row.toolName
  executionTarget := row.executionTarget
  tenantId := some row.tenantId
  status := row.status
  startedAt := row.startedAt
  updatedAt := row.updatedAt
  completedAt := row.completedAt
  cancelRequestedAt := row.cancelRequestedAt
  cancelReason := row.cancelReason.filter (· ≠ "")
  cancelDeliveredAt := row.cancelDeliveredAt
  error := row.error.filter (· ≠ "")
  metadata := row.metadata

/-- The row that an `UPDATE ... RETURNING *` returns. -/
def execute (change : InvocationUpdate) (existing : Option Invocation) : Option Invocation :=
  (existing.filter change.hits).map (change.set .empty)

def start (runs : String → Option Run) (existing : Option Invocation) (input : StartToolInvocationInput) (now : Int) :
    Answer Invocation :=
  match runs input.runId with
  | none => ⟨.thrown, existing⟩
  | some run =>
    let proposed := excluded input run now
    let row := existing.elim proposed (conflictRow input.tenantId.isSome proposed)
    ⟨.record (some row), some row⟩

def complete (runs : String → Option Run) (existing : Option Invocation) (status : ToolInvocationStatus) (error : Option String)
    (now : Int) : Answer Invocation :=
  match existing with
  | none => update existing none
  | some row =>
    match runs row.runId with
    | none => ⟨.thrown, existing⟩
    | some run => update existing (execute (completion status error (run.status = .cancelled) now) existing)

def requestCancel (existing : Option Invocation) (reason : Option String) (metadataPatch : Metadata) (now : Int) :
    Answer Invocation :=
  update existing (existing.map fun row =>
    { row with
      cancelRequestedAt := row.cancelRequestedAt <|> some now
      cancelReason := row.cancelReason <|> reason
      updatedAt := now
      metadata := row.metadata.merge metadataPatch })

def requestCancelOnce (existing : Option Invocation) (reason : Option String) (metadataPatch : Metadata) (now : Int) :
    Answer Invocation :=
  match execute (cancelOnce (fun _ => true) reason metadataPatch now) existing with
  | some row => ⟨.cancellation (some (row, true)), some row⟩
  | none => ⟨.cancellation ((existing.filter (·.cancelRequestedAt.isSome)).map (·, false)), existing⟩

def isDue (dates : Dates) (metadata : Metadata) (field : String) (now : Int) : Option Bool :=
  match metadata.text field with
  | none => some true
  | some text => (dates.timestamptz text).map fun time => decide (time ≤ now)

def isClaimable (dates : Dates) (now : Int) (row : Invocation) : Option Bool :=
  if row.cancelRequestedAt.isSome && row.cancelDeliveredAt.isNone then
    match isDue dates row.metadata "cancelDeliveryNextAttemptAt" now with
    | some true => isDue dates row.metadata "cancelDeliveryClaimExpiresAt" now
    | other => other
  else some false

def claimCancelDelivery (dates : Dates) (existing : Option Invocation) (claimId : String) (leaseMs now : Int) :
    Answer Invocation :=
  match dates.toISOString (now + leaseMs) with
  | none => ⟨.thrown, existing⟩
  | some leaseExpiresAt =>
    match existing with
    | none => update existing none
    | some row =>
      match isClaimable dates now row with
      | none => ⟨.thrown, existing⟩
      | some false => update existing none
      | some true =>
        update existing (some
          { row with
            updatedAt := now
            metadata := (row.metadata.put "cancelDeliveryClaimId" (.text claimId)).put "cancelDeliveryClaimExpiresAt"
              (.text leaseExpiresAt) })

def isHeldBy (claimId : Option String) (row : Invocation) : Bool :=
  claimId.all fun claimId => row.metadata.text "cancelDeliveryClaimId" = some claimId

def markCancelDeliveryAttempt (existing : Option Invocation) (metadataPatch : Metadata) (claimId : Option String) (now : Int) :
    Answer Invocation :=
  update existing ((existing.filter (isHeldBy claimId)).map fun row =>
    { row with updatedAt := now, metadata := releaseDelivery row.metadata metadataPatch })

def markCancelDelivered (existing : Option Invocation) (metadataPatch : Metadata) (claimId : Option String) (now : Int) :
    Answer Invocation :=
  update existing ((existing.filter (isHeldBy claimId)).map fun row =>
    { row with
      cancelDeliveredAt := row.cancelDeliveredAt <|> some now
      updatedAt := now
      metadata := releaseDelivery row.metadata metadataPatch })

end Pg

inductive Call
  | start (input : StartToolInvocationInput)
  | complete (invocationId : String) (status : ToolInvocationStatus) (ended : status ≠ .running) (error : Option String)
  | requestCancel (invocationId : String) (reason : Option String) (metadataPatch : Metadata)
  | requestCancelOnce (invocationId : String) (reason : Option String) (metadataPatch : Metadata)
  | claimCancelDelivery (invocationId claimId : String) (leaseMs now : Int)
  | markCancelDeliveryAttempt (invocationId : String) (metadataPatch : Metadata) (claimId : Option String)
  | markCancelDelivered (invocationId : String) (metadataPatch : Metadata) (claimId : Option String)
  | get (invocationId : String)

def Call.invocationId : Call → String
  | .start input => input.invocationId
  | .complete invocationId .. | .requestCancel invocationId .. | .requestCancelOnce invocationId ..
  | .claimCancelDelivery invocationId .. | .markCancelDeliveryAttempt invocationId .. | .markCancelDelivered invocationId ..
  | .get invocationId => invocationId

def Call.inMemory (dates : Dates) (clock : Int) (existing : Option ToolInvocationRecord) : Call → Answer ToolInvocationRecord
  | .start input => InMemory.start existing input clock
  | .complete _ status _ error => InMemory.complete existing status error clock
  | .requestCancel _ reason metadataPatch => InMemory.requestCancel existing reason metadataPatch clock
  | .requestCancelOnce _ reason metadataPatch => InMemory.requestCancelOnce existing reason metadataPatch clock
  | .claimCancelDelivery _ claimId leaseMs now => InMemory.claimCancelDelivery dates existing claimId leaseMs now
  | .markCancelDeliveryAttempt _ metadataPatch claimId => InMemory.markCancelDeliveryAttempt existing metadataPatch claimId clock
  | .markCancelDelivered _ metadataPatch claimId => InMemory.markCancelDelivered existing metadataPatch claimId clock
  | .get _ => ⟨.record existing, existing⟩

def Call.pg (dates : Dates) (runs : String → Option Run) (clock : Int) (existing : Option Invocation) : Call → Answer Invocation
  | .start input => Pg.start runs existing input clock
  | .complete _ status _ error => Pg.complete runs existing status error clock
  | .requestCancel _ reason metadataPatch => Pg.requestCancel existing reason metadataPatch clock
  | .requestCancelOnce _ reason metadataPatch => Pg.requestCancelOnce existing reason metadataPatch clock
  | .claimCancelDelivery _ claimId leaseMs now => Pg.claimCancelDelivery dates existing claimId leaseMs now
  | .markCancelDeliveryAttempt _ metadataPatch claimId => Pg.markCancelDeliveryAttempt existing metadataPatch claimId clock
  | .markCancelDelivered _ metadataPatch claimId => Pg.markCancelDelivered existing metadataPatch claimId clock
  | .get _ => ⟨.record existing, existing⟩

/-- A call that both stores get, with the runs as they then are and a clock for each store. -/
structure Turn where
  call : Call
  runs : String → Option Run
  memoryClock : Int
  pgClock : Int

structure Stores where
  invocations : String → Option ToolInvocationRecord
  rows : String → Option Invocation

def Stores.empty : Stores := ⟨fun _ => none, fun _ => none⟩

def Stores.inMemory (stores : Stores) (dates : Dates) (turn : Turn) : Answer ToolInvocationRecord :=
  turn.call.inMemory dates turn.memoryClock (stores.invocations turn.call.invocationId)

def Stores.pg (stores : Stores) (dates : Dates) (turn : Turn) : Answer Invocation :=
  turn.call.pg dates turn.runs turn.pgClock (stores.rows turn.call.invocationId)

def Stores.next (stores : Stores) (dates : Dates) (turn : Turn) : Stores where
  invocations := Function.update stores.invocations turn.call.invocationId (stores.inMemory dates turn).stored
  rows := Function.update stores.rows turn.call.invocationId (stores.pg dates turn).stored

end AgentSaas.InvocationStores
