import AgentSaas.Billing.Ledger
import AgentSaas.Cursors
import AgentSaas.Interleaving

/-! The projection of runtime events into usage and debits. Callers of one service share the
projection that is in flight, and the services of several processes share the store. -/

namespace AgentSaas.Billing.Projection
open Interleaving

structure ModelRequestDiagnostic where
  type : Option String
  outcome : Option String
  usage : Bool
  attemptId : Option String
  deriving DecidableEq

/-- The fields of `event_json` that the projection reads; `usage` says whether there is a usage object. -/
structure RuntimeUsageEventRow where
  globalSequence : Nat
  eventId : String
  eventType : String
  tenantId : String
  type : Option String
  status : Option String
  runId : Option String
  usage : Bool
  diagnostic : Option ModelRequestDiagnostic
  holdKey : Option String
  billingChargeKey : Option String
  deriving DecidableEq

inductive StoreCall
  | insertUsageEvent (idempotencyKey : String)
  | settleRunDebit (tenantId runId : String)
  | chargeFixedDebit (idempotencyKey : String)
  deriving DecidableEq

def projectAssistantUsageEvent (row : RuntimeUsageEventRow) : List StoreCall :=
  if row.usage then [.insertUsageEvent ("usage:event:v1:" ++ row.eventId)] else []

/-- A completed attempt is counted by its assistant event. -/
def projectFailedModelUsageEvent (row : RuntimeUsageEventRow) : List StoreCall :=
  match row.diagnostic with
  | none => []
  | some diagnostic =>
    if diagnostic.type ≠ some "finished" ∨ diagnostic.outcome = some "completed" ∨ ¬diagnostic.usage then []
    else [.insertUsageEvent ("usage:model-attempt:v1:" ++ (truthy diagnostic.attemptId).getD row.eventId)]

def projectMeteredToolUsage (row : RuntimeUsageEventRow) : List StoreCall :=
  let charge := (truthy row.billingChargeKey).getD <|
    match truthy row.holdKey with
    | some holdKey => "debit:tool:hold:v1:" ++ holdKey
    | none => "debit:tool:v1:" ++ row.eventId
  [.insertUsageEvent ("usage:event:v1:" ++ row.eventId), .chargeFixedDebit charge]

def shouldSettleOnRunState (row : RuntimeUsageEventRow) : Bool :=
  row.type = some "run_state_changed" &&
    (row.status = some "completed" || row.status = some "failed" || row.status = some "cancelled" || row.status = some "orphaned")

def isAssistantUsage (eventType : String) : Bool :=
  eventType = "assistant_message" || eventType = "assistant_tool_calls" || eventType = "image_understanding" ||
    eventType = "compaction_usage"

namespace RuntimeUsageEventRow

variable (row : RuntimeUsageEventRow)

def runKey : List (String × String) := ((truthy row.runId).map fun runId => (row.tenantId, runId)).toList

def projectedModelUsage : Bool := isAssistantUsage row.eventType || row.eventType = "model_request_finished"

/-- The keys that are added to `settledRunKeys`. -/
def settledKeys : List (String × String) := if row.projectedModelUsage then row.runKey else []

def storeCalls (settledRunKeys : List (String × String)) : List StoreCall :=
  (if isAssistantUsage row.eventType then projectAssistantUsageEvent row else []) ++
  (if row.eventType = "model_request_finished" then projectFailedModelUsageEvent row else []) ++
  row.settledKeys.map (fun run => .settleRunDebit run.1 run.2) ++
  (if row.eventType = "metered_tool_usage" then projectMeteredToolUsage row else []) ++
  if row.eventType = "run_finished" || shouldSettleOnRunState row then
    (row.runKey.filter (· ∉ row.settledKeys ++ settledRunKeys)).map fun run => .settleRunDebit run.1 run.2
  else []

end RuntimeUsageEventRow

/-- The committed events, the row of `runtime_events` in the projection state, and the calls that succeeded. -/
structure Store where
  events : List RuntimeUsageEventRow
  projectionState : Nat
  calls : List StoreCall

namespace Store

variable (store : Store)

def listUnprojectedRuntimeEvents (state limit : Nat) : List RuntimeUsageEventRow :=
  (Cursors.after (·.globalSequence) state store.events).take limit

/-- `GREATEST(last_global_sequence, EXCLUDED.last_global_sequence)` -/
def setProjectionState (lastGlobalSequence : Nat) : Store :=
  { store with projectionState := max store.projectionState lastGlobalSequence }

end Store

/-- What a projection awaits. A rejection is a result that is missing. -/
inductive ProjectionStage
  | starting (limit : Nat)
  | listing (limit lastProjectedSequence : Nat)
  | selecting (limit lastProjectedSequence state : Nat)
  | projecting (lastProjectedSequence : Nat) (calls : List StoreCall) (rows : List RuntimeUsageEventRow)
      (settledRunKeys : List (String × String))
  | storing (lastProjectedSequence : Nat)
  /-- The promise is settled, and its `finally` has not run yet. -/
  | settled (result : Option Nat)
  | cleared (result : Option Nat)

inductive Answer
  | fulfilled
  | rejected

/-- `runRuntimeProjection` from one await to the next. -/
def runRuntimeProjection (store : Store) : ProjectionStage → Option (Store × ProjectionStage)
  | .starting limit => some (store, .listing limit store.projectionState)
  | .listing limit last => some (store, .selecting limit last store.projectionState)
  | .selecting limit last state => some (store, .projecting last [] (store.listUnprojectedRuntimeEvents state limit) [])
  | .projecting last (call :: calls) rows settledRunKeys =>
    some ({ store with calls := store.calls ++ [call] }, .projecting last calls rows settledRunKeys)
  | .projecting last [] (row :: rows) settledRunKeys =>
    some (store, .projecting (max last row.globalSequence) (row.storeCalls settledRunKeys) rows
      (row.settledKeys ++ settledRunKeys))
  | .projecting last [] [] _ => some (store, if 0 < last then .storing last else .settled (some last))
  | .storing last => some (store.setProjectionState last, .settled (some last))
  | .settled result => some (store, .cleared result)
  | .cleared _ => none

def ProjectionStage.awaits : ProjectionStage → Bool
  | .starting _ | .listing .. | .selecting .. | .projecting _ (_ :: _) _ _ | .storing _ => true
  | .projecting _ [] _ _ | .settled _ | .cleared _ => false

structure RuntimeProjection where
  service : Nat
  stage : ProjectionStage

/-- The projections are numbered, and those that are over stay for the callers that wait for them. -/
structure Shared where
  store : Store
  projectionInFlight : Nat → Option Nat
  projections : List RuntimeProjection

namespace Shared

variable (shared : Shared)

def projectRuntimeEvents (service limit : Nat) : Shared × Nat :=
  match shared.projectionInFlight service with
  | some index => (shared, index)
  | none =>
    let index := shared.projections.length
    ({ shared with
        projectionInFlight := Function.update shared.projectionInFlight service (some index)
        projections := shared.projections ++ [⟨service, .starting limit⟩] }, index)

def put (index : Nat) (projection : RuntimeProjection) : Shared :=
  { shared with projections := shared.projections.set index projection }

/-- The `finally` of a settled projection. -/
def forget (index : Nat) (projection : RuntimeProjection) : Shared :=
  if shared.projectionInFlight projection.service = some index then
    { shared with projectionInFlight := Function.update shared.projectionInFlight projection.service none }
  else shared

def turn (index : Nat) (answer : Answer) : Option Shared := do
  let projection ← shared.projections[index]?
  match answer with
  | .rejected =>
    if projection.stage.awaits then some (shared.put index { projection with stage := .settled none }) else none
  | .fulfilled =>
    let (store, stage) ← runRuntimeProjection shared.store projection.stage
    let next := { shared with store := store }.put index { projection with stage := stage }
    match projection.stage with
    | .settled _ => return next.forget index projection
    | _ => return next

end Shared

def drainLimit : Nat := 2000

def maxBatches : Nat := 50

/-- The previous value is missing until it is read for the first time. A comparing call has the
current value and has not been resumed yet. -/
inductive DrainStage
  | reading (previous : Option Nat) (batch : Nat)
  | comparing (previous : Option Nat) (batch current : Nat)
  | waiting (previous batch projection : Nat)
  | returned
  | settled
  | decided

/-- A call of `drainRuntimeProjection`; with a run it is a call of `authorizeRun`. The events
that were committed before the call started are kept for the record. -/
structure Drain where
  service : Nat
  run : Option (String × String)
  before : List RuntimeUsageEventRow
  stage : DrainStage

def continues (previous : Option Nat) (current : Nat) : Bool := previous.all (· < current)

def drainRuntimeProjection (shared : Shared) (drain : Drain) : Option (Shared × Option Drain) :=
  match drain.stage with
  | .reading previous batch =>
    some (shared, some { drain with stage := .comparing previous batch shared.store.projectionState })
  | .comparing previous batch current =>
    if continues previous current then
      if batch < maxBatches then
        let (shared, projection) := shared.projectRuntimeEvents drain.service drainLimit
        some (shared, some { drain with stage := .waiting current batch projection })
      else some (shared, none)
    else some (shared, some { drain with stage := .returned })
  | .waiting previous batch projection =>
    match shared.projections[projection]? with
    | some ⟨_, .cleared (some _)⟩ => some (shared, some { drain with stage := .reading (some previous) (batch + 1) })
    | some ⟨_, .cleared none⟩ => some (shared, none)
    | _ => none
  | .returned =>
    drain.run.map fun run =>
      ({ shared with store := { shared.store with calls := shared.store.calls ++ [.settleRunDebit run.1 run.2] } },
        some { drain with stage := .settled })
  | .settled => some (shared, some { drain with stage := .decided })
  | .decided => none

def Drain.throws (drain : Drain) : Bool :=
  match drain.stage with
  | .reading .. | .settled => true
  | .returned => drain.run.isSome
  | .comparing .. | .waiting .. | .decided => false

inductive Call
  | append (row : RuntimeUsageEventRow)
  | project (service limit : Nat)
  /-- The event loop goes on with a projection. -/
  | turn (projection : Nat)
  | drain (drain : Drain)

def advance (shared : Shared) (call : Call) (answer : Answer) : Option (Shared × Option Call) :=
  match call with
  | .append row => some ({ shared with store := { shared.store with events := shared.store.events ++ [row] } }, none)
  | .project service limit => some ((shared.projectRuntimeEvents service limit).1, none)
  | .turn projection => (shared.turn projection answer).map fun after => (after, none)
  | .drain drain =>
    match answer with
    | .rejected => if drain.throws then some (shared, none) else none
    | .fulfilled => (drainRuntimeProjection shared drain).map fun next => (next.1, next.2.map .drain)

def starts (shared : Shared) : Call → Prop
  | .drain drain =>
    match drain.stage with
    | .reading none 0 => drain.before = shared.store.events
    | _ => False
  | .append _ | .project .. | .turn _ => True

instance (shared : Shared) (call : Call) : Decidable (starts shared call) := by
  unfold starts
  split
  · split <;> infer_instance
  all_goals infer_instance

def service (permits : Shared → Call → Answer → Prop) : System Shared Call Answer := ⟨starts, permits, advance⟩

/-- Events and a projection state, and no projection yet. -/
def Shared.initial (events : List RuntimeUsageEventRow) (projectionState : Nat) : Shared :=
  ⟨⟨events, projectionState, []⟩, fun _ => none, []⟩

end AgentSaas.Billing.Projection
