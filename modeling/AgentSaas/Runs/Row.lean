import Mathlib.Data.List.Basic
import Mathlib.Logic.Function.Basic

/-! One row of the runs table. Times are milliseconds, `NULL` is `none`, and the
`jsonb` column is a map of keys. -/

namespace AgentSaas.Runs

/-- The white space that `String.prototype.trim` removes. -/
def isSpace (char : Char) : Bool :=
  let code := char.toNat
  9 ≤ code && code ≤ 13 || code = 32 || code = 0xA0 || code = 0x1680 || 0x2000 ≤ code && code ≤ 0x200A ||
    code = 0x2028 || code = 0x2029 || code = 0x202F || code = 0x205F || code = 0x3000 || code = 0xFEFF

def trim (text : String) : String :=
  .ofList (((text.toList.dropWhile isSpace).reverse.dropWhile isSpace).reverse)

inductive RunStatus where
  | pending | running | waitingApproval | waitingUser | waitingHand
  | completed | failed | cancelled | orphaned
  deriving DecidableEq, Repr

namespace RunStatus

def isTerminal : RunStatus → Bool
  | .completed | .failed | .cancelled | .orphaned => true
  | _ => false

/-- `waiting_approval` and `waiting_user`, which give the lease back. -/
def isWaitingInteraction : RunStatus → Bool
  | .waitingApproval | .waitingUser => true
  | _ => false

def isExecuting : RunStatus → Bool
  | .running | .waitingHand => true
  | _ => false

/-- `ACTIVE_STEERING_TARGET_STATUSES` -/
def isSteeringTarget : RunStatus → Bool
  | .pending | .running | .waitingHand => true
  | _ => false

/-- `STOPPABLE_RUN_STATUS_SQL` -/
def isStoppable (status : RunStatus) : Bool := !status.isTerminal

end RunStatus

inductive LivenessState where
  | active | busy | stale | waitingInteraction | terminal | orphaned
  deriving DecidableEq, Repr

/-- `livenessStateForStatus` -/
def livenessStateForStatus : RunStatus → LivenessState
  | .orphaned => .orphaned
  | .completed | .failed | .cancelled => .terminal
  | .waitingApproval | .waitingUser => .waitingInteraction
  | .running | .waitingHand => .busy
  | .pending => .active

/-- A metadata value; an array or an object is kept as its text. -/
inductive Json where
  | null
  | bool (value : Bool)
  | number (value : Int)
  | text (value : String)
  | compound (source : String)
  deriving DecidableEq, Repr

abbrev Metadata := String → Option Json

namespace Metadata

def empty : Metadata := fun _ => none

/-- `metadata || jsonb_build_object(key, value)` -/
def put (metadata : Metadata) (key : String) (value : Json) : Metadata := Function.update metadata key (some value)

/-- `metadata - key` -/
def without (metadata : Metadata) (key : String) : Metadata := Function.update metadata key none

/-- `metadata || patch` -/
def merge (metadata patch : Metadata) : Metadata := fun key => (patch key).or (metadata key)

/-- `metadata->>key` -/
def text (metadata : Metadata) (key : String) : Option String :=
  match metadata key with
  | none | some .null => none
  | some (.bool true) => some "true"
  | some (.bool false) => some "false"
  | some (.number value) => some (toString value)
  | some (.text value) => some value
  | some (.compound source) => some source

@[simp] theorem put_self (metadata : Metadata) (key : String) (value : Json) :
    metadata.put key value key = some value := Function.update_self _ _ _

@[simp] theorem put_other (metadata : Metadata) {key other : String} (value : Json) (apart : other ≠ key) :
    metadata.put key value other = metadata other := Function.update_of_ne apart _ _

@[simp] theorem without_self (metadata : Metadata) (key : String) : metadata.without key key = none :=
  Function.update_self _ _ _

@[simp] theorem without_other (metadata : Metadata) {key other : String} (apart : other ≠ key) :
    metadata.without key other = metadata other := Function.update_of_ne apart _ _

end Metadata

structure Run where
  runId : String
  tenantId : String
  sessionId : String
  userId : Option String
  status : RunStatus
  statusReason : Option String
  model : Option String
  channel : Option String
  executionTarget : Option String
  workspaceId : Option String
  requestedAt : Int
  startedAt : Option Int
  updatedAt : Int
  completedAt : Option Int
  failedAt : Option Int
  cancelledAt : Option Int
  workerId : Option String
  leaseExpiresAt : Option Int
  lastHeartbeatAt : Option Int
  livenessState : Option LivenessState
  livenessReasonCode : Option String
  livenessDetectedAt : Option Int
  livenessVersion : Option Nat
  enqueueSeq : Nat
  metadata : Metadata

namespace Run

/-- `CASE WHEN liveness_version IS NULL THEN NULL ELSE value END` -/
def versioned (run : Run) (value : Option α) : Option α := run.livenessVersion.bind fun _ => value

/-- `CASE WHEN liveness_version IS NULL THEN NULL ELSE liveness_version + 1 END` -/
def nextVersion (run : Run) : Option Nat := run.livenessVersion.map (· + 1)

/-- The column that holds the time of a terminal status; an orphaned run has none. -/
def stamp (run : Run) : Option Int :=
  match run.status with
  | .completed => run.completedAt
  | .failed => run.failedAt
  | .cancelled => run.cancelledAt
  | _ => none

end Run

/-- `UPDATE runs SET ... WHERE ...`, on the row that the `WHERE` is about. No `SET`
list names the columns that identify a run. -/
structure RowUpdate where
  hits : Run → Bool
  set : Run → Run
  identity : ∀ run, (set run).runId = run.runId ∧ (set run).tenantId = run.tenantId ∧
    (set run).sessionId = run.sessionId := by exact fun _ => ⟨rfl, rfl, rfl⟩

namespace RowUpdate

def apply (update : RowUpdate) (run : Run) : Run := if update.hits run then update.set run else run

theorem apply_tenantId (update : RowUpdate) (run : Run) : (update.apply run).tenantId = run.tenantId := by
  unfold apply
  split
  · exact (update.identity run).2.1
  · rfl

theorem apply_sessionId (update : RowUpdate) (run : Run) : (update.apply run).sessionId = run.sessionId := by
  unfold apply
  split
  · exact (update.identity run).2.2
  · rfl

end RowUpdate

end AgentSaas.Runs
