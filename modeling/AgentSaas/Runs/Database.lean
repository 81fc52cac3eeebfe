import AgentSaas.Runs.StatusOperations
import AgentSaas.Tables
import AgentSaas.Transactions

/-! The tables of the run store and the statements that its operations share. -/

namespace AgentSaas.Runs
open AgentSaas.Transactions AgentSaas.Tables

inductive SteeringState where
  | pending | reserved | applied | cancelled | released
  deriving DecidableEq, Repr

/-- A row is found by its source run, which is also its `input_id`. -/
structure SteeringInput where
  tenantId : String
  targetRunId : String
  sessionId : String
  state : SteeringState
  acceptedAt : Int
  reservedAt : Option Int
  appliedAt : Option Int
  deriving DecidableEq, Repr

structure SteeringSession where
  tenantId : Option String
  stoppedAt : Int
  deriving DecidableEq, Repr

structure MessageSubmission where
  tenantId : String
  userScope : String
  clientMessageId : String
  runId : String
  sessionId : String
  deriving DecidableEq, Repr

/-- A row is found by its `invocation_id`. -/
structure ToolInvocation where
  runId : String
  toolCallId : String
  toolName : String
  running : Bool
  cancelRequestedAt : Option Int
  cancelReason : Option String
  deriving DecidableEq, Repr

/-- The runtime events that the operations below append or look for. -/
inductive PlatformEvent where
  | userMessage (runId : String) (interjectionSourceRunId : Option String)
  | interjectionApplied (runId sessionId : String) (sourceRunIds clientMsgIds : List String)
  | runCancelRequested (runId : Option String)
  | toolInvocationCancelRequested (runId invocationId toolCallId toolName reason : String)
  | runStateChanged (runId sessionId : String) (status : RunStatus) (previousStatus : Option RunStatus)
      (reason : Option String)
  deriving DecidableEq, Repr

structure Database where
  runs : Table String Run
  inputs : Table String SteeringInput
  sessions : Table String SteeringSession
  invocations : Table String ToolInvocation
  submissions : List MessageSubmission
  events : List PlatformEvent

def Database.empty : Database := ⟨.empty, .empty, .empty, .empty, [], []⟩

inductive Lock where
  | run (runId : String)
  | input (sourceRunId : String)
  | session (sessionId : String)
  | invocation (invocationId : String)
  | submission (userScope clientMessageId : String)
  /-- The advisory lock of `enqueueUserMessage` and of the steering writes. -/
  | message (tenantId sessionId : String)
  /-- The advisory lock of `acquireLease`. -/
  | dispatch (tenantId sessionId : String)
  | capacity
  /-- The global sequence of the event log. -/
  | events
  | rawKey (space key : String)
  deriving DecidableEq, Repr

/-- What a call gets from its clock, which rows `SKIP LOCKED` found free, and whether
a guard over tables that are not modelled let it pass. -/
structure Outside where
  now : Int
  unlocked : List String
  granted : Bool

abbrev Query := Statement Database Lock

abbrev Session := Program Database Lock Outside

namespace Database

def run (db : Database) (runId : String) : Option Run := db.runs.row runId

/-- `EXISTS (... invocation.run_id = run.run_id AND invocation.status = 'running')` -/
def runningTool (db : Database) (runId : String) : Bool :=
  db.invocations.has fun _ invocation => invocation.runId == runId && invocation.running

/-- The rows that an `UPDATE` hits. -/
def hits (db : Database) (wanted : String → Run → Bool) (update : Database → String → RowUpdate) : List String :=
  db.runs.select fun key row => wanted key row && (update db key).hits row

end Database

def selectRun (runId : String) : Query (Option Run) := .read (·.run runId)

/-- `SELECT ... FOR UPDATE` -/
def lockRun (runId : String) : Query (Option Run) :=
  .lock (fun db => if (db.run runId).isSome then [.run runId] else []) (·.run runId)

/-- `UPDATE ... WHERE ... RETURNING`. Which rows are hit, and what they are set to, is
read from the statement's snapshot. -/
def updateRuns (wanted : String → Run → Bool) (update : Database → String → RowUpdate) : Query (List (String × Run)) where
  locks db := (db.hits wanted update).map .run
  result db := (db.hits wanted update).filterMap fun key => (db.run key).map fun row => (key, (update db key).set row)
  write snapshot db :=
    { db with
      runs := db.runs.modify fun key row =>
        if (snapshot.hits wanted update).contains key then (update snapshot key).set row else row }

def updateRun (runId : String) (update : Database → RowUpdate) : Query (Option Run) where
  locks db := if (db.run runId).any (update db).hits then [.run runId] else []
  result db := ((db.run runId).filter (update db).hits).map (update db).set
  write snapshot db :=
    { db with
      runs := db.runs.modify fun key row =>
        if key = runId && (snapshot.run runId).any (update snapshot).hits then (update snapshot).set row else row }

/-- `INSERT ... ON CONFLICT (run_id) DO NOTHING`; the result says whether a row was made. -/
def insertRun (row : Run) : Query Bool where
  locks db := if (db.run row.runId).isSome then [] else [.run row.runId]
  result db := (db.run row.runId).isNone
  write snapshot db :=
    if (snapshot.run row.runId).isSome then db else { db with runs := db.runs.insert row.runId row }

end AgentSaas.Runs
