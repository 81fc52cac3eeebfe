import AgentSaas.Interleaving

/-! Login, logout and account deletion, one transaction at a time, over a journal that outlives
the process. Each await is a step. -/

namespace AgentSaas.AuthLifecycle
open Interleaving

structure AuthSessionBinding where
  authEpoch : Int
  generation : Int
  deriving DecidableEq, Repr

inductive AuthLifecycleOperation | login | logout | deleteAccount
  deriving DecidableEq, Repr

inductive AuthLifecycleStatus | running | committed | failedFenced
  deriving DecidableEq, Repr

inductive AuthTerminationStep | fenceGeneration | disconnectWs | stopQueue | clearCursorEpoch | clearCache | deleteToken
  deriving DecidableEq, Repr

def AuthTerminationStep.text : AuthTerminationStep → String
  | .fenceGeneration => "fence_generation"
  | .disconnectWs => "disconnect_ws"
  | .stopQueue => "stop_queue"
  | .clearCursorEpoch => "clear_cursor_epoch"
  | .clearCache => "clear_cache"
  | .deleteToken => "delete_token"

def AUTH_TERMINATION_STEPS : List AuthTerminationStep :=
  [.fenceGeneration, .disconnectWs, .stopQueue, .clearCursorEpoch, .clearCache, .deleteToken]

structure Failure where
  step : String
  message : String
  deriving DecidableEq, Repr

/-- Transactions are numbered in the order of the calls that asked for them. -/
structure AuthLifecycleJournal where
  transactionId : Nat
  operation : AuthLifecycleOperation
  status : AuthLifecycleStatus
  checkpoint : Nat
  binding : Option AuthSessionBinding
  failure : Option Failure
  deriving DecidableEq, Repr

inductive AuthEffect
  | termination (step : AuthTerminationStep)
  | deleteRemoteAccount
  | fenceUntilCommit
  | persistTokenAndBinding
  | installAuthenticatedState
  | commitConnections
  | failClosed
  deriving DecidableEq, Repr

/-- What happened, for the record: that a login began to run, an effect that was called and
whether it failed, and a termination whose journal says committed. -/
inductive Entry
  | started (transactionId : Nat)
  | effect (transactionId : Nat) (effect : AuthEffect) (ok : Bool)
  | committed (transactionId : Nat)
  deriving DecidableEq, Repr

inductive Stage
  /-- Waits for the transaction before. -/
  | queued
  | writing
  /-- `effects[step]()` -/
  | performing (step : AuthTerminationStep)
  | checkpointing (step : AuthTerminationStep)
  | deletingRemote
  | failing (failure : Failure)
  | committing
  | clearing
  /-- A login whose binding is no pair of positive numbers. -/
  | refusing
  | refused
  | fencing
  | recording
  | persisting
  | savingFirst
  | installing
  | savingSecond
  | committingLogin
  | connecting
  | clearingLogin
  | failClosing (message : String)
  | writingFailed (message : String)
  | settled
  deriving DecidableEq, Repr

/-- `existing` is the journal that a recovery goes on from. -/
structure Transaction where
  journal : AuthLifecycleJournal
  existing : Bool
  stage : Stage
  deriving DecidableEq, Repr

/-- `queue` is the chain of `active`, the running transaction first, and is lost with the
process. `stale` says for the record that a login began after the journal was written. -/
structure Shared where
  journal : Option AuthLifecycleJournal
  queue : List Transaction
  tickets : Nat
  process : Nat
  log : List Entry
  stale : Bool
  deriving DecidableEq, Repr

def Shared.empty : Shared := ⟨none, [], 0, 0, [], false⟩

/-- How an await ends. A write that fails may have been applied. -/
inductive Move
  | done
  | failed (applied : Bool) (message : String)
  deriving DecidableEq, Repr

def Move.ok : Move → Bool
  | .done => true
  | .failed .. => false

def Move.applied : Move → Bool
  | .done => true
  | .failed applied _ => applied

namespace Shared

def write (shared : Shared) (journal : AuthLifecycleJournal) (move : Move) : Shared :=
  if move.applied then { shared with journal := some journal, stale := false } else shared

def clear (shared : Shared) (move : Move) : Shared := if move.applied then { shared with journal := none } else shared

def record (shared : Shared) (entry : Entry) : Shared := { shared with log := shared.log ++ [entry] }

def perform (shared : Shared) (transactionId : Nat) (effect : AuthEffect) (move : Move) : Shared :=
  shared.record (.effect transactionId effect move.ok)

end Shared

/-- `Number.isSafeInteger(value) && value >= 1`, both ways. -/
def validBinding (binding : AuthSessionBinding) : Bool :=
  1 ≤ binding.authEpoch && binding.authEpoch ≤ 9007199254740991 &&
    1 ≤ binding.generation && binding.generation ≤ 9007199254740991

def newJournal (transactionId : Nat) (operation : AuthLifecycleOperation) (binding : Option AuthSessionBinding) :
    AuthLifecycleJournal :=
  ⟨transactionId, operation, .running, 0, binding, none⟩

/-- What follows the checkpoint: the next step, or the end of a termination. -/
def afterCheckpoint (remote : Bool) (journal : AuthLifecycleJournal) : Stage :=
  match AUTH_TERMINATION_STEPS[journal.checkpoint]? with
  | some step => .performing step
  | none => if journal.operation = .deleteAccount ∧ remote then .deletingRemote else .committing

def checkpointed (journal : AuthLifecycleJournal) (checkpoint : Nat) : AuthLifecycleJournal :=
  { journal with checkpoint, status := .running, failure := none }

def failedJournal (journal : AuthLifecycleJournal) (failure : Failure) : AuthLifecycleJournal :=
  { journal with status := .failedFenced, failure := some failure }

def begin (remote : Bool) (shared : Shared) (transaction : Transaction) : Shared × Stage :=
  match transaction.journal.operation with
  | .login =>
    ({ shared.record (.started transaction.journal.transactionId) with stale := true },
      if transaction.journal.binding.any validBinding then .fencing else .refusing)
  | .logout | .deleteAccount => (shared, if transaction.existing then afterCheckpoint remote transaction.journal else .writing)

/-- One await of `runTermination` or of `login`. `deleteRemoteAccount` may be absent. -/
def advanceTransaction (remote : Bool) (shared : Shared) (transaction : Transaction) (move : Move) : Shared × Transaction :=
  let journal := transaction.journal
  let id := journal.transactionId
  let goto (stage : Stage) : Transaction := { transaction with stage }
  match transaction.stage with
  | .queued =>
    let (after, stage) := begin remote shared transaction
    (after, goto stage)
  | .writing =>
    (shared.write journal move,
      match move with
      | .done => goto (afterCheckpoint remote journal)
      | .failed .. => goto .settled)
  | .performing step =>
    (shared.perform id (.termination step) move,
      match move with
      | .done => goto (.checkpointing step)
      | .failed _ message => goto (.failing ⟨step.text, message⟩))
  | .checkpointing step =>
    let next := checkpointed journal (journal.checkpoint + 1)
    (shared.write next move,
      match move with
      | .done => { transaction with journal := next, stage := afterCheckpoint remote next }
      | .failed _ message => goto (.failing ⟨step.text, message⟩))
  | .deletingRemote =>
    (shared.perform id .deleteRemoteAccount move,
      match move with
      | .done => goto .committing
      | .failed _ message => goto (.failing ⟨"delete_remote_account", message⟩))
  | .failing failure => (shared.write (failedJournal journal failure) move, goto .settled)
  | .committing =>
    let next := { journal with status := AuthLifecycleStatus.committed }
    (if move.applied then (shared.write next move).record (.committed id) else shared,
      match move with
      | .done => { transaction with journal := next, stage := .clearing }
      | .failed .. => goto .settled)
  | .clearing => (shared.clear move, goto .settled)
  | .refusing => (shared.perform id .fenceUntilCommit move, goto (if move.ok then .refused else .settled))
  | .refused => (shared.perform id .failClosed move, goto .settled)
  | .fencing =>
    (shared.perform id .fenceUntilCommit move,
      match move with
      | .done => goto .recording
      | .failed _ message => goto (.failClosing message))
  | .recording =>
    (shared.write journal move,
      match move with
      | .done => goto .persisting
      | .failed _ message => goto (.failClosing message))
  | .persisting =>
    (shared.perform id .persistTokenAndBinding move,
      match move with
      | .done => goto .savingFirst
      | .failed _ message => goto (.failClosing message))
  | .savingFirst =>
    let next := checkpointed journal 1
    (shared.write next move,
      match move with
      | .done => { transaction with journal := next, stage := .installing }
      | .failed _ message => goto (.failClosing message))
  | .installing =>
    (shared.perform id .installAuthenticatedState move,
      match move with
      | .done => goto .savingSecond
      | .failed _ message => goto (.failClosing message))
  | .savingSecond =>
    let next := checkpointed journal 2
    (shared.write next move,
      match move with
      | .done => { transaction with journal := next, stage := .committingLogin }
      | .failed _ message => goto (.failClosing message))
  | .committingLogin =>
    let next := { journal with status := AuthLifecycleStatus.committed, checkpoint := 3 }
    (shared.write next move,
      match move with
      | .done => { transaction with journal := next, stage := .connecting }
      | .failed _ message => { transaction with journal := next, stage := .failClosing message })
  | .connecting =>
    (shared.perform id .commitConnections move,
      match move with
      | .done => goto .clearingLogin
      | .failed _ message => goto (.failClosing message))
  | .clearingLogin =>
    (shared.clear move,
      match move with
      | .done => goto .settled
      | .failed _ message => goto (.failClosing message))
  | .failClosing message => (shared.perform id .failClosed move, goto (if move.ok then .writingFailed message else .settled))
  | .writingFailed message => (shared.write (failedJournal journal ⟨"login", message⟩) move, goto .settled)
  | .settled => (shared, transaction)

/-- The operation of the last transaction that waits is `activeOperation`. -/
def coalesces (shared : Shared) (operation : AuthLifecycleOperation) : Bool :=
  operation != .login && shared.queue.getLast?.any fun last => last.journal.operation == operation

/-- `serialize` of a new transaction, which may join one of its kind. -/
def serialize (shared : Shared) (operation : AuthLifecycleOperation) (binding : Option AuthSessionBinding) : Shared :=
  if coalesces shared operation then shared
  else
    { shared with
      queue := shared.queue ++ [⟨newJournal shared.tickets operation binding, false, .queued⟩]
      tickets := shared.tickets + 1 }

/-- `serialize` of a recovery. -/
def recover (shared : Shared) (journal : AuthLifecycleJournal) : Shared :=
  if coalesces shared journal.operation then shared
  else { shared with queue := shared.queue ++ [⟨journal, true, .queued⟩] }

inductive Task
  | login (binding : AuthSessionBinding)
  | logout
  | deleteAccount
  | resume
  | reading
  | read (journal : Option AuthLifecycleJournal)
  | clearing
  | failClosedIncompleteLogin
  | fencing (journal : AuthLifecycleJournal)
  | failClosing (journal : AuthLifecycleJournal)
  /-- The event loop: the running transaction goes on. -/
  | proceed
  /-- The process dies, and another one starts. -/
  | restart
  deriving DecidableEq, Repr

structure Call where
  process : Nat
  task : Task
  deriving DecidableEq, Repr

def afterRead (shared : Shared) : Option AuthLifecycleJournal → Shared × Option Task
  | none => (shared, none)
  | some journal =>
    if journal.status = .committed then (shared, some .clearing)
    else if journal.operation = .login then (shared, none)
    else (recover shared journal, none)

/-- The head of the queue goes on; one that is over leaves it. -/
def proceed (remote : Bool) (shared : Shared) (move : Move) : Shared :=
  match shared.queue with
  | [] => shared
  | head :: rest =>
    if head.stage = .settled then { shared with queue := rest }
    else
      let (after, next) := advanceTransaction remote shared head move
      { after with queue := next :: rest }

def perform (remote : Bool) (shared : Shared) (task : Task) (move : Move) : Shared × Option Task :=
  match task with
  | .login binding => (serialize shared .login (some binding), none)
  | .logout => (serialize shared .logout none, none)
  | .deleteAccount => (serialize shared .deleteAccount none, none)
  | .resume => (shared, if shared.queue.isEmpty then some .reading else none)
  | .reading => (shared, if move.ok then some (.read shared.journal) else none)
  | .read journal => afterRead shared journal
  | .clearing => (shared.clear move, none)
  | .failClosedIncompleteLogin =>
    (shared, if move.ok then
      (shared.journal.filter fun journal => journal.operation = .login ∧ journal.status ≠ .committed).map Task.fencing
    else none)
  | .fencing journal =>
    (shared.perform journal.transactionId .fenceUntilCommit move, if move.ok then some (.failClosing journal) else none)
  | .failClosing journal =>
    (shared.perform journal.transactionId .failClosed move, if move.ok then some .clearing else none)
  | .proceed => (proceed remote shared move, some .proceed)
  | .restart => ({ shared with queue := [], process := shared.process + 1 }, none)

/-- A call does not outlive its process. -/
def advance (remote : Bool) (shared : Shared) (call : Call) (move : Move) : Option (Shared × Option Call) :=
  if call.process = shared.process then
    let (after, rest) := perform remote shared call.task move
    some (after, rest.map fun task => ⟨call.process, task⟩)
  else none

def starts (shared : Shared) (call : Call) : Prop :=
  call.process = shared.process ∧
    match call.task with
    | .login _ | .logout | .deleteAccount | .resume | .failClosedIncompleteLogin | .proceed | .restart => True
    | .reading | .read _ | .clearing | .fencing _ | .failClosing _ => False

def service (remote : Bool) (permits : Shared → Call → Move → Prop) : System Shared Call Move :=
  ⟨starts, permits, advance remote⟩

end AgentSaas.AuthLifecycle
