import AgentSaas.Dictionaries
import AgentSaas.Interleaving
import AgentSaas.PlatformEvents

/-! The relay of text and thinking to the event store. Deltas are collected until a batch is
full, a timer fires or another event comes, and the appends of a state form a chain. -/

namespace AgentSaas.OutboundStreamRelay
open Dictionaries Interleaving PlatformEvents

inductive StreamDeltaType
  | thinking
  | text
  deriving DecidableEq

/-- Contents are lists of UTF-16 units, and an absent content or `draftId` is empty. -/
inductive OutboundEvent
  | start (block : StreamDeltaType) (draftId : String)
  | delta (block : StreamDeltaType) (content : List Nat)
  | stop (block : StreamDeltaType)
  | draftReset (draftId : String) (attempt : Option Nat)
  | draftCommit (draftId : String)
  | done
  | error
  | other
  deriving DecidableEq

/-- The `assistant_stream_event` of a run, by its phase. -/
inductive StreamEvent
  | start (block : StreamDeltaType) (draftId : Option String)
  | delta (block : StreamDeltaType) (content : List Nat)
  | stop (block : StreamDeltaType)
  | reset (draftId : String) (attempt : Option Nat)
  | commit (draftId : String)
  deriving DecidableEq

def OutboundEvent.isStreamRelayEvent : OutboundEvent → Bool
  | .other => false
  | _ => true

def OutboundEvent.isFinal : OutboundEvent → Bool
  | .done | .error => true
  | _ => false

def toPlatformStreamEvent : OutboundEvent → Option StreamEvent
  | .start block draftId => some (.start block (if draftId = "" then none else some draftId))
  | .stop block => some (.stop block)
  | .draftReset draftId attempt => if draftId = "" then none else some (.reset draftId attempt)
  | .draftCommit draftId => if draftId = "" then none else some (.commit draftId)
  | .delta .. | .done | .error | .other => none

structure RelayRunContext where
  runId : String
  sessionId : String
  tenantId : Option String
  deriving DecidableEq

/-- The field `timer`: a timer that was cleared may still stand there. -/
inductive Timer
  | unset
  | running
  | cleared
  deriving DecidableEq

/-- The append chain is the events not appended yet and the number of those that were: it is
resolved up to a ticket once as many are through. -/
structure RelayState where
  sessionId : String
  tenantId : String
  pendingType : Option StreamDeltaType
  pendingContent : List Nat
  timer : Timer
  queue : List StreamEvent
  appended : Nat
  deriving DecidableEq

namespace RelayState

variable (state : RelayState)

def created (sessionId tenantId : String) : RelayState := ⟨sessionId, tenantId, none, [], .unset, [], 0⟩

/-- The event that a flush appends. -/
def pending : List StreamEvent :=
  match state.pendingType with
  | some block => if state.pendingContent = [] then [] else [.delta block state.pendingContent]
  | none => []

/-- `appendChain` as it stands. -/
def chain : Nat := state.appended + state.queue.length

def enqueueAppend (events : List StreamEvent) : RelayState := { state with queue := state.queue ++ events }

/-- `flushState` until it waits. -/
def flush : RelayState :=
  { state.enqueueAppend state.pending with timer := .unset, pendingType := none, pendingContent := [] }

/-- What `flushState` waits for. -/
def flushTicket : Nat := if state.pending = [] then 0 else state.flush.chain

def collect (block : StreamDeltaType) (content : List Nat) : RelayState :=
  { state with pendingType := some block, pendingContent := state.pendingContent ++ content }

def scheduleFlush : RelayState := { state with timer := if state.timer = .unset then .running else state.timer }

def clearTimer : RelayState := { state with timer := if state.timer = .unset then .unset else .cleared }

end RelayState

/-- What a publish waits for: the flush before text of the other type, the flush before any
other event, or an append of its own. -/
inductive Stage
  | switching
  | flushed
  | appended
  deriving DecidableEq

structure Wait where
  stage : Stage
  event : OutboundEvent
  ticket : Nat
  deriving DecidableEq

structure Row where
  sessionId : String
  tenantId : String
  event : StreamEvent
  deriving DecidableEq

/-- What there is of one run: the states made for it and its events in the store. The events
published and taken over so far, and the publish in progress, are kept for the record. -/
structure RunSide where
  made : List RelayState
  durable : List Row
  published : List OutboundEvent
  taken : List OutboundEvent
  publishing : Option (Nat × Wait)
  deriving DecidableEq

namespace RunSide

variable (side : RunSide)

def empty : RunSide := ⟨[], [], [], [], none⟩

def change (index : Nat) (f : RelayState → RelayState) : RunSide := { side with made := side.made.modify index f }

def flush (index : Nat) : RunSide := side.change index RelayState.flush

def wait (index : Nat) (wait : Wait) : RunSide × Option Wait :=
  ({ side with publishing := some (index, wait) }, some wait)

def finish : RunSide × Option Wait := ({ side with publishing := none }, none)

def take (event : OutboundEvent) : RunSide := { side with taken := side.taken ++ [event] }

def fill (maxBatchChars index : Nat) (state : RelayState) (block : StreamDeltaType) (content : List Nat) :
    RunSide × Option Wait :=
  let event := OutboundEvent.delta block content
  let collected := state.collect block content
  if maxBatchChars ≤ collected.pendingContent.length then
    ((side.take event).change index fun _ => collected.flush).wait index ⟨.appended, event, collected.flushTicket⟩
  else ((side.take event).change index fun _ => collected.scheduleFlush).finish

/-- `publish` from its state to its first wait. -/
def receive (maxBatchChars index : Nat) (event : OutboundEvent) : Option (RunSide × Option Wait) := do
  let state ← side.made[index]?
  let side := { side with published := side.published ++ [event] }
  match event with
  | .delta block content =>
    if content = [] then some (side.take event).finish
    else if state.pendingType.any (· ≠ block) then
      some ((side.flush index).wait index ⟨.switching, event, state.flushTicket⟩)
    else some (side.fill maxBatchChars index state block content)
  | event => some ((side.flush index).wait index ⟨.flushed, event, state.flushTicket⟩)

/-- `publish` from one wait to the next, or to its end. -/
def resume (maxBatchChars index : Nat) (wait : Wait) : Option (RunSide × Option Wait) := do
  let state ← side.made[index]?
  if state.appended < wait.ticket then none
  else
    match wait.stage, wait.event with
    | .switching, .delta block content => some (side.fill maxBatchChars index state block content)
    | .switching, _ => none
    | .flushed, event =>
      match toPlatformStreamEvent event with
      | some platformEvent =>
        let enqueued := state.enqueueAppend [platformEvent]
        some (((side.take event).change index fun _ => enqueued).wait index ⟨.appended, event, enqueued.chain⟩)
      | none => some (side.take event).finish
    | .appended, _ => some side.finish

/-- The first event of the chain is appended, or the store refuses it. -/
def append (index : Nat) (succeeded : Bool) : Option RunSide := do
  let state ← side.made[index]?
  match state.queue with
  | [] => none
  | event :: queue =>
    let side := side.change index fun state => { state with queue, appended := state.appended + 1 }
    some (if succeeded then { side with durable := side.durable ++ [⟨state.sessionId, state.tenantId, event⟩] } else side)

def fire (index : Nat) : Option RunSide := do
  let state ← side.made[index]?
  if state.timer = .running then some (side.flush index) else none

end RunSide

/-- One of the callbacks of `flushAll`; `chained` once it waits for the append chain. -/
structure FlushTask where
  runId : String
  index : Nat
  chained : Bool
  ticket : Nat
  deriving DecidableEq

/-- The map `states` leads from a run to one of the states made for it. For each `flushAll`
that is over it is kept how many events a run had published when it started, where no
publish of the run was in progress. -/
structure Shared where
  states : Dictionary String Nat
  sides : String → RunSide
  flushed : List (String → Option Nat)

namespace Shared

variable (shared : Shared)

def setSide (runId : String) (side : RunSide) : Shared :=
  { shared with sides := fun other => if other = runId then side else shared.sides other }

def remove (runId : String) (index : Nat) : Shared :=
  { shared.setSide runId ((shared.sides runId).change index RelayState.clearTimer) with
    states := shared.states.erase runId }

def getState (runId sessionId tenantId : String) : Option (Shared × Nat) :=
  let side := shared.sides runId
  match shared.states.get runId with
  | some index =>
    if side.made[index]?.any fun state => state.sessionId = sessionId ∧ state.tenantId = tenantId then
      some (shared, index)
    else none
  | none =>
    some ({ shared.setSide runId { side with made := side.made ++ [.created sessionId tenantId] } with
      states := shared.states.set runId side.made.length }, side.made.length)

def flushEach : Shared :=
  { shared with sides := fun runId =>
      match shared.states.get runId with
      | some index => (shared.sides runId).flush index
      | none => shared.sides runId }

def flushTasks : List FlushTask :=
  shared.states.entries.map fun entry =>
    ⟨entry.1, entry.2, false, ((shared.sides entry.1).made[entry.2]?).elim 0 RelayState.flushTicket⟩

/-- How much each run has published, where nothing is in progress. -/
def extent (runId : String) : Option Nat :=
  if (shared.sides runId).publishing = none then some (shared.sides runId).published.length else none

end Shared

inductive Call
  | publish (event : OutboundEvent) (context : RelayRunContext)
  | waiting (runId : String) (index : Nat) (wait : Wait)
  | flushAll
  | flushing (tasks : List FlushTask) (extent : String → Option Nat)
  | timer (runId : String) (index : Nat)
  | append (runId : String) (index : Nat)

inductive Move
  | next
  | task (place : Nat)
  | fail
  deriving DecidableEq

/-- The call's wait ends once the chain is through, and its state goes after the last event. -/
def settle (shared : Shared) (runId : String) (index : Nat) (event : OutboundEvent) (next : RunSide × Option Wait) :
    Shared × Option Call :=
  let shared := shared.setSide runId next.1
  match next.2 with
  | some wait => (shared, some (.waiting runId index wait))
  | none => (if event.isFinal then shared.remove runId index else shared, none)

def publish (maxBatchChars : Nat) (shared : Shared) (event : OutboundEvent) (context : RelayRunContext) :
    Option (Shared × Option Call) :=
  if !event.isStreamRelayEvent then some (shared, none)
  else
    match (context.tenantId.map trim).filter (· ≠ "") with
    | none => some (shared, none)
    | some tenantId =>
      match shared.getState context.runId context.sessionId tenantId with
      | none => some (shared, none)
      | some (shared, index) =>
        ((shared.sides context.runId).receive maxBatchChars index event).map
          (settle shared context.runId index event)

def stepTask (shared : Shared) (task : FlushTask) : Option (Shared × Option FlushTask) := do
  let state ← (shared.sides task.runId).made[task.index]?
  if state.appended < task.ticket then none
  else if task.chained then some (shared.remove task.runId task.index, none)
  else some (shared, some { task with chained := true, ticket := state.chain })

def advance (maxBatchChars : Nat) (shared : Shared) (call : Call) (move : Move) : Option (Shared × Option Call) :=
  match call, move with
  | .publish event context, .next => publish maxBatchChars shared event context
  | .waiting runId index wait, .next =>
    ((shared.sides runId).resume maxBatchChars index wait).map (settle shared runId index wait.event)
  | .flushAll, .next => some (shared.flushEach, some (.flushing shared.flushTasks shared.extent))
  | .flushing [] extent, .next => some ({ shared with flushed := shared.flushed ++ [extent] }, none)
  | .flushing tasks extent, .task place => do
    let task ← tasks[place]?
    let (shared, next) ← stepTask shared task
    match next with
    | some task => some (shared, some (.flushing (tasks.set place task) extent))
    | none => some (shared, some (.flushing (tasks.eraseIdx place) extent))
  | .timer runId index, .next => ((shared.sides runId).fire index).map fun side => (shared.setSide runId side, none)
  | .append runId index, .next =>
    ((shared.sides runId).append index true).map fun side => (shared.setSide runId side, none)
  | .append runId index, .fail =>
    ((shared.sides runId).append index false).map fun side => (shared.setSide runId side, none)
  | _, _ => none

def starts (_ : Shared) : Call → Prop
  | .waiting .. | .flushing .. => False
  | .publish .. | .flushAll | .timer .. | .append .. => True

instance (shared : Shared) (call : Call) : Decidable (starts shared call) := by
  unfold starts
  split <;> infer_instance

def relay (maxBatchChars : Nat) (permits : Shared → Call → Move → Prop) : System Shared Call Move :=
  ⟨starts, permits, advance maxBatchChars⟩

def Shared.initial : Shared := ⟨.empty, fun _ => .empty, []⟩

end AgentSaas.OutboundStreamRelay
