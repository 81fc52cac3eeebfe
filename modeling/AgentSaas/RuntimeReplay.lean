import AgentSaas.Dictionaries
import AgentSaas.PlatformEvents

/-! The state of the tool calls of a session, folded from its events: what has been asked,
decided and answered of each call, by batches; and the log with its open calls closed. -/

namespace AgentSaas.RuntimeReplay
open Dictionaries
open PlatformEvents (ModelToolCall)

inductive ApprovalDecision where
  | approved | rejected | timeout
  deriving DecidableEq, Repr

structure ApprovalRequested where
  approvalId : String
  toolCallId : String
  toolId : String
  toolName : String
  displayName : Option String
  executionTarget : Option String
  input : String
  deriving DecidableEq, Repr

structure ApprovalResolved where
  approvalId : String
  decision : ApprovalDecision
  message : Option String
  deriving DecidableEq, Repr

inductive InteractionType where
  | approval | askUser | permissionRequest
  deriving DecidableEq, Repr

structure InteractionRequested where
  interactionId : String
  interactionType : InteractionType
  toolCallId : Option String
  deriving DecidableEq, Repr

structure ToolResult where
  toolCallId : String
  toolName : String
  content : String
  isError : Bool
  deriving DecidableEq, Repr

/-- `type`, with the fields of each that the replay reads; `other` has none of them. -/
inductive ReplayEventBody where
  | assistantToolCalls (toolCalls : List ModelToolCall)
  | approvalRequested (request : ApprovalRequested)
  | approvalResolved (resolution : ApprovalResolved)
  | toolResult (result : ToolResult)
  | interactionRequested (request : InteractionRequested)
  | interactionResolved (interactionId : String)
  | toolInvocationStarted (toolCallId : String)
  | toolInvocationCompleted (toolCallId : String)
  | runCancelRequested
  | runFinished
  | other (type : String)
  deriving DecidableEq, Repr

structure ReplayEvent where
  id : String
  timestamp : String
  runId : Option String
  sessionId : Option String
  body : ReplayEventBody
  deriving DecidableEq, Repr

def ReplayEvent.calls (event : ReplayEvent) : List ModelToolCall :=
  match event.body with
  | .assistantToolCalls toolCalls => toolCalls
  | _ => []

def ReplayEvent.answers (event : ReplayEvent) : Option String :=
  match event.body with
  | .toolResult result => some result.toolCallId
  | _ => none

/-- `sessionId && 'sessionId' in event && event.sessionId !== sessionId` -/
def isForeign (sessionId : String) (event : ReplayEvent) : Bool := sessionId ≠ "" && event.sessionId.any (· ≠ sessionId)

inductive ApprovalStatus where
  | pending
  | decided (decision : ApprovalDecision)
  deriving DecidableEq, Repr

structure ApprovalRecord where
  id : String
  sessionId : Option String
  runId : Option String
  toolCallId : String
  toolId : String
  toolName : String
  displayName : Option String
  executionTarget : Option String
  input : String
  status : ApprovalStatus
  createdAt : String
  resolvedAt : Option String
  message : Option String
  deriving DecidableEq, Repr

def recordApproval (records : Dictionary String ApprovalRecord) (event : ReplayEvent) : Dictionary String ApprovalRecord :=
  match event.body with
  | .approvalRequested request =>
    records.set request.approvalId
      { id := request.approvalId
        sessionId := event.sessionId
        runId := event.runId
        toolCallId := request.toolCallId
        toolId := request.toolId
        toolName := request.toolName
        displayName := request.displayName
        executionTarget := request.executionTarget
        input := request.input
        status := .pending
        createdAt := event.timestamp
        resolvedAt := none
        message := none }
  | .approvalResolved resolution =>
    match records.get resolution.approvalId with
    | none => records
    | some existing =>
      records.set resolution.approvalId
        { existing with
          status := .decided resolution.decision
          resolvedAt := some event.timestamp
          message := if resolution.message.any (· ≠ "") then resolution.message else existing.message }
  | _ => records

def buildApprovalRecordsFromEvents (events : List ReplayEvent) (sessionId : String) : List ApprovalRecord :=
  ((events.filter fun event => !isForeign sessionId event).foldl recordApproval .empty).values

def mergeApprovals (derived explicit : List ApprovalRecord) : List ApprovalRecord :=
  ((derived ++ explicit).foldl (fun merged approval => merged.set approval.id approval) Dictionary.empty).values

inductive RuntimeToolCallStatus where
  | pendingApproval | approvedPendingExecution | rejectedPendingResult | completed | unresolved
  deriving DecidableEq, Repr

structure RuntimeToolCallState where
  sessionId : Option String
  runId : Option String
  batchId : String
  toolCallId : String
  toolName : String
  call : ModelToolCall
  assistantEvent : ReplayEvent
  approvalRequest : Option ApprovalRequested
  approvalResolution : Option ApprovalResolved
  approval : Option ApprovalRecord
  toolResult : Option ReplayEvent
  interactionRequest : Option InteractionRequested
  interactionResolution : Option ReplayEvent
  invocationStarted : Option ReplayEvent
  invocationCompleted : Option ReplayEvent
  cancelRequested : Option ReplayEvent
  status : RuntimeToolCallStatus
  deriving DecidableEq, Repr

/-- What the loop over the events has found. -/
structure Found where
  toolCallsById : Dictionary String RuntimeToolCallState
  approvalRequestsByToolCallId : Dictionary String ApprovalRequested
  approvalResolutionsById : Dictionary String ApprovalResolved
  toolResultsByCallId : Dictionary String ReplayEvent
  interactionRequestsByToolCallId : Dictionary String InteractionRequested
  interactionResolutionsById : Dictionary String ReplayEvent
  invocationStartedByToolCallId : Dictionary String ReplayEvent
  invocationCompletedByToolCallId : Dictionary String ReplayEvent
  cancelRequestedByRunId : Dictionary String ReplayEvent
  lastRunFinished : Option ReplayEvent

def Found.nothing : Found := ⟨.empty, .empty, .empty, .empty, .empty, .empty, .empty, .empty, .empty, none⟩

def stateOf (event : ReplayEvent) (call : ModelToolCall) : RuntimeToolCallState where
  sessionId := event.sessionId
  runId := event.runId
  batchId := event.id
  toolCallId := call.id
  toolName := call.name
  call := call
  assistantEvent := event
  approvalRequest := none
  approvalResolution := none
  approval := none
  toolResult := none
  interactionRequest := none
  interactionResolution := none
  invocationStarted := none
  invocationCompleted := none
  cancelRequested := none
  status := .unresolved

def findEvent (found : Found) (event : ReplayEvent) : Found :=
  match event.body with
  | .assistantToolCalls toolCalls =>
    { found with
      toolCallsById := toolCalls.foldl (fun states call => states.set call.id (stateOf event call)) found.toolCallsById }
  | .approvalRequested request =>
    { found with approvalRequestsByToolCallId := found.approvalRequestsByToolCallId.set request.toolCallId request }
  | .approvalResolved resolution =>
    { found with approvalResolutionsById := found.approvalResolutionsById.set resolution.approvalId resolution }
  | .toolResult result => { found with toolResultsByCallId := found.toolResultsByCallId.set result.toolCallId event }
  | .interactionRequested request =>
    match request.toolCallId with
    | some toolCallId =>
      if toolCallId = "" then found
      else { found with interactionRequestsByToolCallId := found.interactionRequestsByToolCallId.set toolCallId request }
    | none => found
  | .interactionResolved interactionId =>
    { found with interactionResolutionsById := found.interactionResolutionsById.set interactionId event }
  | .toolInvocationStarted toolCallId =>
    { found with invocationStartedByToolCallId := found.invocationStartedByToolCallId.set toolCallId event }
  | .toolInvocationCompleted toolCallId =>
    { found with invocationCompletedByToolCallId := found.invocationCompletedByToolCallId.set toolCallId event }
  | .runCancelRequested =>
    match event.runId with
    | some runId =>
      if runId = "" then found
      else { found with cancelRequestedByRunId := found.cancelRequestedByRunId.set runId event }
    | none => found
  | .runFinished => { found with lastRunFinished := some event }
  | .other _ => found

def findEvents (events : List ReplayEvent) (sessionId : String) : Found :=
  (events.filter fun event => !isForeign sessionId event).foldl findEvent .nothing

def resolveToolCallStatus (approval : Option ApprovalRecord) (approvalResolution : Option ApprovalResolved)
    (toolResult : Option ReplayEvent) : RuntimeToolCallStatus :=
  if toolResult.isSome then .completed
  else
    match (approval.map (·.status)).or (approvalResolution.map fun resolution => ApprovalStatus.decided resolution.decision) with
    | some .pending => .pendingApproval
    | some (.decided .approved) => .approvedPendingExecution
    | some (.decided .rejected) | some (.decided .timeout) => .rejectedPendingResult
    | none => .unresolved

def completeState (found : Found) (approvals : List ApprovalRecord) (state : RuntimeToolCallState) : RuntimeToolCallState :=
  let approvalRequest := found.approvalRequestsByToolCallId.get state.toolCallId
  let approval :=
    match approvalRequest with
    | some request => (approvals.reverse.find? fun approval => approval.id = request.approvalId)
    | none => (approvals.reverse.find? fun approval => approval.toolCallId = state.toolCallId)
  let approvalResolution :=
    match approval, approvalRequest with
    | some approval, _ => found.approvalResolutionsById.get approval.id
    | none, some request => found.approvalResolutionsById.get request.approvalId
    | none, none => none
  let toolResult := found.toolResultsByCallId.get state.toolCallId
  let interactionRequest := found.interactionRequestsByToolCallId.get state.toolCallId
  { state with
    approvalRequest := approvalRequest
    approval := approval
    approvalResolution := approvalResolution
    toolResult := toolResult
    interactionRequest := interactionRequest
    interactionResolution := interactionRequest.bind fun request => found.interactionResolutionsById.get request.interactionId
    invocationStarted := found.invocationStartedByToolCallId.get state.toolCallId
    invocationCompleted := found.invocationCompletedByToolCallId.get state.toolCallId
    cancelRequested := state.runId.bind found.cancelRequestedByRunId.get
    status := resolveToolCallStatus approval approvalResolution toolResult }

inductive RuntimeToolCallBatchStatus where
  | closed | pendingApproval | waitingUser | running | «open»
  deriving DecidableEq, Repr

structure RuntimeToolCallBatchState where
  batchId : String
  sessionId : Option String
  runId : Option String
  assistantEvent : ReplayEvent
  toolCalls : List RuntimeToolCallState
  unclosedToolCalls : List RuntimeToolCallState
  pendingApprovals : List RuntimeToolCallState
  pendingInteractions : List RuntimeToolCallState
  status : RuntimeToolCallBatchStatus
  deriving DecidableEq, Repr

def enterBatch (batches : Dictionary String RuntimeToolCallBatchState) (state : RuntimeToolCallState) :
    Dictionary String RuntimeToolCallBatchState :=
  let batch := (batches.get state.batchId).getD
    { batchId := state.batchId
      sessionId := state.sessionId
      runId := state.runId
      assistantEvent := state.assistantEvent
      toolCalls := []
      unclosedToolCalls := []
      pendingApprovals := []
      pendingInteractions := []
      status := .open }
  batches.set state.batchId { batch with toolCalls := batch.toolCalls ++ [state] }

def isPendingInteraction (state : RuntimeToolCallState) : Bool :=
  state.interactionRequest.any (·.interactionType = .askUser) && state.interactionResolution.isNone

def resolveToolCallBatchStatus (batch : RuntimeToolCallBatchState) : RuntimeToolCallBatchStatus :=
  if batch.unclosedToolCalls = [] then .closed
  else if batch.pendingApprovals ≠ [] then .pendingApproval
  else if batch.pendingInteractions ≠ [] then .waitingUser
  else if batch.unclosedToolCalls.any fun state => state.invocationStarted.isSome && state.invocationCompleted.isNone then
    .running
  else .open

def completeBatch (batch : RuntimeToolCallBatchState) : RuntimeToolCallBatchState :=
  let sorted :=
    { batch with
      unclosedToolCalls := batch.toolCalls.filter (·.toolResult.isNone)
      pendingApprovals := batch.toolCalls.filter (·.status = RuntimeToolCallStatus.pendingApproval)
      pendingInteractions := batch.toolCalls.filter isPendingInteraction }
  { sorted with status := resolveToolCallBatchStatus sorted }

def enterCall (batches byCall : Dictionary String RuntimeToolCallBatchState) (state : RuntimeToolCallState) :
    Dictionary String RuntimeToolCallBatchState :=
  match batches.get state.batchId with
  | some batch => byCall.set state.toolCallId batch
  | none => byCall

structure RuntimeReplayState where
  sessionId : String
  events : List ReplayEvent
  toolCalls : List RuntimeToolCallState
  toolCallsById : Dictionary String RuntimeToolCallState
  toolCallBatches : List RuntimeToolCallBatchState
  toolCallBatchesById : Dictionary String RuntimeToolCallBatchState
  toolCallBatchByToolCallId : Dictionary String RuntimeToolCallBatchState
  pendingApprovals : List RuntimeToolCallState
  unclosedToolCalls : List RuntimeToolCallState
  lastRunFinished : Option ReplayEvent

def buildRuntimeReplayState (events : List ReplayEvent) (approvals : List ApprovalRecord) (sessionId : String) :
    RuntimeReplayState :=
  let derivedApprovals := mergeApprovals (buildApprovalRecordsFromEvents events sessionId) approvals
  let found := findEvents events sessionId
  let toolCallsById := found.toolCallsById.mapValues (completeState found derivedApprovals)
  let toolCalls := toolCallsById.values
  let toolCallBatchesById := (toolCalls.foldl enterBatch .empty).mapValues completeBatch
  { sessionId := sessionId
    events := events
    toolCalls := toolCalls
    toolCallsById := toolCallsById
    toolCallBatches := toolCallBatchesById.values
    toolCallBatchesById := toolCallBatchesById
    toolCallBatchByToolCallId := toolCalls.foldl (enterCall toolCallBatchesById) .empty
    pendingApprovals := toolCalls.filter (·.status = RuntimeToolCallStatus.pendingApproval)
    unclosedToolCalls := toolCalls.filter (·.toolResult.isNone)
    lastRunFinished := found.lastRunFinished }

def unclosedContent : String := "父会话结束前该工具调用未形成完整结果；记忆审查不会代为执行。"

def syntheticResult (sessionId : String) (event : ReplayEvent) (state : RuntimeToolCallState) : ReplayEvent where
  id := "memory-review-unclosed-" ++ state.toolCallId
  timestamp := event.timestamp
  runId := event.runId
  sessionId := some sessionId
  body := .toolResult
    { toolCallId := state.toolCallId
      toolName := state.toolName
      content := unclosedContent
      isError := true }

def enterUnclosed (unclosedByBatch : Dictionary String (List RuntimeToolCallState)) (state : RuntimeToolCallState) :
    Dictionary String (List RuntimeToolCallState) :=
  unclosedByBatch.set state.batchId ((unclosedByBatch.get state.batchId).getD [] ++ [state])

def closeEvent (sessionId : String) (unclosedByBatch : Dictionary String (List RuntimeToolCallState)) (event : ReplayEvent) :
    List ReplayEvent :=
  match event.body with
  | .assistantToolCalls _ =>
    event :: ((unclosedByBatch.get event.id).getD []).map (syntheticResult sessionId event)
  | _ => [event]

def closeUnfinishedReplayToolCalls (events : List ReplayEvent) (sessionId : String) : List ReplayEvent :=
  let replay := buildRuntimeReplayState events [] sessionId
  if replay.unclosedToolCalls = [] then events
  else events.flatMap (closeEvent sessionId (replay.unclosedToolCalls.foldl enterUnclosed .empty))

end AgentSaas.RuntimeReplay
