import AgentSaas.Dictionaries

/-! The business steps of a session: the snapshots that its todo calls write, and the events that
tell one snapshot from the last, each at the place in the session where it is to be shown. -/

namespace AgentSaas.BusinessSteps
open Dictionaries

/-- `value ? value : undefined` -/
def truthy (value : Option String) : Option String := value.filter (· ≠ "")

inductive TodoStatus where
  | pending | inProgress | waiting | blocked | completed | failed
  deriving DecidableEq, Repr

inductive TodoKind where
  | task | business
  deriving DecidableEq, Repr

inductive OutcomeTone where
  | ok | warn | fail
  deriving DecidableEq, Repr

structure TodoItem where
  id : Option String
  kind : Option TodoKind
  content : String
  status : TodoStatus
  /-- `outcome?.tone` -/
  tone : Option OutcomeTone
  deriving DecidableEq, Repr

def todoItemKey (todo : TodoItem) : String :=
  match truthy todo.id with
  | some id => "id:" ++ id
  | none => "legacy:" ++ todo.content

def isBusinessTodo (todo : TodoItem) : Bool := todo.kind = some .business

/-! The messages, with what the projection and the grouping read of them. -/

inductive PresentationStatus where
  | ok | warn | blocked | waiting
  deriving DecidableEq, Repr

structure ToolConnectorAction where
  write : Bool
  deriving DecidableEq, Repr

structure ToolPresentation where
  title : String
  status : Option PresentationStatus
  connector : Option ToolConnectorAction
  deriving DecidableEq, Repr

structure ToolUse where
  toolName : String
  toolInput : String
  runId : Option String
  streaming : Bool
  resultReady : Bool
  presentation : Option ToolPresentation
  defaultExpanded : Bool
  deriving DecidableEq, Repr

/-- `type`, with the fields of each that are read. -/
inductive MessageBody where
  | user (queued : Bool)
  | userVoice
  | systemError
  | systemEvent
  | text (streaming finalOutput : Bool)
  | thinking (streaming : Bool)
  | runtimeStatus (streaming : Bool)
  | toolUse (use : ToolUse)
  | subagent (running : Bool)
  | fileDownload (artifactId : Option String)
  | compaction
  | toolResult
  | permissionRequest
  | askUser
  | voice
  deriving DecidableEq, Repr

structure MessageItem where
  id : String
  body : MessageBody
  deriving DecidableEq, Repr

def isBusinessStepSectionBoundary (message : MessageItem) : Bool :=
  match message.body with
  | .user queued => !queued
  | .userVoice | .systemError | .systemEvent => true
  | _ => false

inductive BusinessStepEventKind where
  | plan | start | complete | fail | block | wait | update | reset
  deriving DecidableEq, Repr

def BusinessStepEventKind.text : BusinessStepEventKind → String
  | plan => "plan"
  | start => "start"
  | complete => "complete"
  | fail => "fail"
  | block => "block"
  | wait => "wait"
  | update => "update"
  | reset => "reset"

structure BusinessStepEventItem where
  id : String
  anchorMessageId : String
  runId : Option String
  kind : BusinessStepEventKind
  todo : Option TodoItem
  todos : Option (List TodoItem)
  stepIndex : Option Nat
  stepCount : Nat
  isCurrent : Bool
  isClosed : Bool
  generationId : Option String
  deriving DecidableEq, Repr

def terminalKindByStatus : TodoStatus → Option BusinessStepEventKind
  | .completed => some .complete
  | .failed => some .fail
  | .blocked => some .block
  | .waiting => some .wait
  | .pending | .inProgress => none

def isTerminalStepEvent (event : BusinessStepEventItem) : Bool :=
  (event.todo.bind fun todo => terminalKindByStatus todo.status) = some event.kind

structure BusinessStepProjection where
  eventsByAnchor : Dictionary String (List BusinessStepEventItem)
  hiddenMessageIds : List String

/-! An event is written to after it has been handed out: the buckets hold the places of the events. -/

structure Projecting where
  events : List BusinessStepEventItem
  eventsByAnchor : Dictionary String (List Nat)
  hiddenMessageIds : List String
  baseline : Option (Dictionary String TodoItem)
  latestActiveKey : Option String
  latestResumeKey : Option String
  currentPlanEvent : Option Nat
  currentPlanRunId : Option String
  currentPlanSuspended : Bool
  pendingSectionBoundary : Bool
  pendingSectionResumeAnchorId : Option String
  lastProgressEvent : Option Nat

def Projecting.start : Projecting where
  events := []
  eventsByAnchor := .empty
  hiddenMessageIds := []
  baseline := none
  latestActiveKey := none
  latestResumeKey := none
  currentPlanEvent := none
  currentPlanRunId := none
  currentPlanSuspended := false
  pendingSectionBoundary := false
  pendingSectionResumeAnchorId := none
  lastProgressEvent := none

def Projecting.pushEvents (projecting : Projecting) (anchorId : String) (batch : List BusinessStepEventItem) : Projecting :=
  if batch.isEmpty then projecting
  else
    let places := List.range' projecting.events.length batch.length
    { projecting with
      events := projecting.events ++ batch
      eventsByAnchor := projecting.eventsByAnchor.set anchorId (((projecting.eventsByAnchor.get anchorId).getD []) ++ places) }

def Projecting.write (projecting : Projecting) (place : Option Nat) (change : BusinessStepEventItem → BusinessStepEventItem) :
    Projecting :=
  { projecting with events := place.elim projecting.events (projecting.events.modify · change) }

def Projecting.forget (projecting : Projecting) : Projecting :=
  { projecting with
    baseline := none
    latestActiveKey := none
    latestResumeKey := none
    currentPlanEvent := none
    currentPlanRunId := none
    currentPlanSuspended := false
    lastProgressEvent := none }

def Projecting.atBoundary (projecting : Projecting) (message : MessageItem) : Projecting :=
  let pending := { projecting with pendingSectionBoundary := true, pendingSectionResumeAnchorId := none }
  if (message.body = .systemError ∨ message.body = .systemEvent) ∧ pending.currentPlanEvent.isSome then
    { pending.write pending.currentPlanEvent ({ · with isClosed := true }) with currentPlanSuspended := true }
  else pending

/-- A message that is no snapshot: the first one behind a boundary may anchor a step that goes on. -/
def Projecting.pass (projecting : Projecting) (message : MessageItem) : Projecting :=
  if projecting.pendingSectionBoundary ∧ projecting.pendingSectionResumeAnchorId = none then
    { projecting with pendingSectionResumeAnchorId := some message.id }
  else projecting

def stepEvent (message : MessageItem) (runId : Option String) (stepCount : Nat) (id : String) (kind : BusinessStepEventKind) :
    BusinessStepEventItem where
  id := id
  anchorMessageId := message.id
  runId := truthy runId
  kind := kind
  todo := none
  todos := none
  stepIndex := none
  stepCount := stepCount
  isCurrent := false
  isClosed := false
  generationId := none

/-- `new Map(businessTodos.map(...))` -/
def byKey (businessTodos : List TodoItem) : Dictionary String TodoItem :=
  businessTodos.foldl (fun table todo => table.set (todoItemKey todo) todo) .empty

def indexByKey (businessTodos : List TodoItem) : Dictionary String Nat :=
  businessTodos.zipIdx.foldl (fun table entry => table.set (todoItemKey entry.1) (entry.2 + 1)) .empty

structure Batches where
  closings : List BusinessStepEventItem
  openings : List BusinessStepEventItem
  resumeOpenings : List BusinessStepEventItem
  structureChanged : Bool
  hasStateEvent : Bool

structure Comparison where
  message : MessageItem
  runId : Option String
  businessTodos : List TodoItem
  baseline : Dictionary String TodoItem
  previousResumeKey : Option String
  resumeAnchorMessageId : String
  hasProcessAfterBoundary : Bool
  resumesCurrentRunAfterSectionBoundary : Bool

def Comparison.compare (comparison : Comparison) (batches : Batches) (todo : TodoItem) : Batches :=
  let key := todoItemKey todo
  let prev := comparison.baseline.get key
  let batches := if prev = none then { batches with structureChanged := true } else batches
  let prevStatus := prev.elim .pending (·.status)
  let terminalKind := terminalKindByStatus todo.status
  let resumesInterruptedActive : Bool := comparison.resumesCurrentRunAfterSectionBoundary
    ∧ some key = comparison.previousResumeKey
    ∧ (prevStatus = .inProgress ∨ prevStatus = .waiting)
    ∧ (todo.status = .inProgress ∨ (comparison.hasProcessAfterBoundary ∧ terminalKind.isSome))
  if prevStatus = todo.status ∧ !resumesInterruptedActive then batches
  else
    let base (anchor : String) (kind : BusinessStepEventKind) :=
      { stepEvent comparison.message comparison.runId comparison.businessTodos.length
          ("bs-" ++ anchor ++ "-" ++ key ++ "-" ++ kind.text) kind with
        todo := some todo
        stepIndex := (indexByKey comparison.businessTodos).get key }
    let batches :=
      if resumesInterruptedActive then
        { batches with
          resumeOpenings := batches.resumeOpenings ++
            [{ base comparison.resumeAnchorMessageId .start with
                anchorMessageId := comparison.resumeAnchorMessageId
                todo := some (prev.elim todo fun prev =>
                  if prev.status = .waiting then { prev with status := .inProgress } else prev) }] }
      else batches
    match terminalKind with
    | some kind =>
      { batches with closings := batches.closings ++ [base comparison.message.id kind], hasStateEvent := true }
    | none =>
      if todo.status = .inProgress ∧ !resumesInterruptedActive then
        { batches with openings := batches.openings ++ [base comparison.message.id .start], hasStateEvent := true }
      else batches

def Comparison.batches (comparison : Comparison) : Batches :=
  let batches := comparison.businessTodos.foldl comparison.compare ⟨[], [], [], false, false⟩
  { batches with
    structureChanged := batches.structureChanged ||
      comparison.baseline.keys.any fun key => !(indexByKey comparison.businessTodos).has key }

def Projecting.announce (projecting : Projecting) (message : MessageItem) (runId : Option String)
    (businessTodos : List TodoItem) (activeTodo : Option TodoItem) : Projecting :=
  let stepCount := businessTodos.length
  let planEvent :=
    { stepEvent message runId stepCount ("bs-" ++ message.id ++ "-plan") .plan with
      generationId := (truthy runId).map ("open:" ++ ·)
      todos := some businessTodos }
  let place := projecting.events.length
  let started := activeTodo.toList.map fun todo =>
    { stepEvent message runId stepCount ("bs-" ++ message.id ++ "-" ++ todoItemKey todo ++ "-start") .start with
      todo := some todo
      stepIndex := (indexByKey businessTodos).get (todoItemKey todo) }
  { projecting.pushEvents message.id (planEvent :: started) with
    currentPlanEvent := some place
    currentPlanRunId := runId
    currentPlanSuspended := false
    lastProgressEvent := if activeTodo.isSome then some (place + 1) else none
    baseline := some (byKey businessTodos) }

def Projecting.refresh (projecting : Projecting) (comparison : Comparison) : Projecting :=
  let stepCount := comparison.businessTodos.length
  let message := comparison.message
  let projecting := projecting.write projecting.currentPlanEvent
    ({ · with todos := some comparison.businessTodos, stepCount := stepCount })
  let batches := comparison.batches
  let updates :=
    if batches.structureChanged ∧ !batches.hasStateEvent then
      [stepEvent message comparison.runId stepCount ("bs-" ++ message.id ++ "-update") .update]
    else []
  let place := projecting.events.length
  let pushed := (projecting.pushEvents comparison.resumeAnchorMessageId batches.resumeOpenings).pushEvents message.id
    (batches.closings ++ batches.openings ++ updates)
  { pushed with
    -- the last of the openings, or else of those that go on
    lastProgressEvent :=
      if !batches.openings.isEmpty then
        some (place + batches.resumeOpenings.length + batches.closings.length + batches.openings.length - 1)
      else if !batches.resumeOpenings.isEmpty then some (place + batches.resumeOpenings.length - 1)
      else pushed.lastProgressEvent
    baseline := some (byKey comparison.businessTodos) }

/-- `todos` is null for a snapshot that says that there is nothing to do. -/
def Projecting.snapshot (projecting : Projecting) (message : MessageItem) (runId : Option String)
    (todos : Option (List TodoItem)) : Projecting :=
  let hadBusinessPlan := projecting.baseline.isSome
  let resetRunId := projecting.currentPlanRunId
  let resetPlanEvent := projecting.currentPlanEvent
  let previousResumeKey := projecting.latestResumeKey
  let resumeAnchorMessageId := projecting.pendingSectionResumeAnchorId.getD message.id
  let hasProcessAfterBoundary := projecting.pendingSectionResumeAnchorId.isSome
  let continuesCurrentRun : Bool := projecting.currentPlanRunId.isSome ∧ runId = projecting.currentPlanRunId
  let resumesCurrentRunAfterSectionBoundary := projecting.pendingSectionBoundary && continuesCurrentRun
  let resumed :=
    if continuesCurrentRun ∧ projecting.currentPlanSuspended ∧ projecting.currentPlanEvent.isSome then
      { projecting.write projecting.currentPlanEvent ({ · with isClosed := false }) with currentPlanSuspended := false }
    else projecting
  let current :=
    if !continuesCurrentRun ∧ (resumed.pendingSectionBoundary ∨ (resumed.currentPlanRunId.isSome ∧ runId.isSome)) then
      (resumed.write resetPlanEvent ({ · with isClosed := true })).forget
    else resumed
  let current :=
    { current with
      pendingSectionBoundary := false
      pendingSectionResumeAnchorId := none
      hiddenMessageIds := current.hiddenMessageIds ++ [message.id] }
  let businessTodos := (todos.getD []).filter isBusinessTodo
  if businessTodos.isEmpty then
    let closed :=
      if hadBusinessPlan then
        (current.write resetPlanEvent fun event =>
          { event with
            isClosed := true
            generationId := if event.runId.isSome then some ("reset:" ++ message.id) else event.generationId }).pushEvents
          message.id [stepEvent message resetRunId 0 ("bs-" ++ message.id ++ "-reset") .reset]
      else current
    closed.forget
  else
    let activeTodo := businessTodos.find? (·.status = .inProgress)
    let waitingTodos := businessTodos.filter (·.status = .waiting)
    let current :=
      { current with
        latestActiveKey := activeTodo.map todoItemKey
        latestResumeKey :=
          match activeTodo, waitingTodos with
          | some todo, _ => some (todoItemKey todo)
          | none, [todo] => some (todoItemKey todo)
          | none, _ => none }
    match current.baseline with
    | none => current.announce message runId businessTodos activeTodo
    | some baseline =>
      current.refresh
        { message := message
          runId := runId
          businessTodos := businessTodos
          baseline := baseline
          previousResumeKey := previousResumeKey
          resumeAnchorMessageId := resumeAnchorMessageId
          hasProcessAfterBoundary := hasProcessAfterBoundary
          resumesCurrentRunAfterSectionBoundary := resumesCurrentRunAfterSectionBoundary }

section Projection

-- `none` is an input that is no whole snapshot yet, `some none` one that has nothing to do.
variable (parseTodos : String → Option (Option (List TodoItem)))

def Projecting.add (projecting : Projecting) (message : MessageItem) : Projecting :=
  if isBusinessStepSectionBoundary message then projecting.atBoundary message
  else
    match message.body with
    | .toolUse use =>
      if use.toolName = "TodoWrite" then
        match parseTodos use.toolInput with
        | none => projecting.pass message
        | some todos => projecting.snapshot message use.runId todos
      else projecting.pass message
    | _ => projecting.pass message

def Projecting.finish (projecting : Projecting) (loading : Bool) : Projecting :=
  let ended :=
    if !loading ∧ projecting.latestActiveKey.isSome then projecting.write projecting.currentPlanEvent ({ · with isClosed := true })
    else projecting
  let planClosed := (ended.currentPlanEvent.bind (ended.events[·]?)).any (·.isClosed)
  let lastTodo := (ended.lastProgressEvent.bind (ended.events[·]?)).bind (·.todo)
  if loading ∧ !planClosed ∧ ended.latestActiveKey.isSome ∧ lastTodo.map todoItemKey = ended.latestActiveKey then
    ended.write ended.lastProgressEvent ({ · with isCurrent := true })
  else ended

def projectBusinessStepEvents (messages : List MessageItem) (loading : Bool) : BusinessStepProjection :=
  let projecting := (messages.foldl (Projecting.add parseTodos) .start).finish loading
  { eventsByAnchor := projecting.eventsByAnchor.mapValues (·.filterMap (projecting.events[·]?))
    hiddenMessageIds := projecting.hiddenMessageIds }

end Projection

end AgentSaas.BusinessSteps
