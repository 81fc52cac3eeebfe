import AgentSaas.BusinessSteps

/-! How the messages of a session are grouped for its view: runs of activity as one group each, and
what happens between the start of a business step and its end as one section. -/

namespace AgentSaas.GroupMessages
open Dictionaries BusinessSteps

structure ActivityGroup where
  id : String
  items : List MessageItem
  isActive : Bool
  deriving DecidableEq, Repr

/-- What stands in a section, or beside the sections. -/
inductive RenderUnit where
  | message (message : MessageItem)
  | activityGroup (group : ActivityGroup)
  | businessStep (event : BusinessStepEventItem)
  deriving DecidableEq, Repr

structure BusinessStepSection where
  id : String
  start : BusinessStepEventItem
  terminal : Option BusinessStepEventItem
  items : List RenderUnit
  isActive : Bool
  resumePending : Bool
  processAnomaly : Bool
  systemActionIds : List String
  deriving DecidableEq, Repr

inductive RenderItem where
  | single (unit : RenderUnit)
  | businessStepSection (step : BusinessStepSection)
  deriving DecidableEq, Repr

structure GroupMessagesOptions where
  debugMode : Bool
  sectioning : Bool
  deriving DecidableEq, Repr

/-- `ACTIVITY_TYPES.has(message.type)` -/
def isActivity (message : MessageItem) : Bool :=
  match message.body with
  | .runtimeStatus _ | .thinking _ | .toolUse _ | .subagent _ => true
  | _ => false

def isStreaming (message : MessageItem) : Bool :=
  match message.body with
  | .text streaming _ | .thinking streaming | .runtimeStatus streaming => streaming
  | .toolUse use => use.streaming
  | _ => false

def isGroupActive (items : List MessageItem) (isLastGroup loading : Bool) : Bool :=
  items.any (fun item =>
    isStreaming item ||
    match item.body with
    | .subagent running => running
    | .toolUse use => !use.resultReady && isLastGroup && loading
    | _ => false) ||
  (isLastGroup && loading)

def sameStepKey (a b : BusinessStepEventItem) : Bool :=
  match a.todo, b.todo with
  | some first, some second => todoItemKey first = todoItemKey second
  | _, _ => false

def presentation (message : MessageItem) : Option ToolPresentation :=
  match message.body with
  | .toolUse use => use.presentation
  | _ => none

def isConnectorActionItem (message : MessageItem) : Bool := ((presentation message).bind (·.connector)).isSome

def collectSystemActionIds (items : List RenderUnit) : List String :=
  items.filterMap fun
    | .message message =>
      if ((presentation message).bind (·.connector)).any (·.write) then some message.id else none
    | _ => none

def visitMessage (lastStatusByKey : Dictionary String PresentationStatus) (message : MessageItem) :
    Dictionary String PresentationStatus :=
  match message.body with
  | .toolUse use =>
    if use.toolName = "TodoWrite" then lastStatusByKey
    else
      match use.presentation.bind (·.status) with
      | none => lastStatusByKey
      | some status =>
        lastStatusByKey.set ((use.presentation.bind fun presentation => truthy (some presentation.title)).getD use.toolName) status
  | _ => lastStatusByKey

def detectProcessAnomaly (terminal : Option BusinessStepEventItem) (items : List RenderUnit) : Bool :=
  match terminal with
  | none => false
  | some event =>
    let tone := event.todo.bind (·.tone)
    if event.kind ≠ .complete ∨ tone = some .warn ∨ tone = some .fail then false
    else
      (items.foldl (fun table item =>
        match item with
        | .activityGroup group => group.items.foldl visitMessage table
        | .message message => visitMessage table message
        | .businessStep _ => table) Dictionary.empty).values.any (· = .warn)

/-! The one pass over the messages. -/

structure Grouping where
  result : List RenderItem
  currentGroup : List MessageItem
  currentSection : Option BusinessStepSection
  currentSectionMainTail : List MessageItem
  deriving DecidableEq, Repr

def Grouping.start : Grouping := ⟨[], [], none, []⟩

/-- `result.push(...)` -/
def Grouping.push (grouping : Grouping) (unit : RenderUnit) : Grouping :=
  { grouping with result := grouping.result ++ [.single unit] }

/-- `sink().push(...)`: into the open section, or beside the sections. -/
def Grouping.sink (grouping : Grouping) (unit : RenderUnit) : Grouping :=
  match grouping.currentSection with
  | some step => { grouping with currentSection := some { step with items := step.items ++ [unit] } }
  | none => grouping.push unit

def Grouping.hold (grouping : Grouping) (message : MessageItem) : Grouping :=
  { grouping with currentSectionMainTail := grouping.currentSectionMainTail ++ [message] }

def Grouping.flushGroup (grouping : Grouping) (isLast loading : Bool) : Grouping :=
  match grouping.currentGroup with
  | [] => grouping
  | first :: rest =>
    { grouping with currentGroup := [] }.sink
      (.activityGroup ⟨"ag-" ++ first.id, first :: rest, isGroupActive (first :: rest) isLast loading⟩)

def BusinessStepSection.close (step : BusinessStepSection) (atStreamEnd loading : Bool) : BusinessStepSection :=
  { step with
    isActive := step.terminal.isNone && atStreamEnd && loading
    processAnomaly := detectProcessAnomaly step.terminal step.items
    systemActionIds := collectSystemActionIds step.items }

def Grouping.closeSection (grouping : Grouping) (atStreamEnd loading : Bool) : Grouping :=
  match grouping.currentSection with
  | none => grouping
  | some step =>
    { grouping with
      result := grouping.result ++ [.businessStepSection (step.close atStreamEnd loading)] ++
        grouping.currentSectionMainTail.map fun message => .single (.message message)
      currentSection := none
      currentSectionMainTail := [] }

def Grouping.openSection (grouping : Grouping) (event : BusinessStepEventItem) : Grouping :=
  { grouping with currentSection := some ⟨"sec-" ++ event.id, event, none, [], false, false, false, []⟩ }

def Grouping.endSection (grouping : Grouping) (event : BusinessStepEventItem) : Grouping :=
  { grouping with currentSection := grouping.currentSection.map ({ · with terminal := some event }) }

def Grouping.markSectionResumePending (grouping : Grouping) : Grouping :=
  { grouping with currentSection := grouping.currentSection.map ({ · with resumePending := true }) }

section Loop

variable (loading : Bool) (options : GroupMessagesOptions)

def Grouping.handleBusinessEvent (grouping : Grouping) (event : BusinessStepEventItem) : Grouping :=
  let flushed := grouping.flushGroup false loading
  if event.kind = .reset then
    if options.sectioning then flushed.closeSection false loading else grouping
  else if !options.sectioning then flushed.push (.businessStep event)
  else if event.kind = .plan then (flushed.closeSection false loading).push (.businessStep event)
  else if event.kind = .start then (flushed.closeSection false loading).openSection event
  else if isTerminalStepEvent event then
    if flushed.currentSection.any (sameStepKey ·.start event) then (flushed.endSection event).closeSection false loading
    else (flushed.closeSection false loading).push (.businessStep event)
  else flushed.sink (.businessStep event)

/-- `msg.type === 'file_download' && msg.artifactId` -/
def isArtifact (message : MessageItem) : Bool :=
  match message.body with
  | .fileDownload artifactId => (truthy artifactId).isSome
  | _ => false

def isFinalOutput (message : MessageItem) : Bool :=
  match message.body with
  | .text _ finalOutput => finalOutput
  | _ => false

/-- A call that the model wants to be seen, which only the debug view shows on its own. -/
def isExpandedCall (message : MessageItem) : Bool :=
  match message.body with
  | .toolUse use => use.presentation.isSome && use.defaultExpanded
  | _ => false

def isQueuedUserBubble (message : MessageItem) : Bool :=
  match message.body with
  | .user _ => !isBusinessStepSectionBoundary message
  | _ => false

/-- `options.sectioning && currentSection` -/
def Grouping.inSection (grouping : Grouping) : Bool := options.sectioning && grouping.currentSection.isSome

def Grouping.render (grouping : Grouping) (message : MessageItem) : Grouping :=
  let flushed := grouping.flushGroup false loading
  if grouping.inSection options ∧ isArtifact message then (flushed.sink (.message message)).hold message
  else if grouping.inSection options ∧ isFinalOutput message then flushed.hold message
  else if isConnectorActionItem message then flushed.sink (.message message)
  else if options.debugMode ∧ isExpandedCall message then flushed.sink (.message message)
  else if isActivity message then { grouping with currentGroup := grouping.currentGroup ++ [message] }
  else if isQueuedUserBubble message then flushed.sink (.message message)
  else if message.body = .compaction then flushed.markSectionResumePending.push (.message message)
  else if isBusinessStepSectionBoundary message then (flushed.closeSection false loading).push (.message message)
  else flushed.sink (.message message)

variable (projection : BusinessStepProjection)

def isShown (message : MessageItem) : Bool := options.debugMode || !projection.hiddenMessageIds.contains message.id

def Grouping.handleAnchored (grouping : Grouping) (message : MessageItem) : Grouping :=
  ((projection.eventsByAnchor.get message.id).getD []).foldl (Grouping.handleBusinessEvent loading options) grouping

def Grouping.add (grouping : Grouping) (message : MessageItem) : Grouping :=
  let handled := grouping.handleAnchored loading options projection message
  if isShown options projection message then handled.render loading options message else handled

def Grouping.finish (grouping : Grouping) : List RenderItem :=
  ((grouping.flushGroup true loading).closeSection true loading).result

end Loop

def groupMessages (parseTodos : String → Option (Option (List TodoItem))) (messages : List MessageItem) (loading : Bool)
    (options : GroupMessagesOptions) : List RenderItem :=
  let projection := projectBusinessStepEvents parseTodos messages loading
  (messages.foldl (Grouping.add loading options projection) .start).finish loading

end AgentSaas.GroupMessages
