import AgentSaas.Dictionaries
import AgentSaas.PlatformEvents
import AgentSaas.Sorting
import Mathlib.Data.List.Dedup

/-! The events of a session that the context shows: without the tool interactions that have
been rewound, and with whole tool interactions where only a part of the log is selected. -/

namespace AgentSaas.ContextProjection
open Dictionaries PlatformEvents Sorting

/-- The event store has one row for an event id. -/
structure EventLog where
  events : List PlatformEvent
  distinct : (events.map (·.id)).Nodup

def EventLog.append (log : EventLog) (event : PlatformEvent) (fresh : event.id ∉ log.events.map (·.id)) : EventLog where
  events := log.events ++ [event]
  distinct := by
    rw [List.map_append, List.nodup_append]
    refine ⟨log.distinct, List.nodup_singleton _, fun id member other single same => ?_⟩
    rw [same, List.mem_singleton.mp single] at member
    exact fresh member

/-- `MODEL_VISIBLE_EVENT_TYPES.has(event.type)` -/
def isModelVisible : PlatformEventBody → Bool
  | .memoryContext _ | .userMessage _ _ _ _ | .assistantMessage _ | .assistantThinking _ | .mcpToolsLoaded _
  | .assistantToolCalls _ _ | .toolResult _ _ _ => true
  | _ => false

def isThinking : PlatformEventBody → Bool
  | .assistantThinking _ => true
  | _ => false

/-! The last complete tool interaction. -/

structure CompleteToolInteractionUnit where
  excludedEventIds : List String
  excludedToolCallIds : List String
  excludedStartSequence : Int
  excludedEndSequence : Int
  deriving DecidableEq, Repr

/-- The batch, what comes before it from its last event back, and what comes after it. -/
structure Located where
  earlier : List PlatformEvent
  batch : PlatformEvent
  toolCalls : List ModelToolCall
  later : List PlatformEvent

/-- Back from the last event to a batch; `later` is what has been passed. -/
def findBatch (later : List PlatformEvent) : List PlatformEvent → Option Located
  | [] => none
  | event :: earlier =>
    match event.body with
    | .assistantMessage _ => none
    | .assistantToolCalls _ toolCalls => some ⟨earlier, event, toolCalls, later⟩
    | _ => findBatch (event :: later) earlier

structure Collected where
  resultByToolCallId : Dictionary String PlatformEvent
  afterBoundary : List PlatformEvent

def collectResults (expectedIds : List String) (resultByToolCallId : Dictionary String PlatformEvent) :
    List PlatformEvent → Option Collected
  | [] => some ⟨resultByToolCallId, []⟩
  | event :: later =>
    match event.body with
    | .toolResult toolCallId _ _ =>
      if toolCallId ∉ expectedIds ∨ resultByToolCallId.has toolCallId then none
      else collectResults expectedIds (resultByToolCallId.set toolCallId event) later
    | .userMessage _ _ _ _ | .memoryContext _ => some ⟨resultByToolCallId, later⟩
    | body => if isModelVisible body then none else collectResults expectedIds resultByToolCallId later

/-- The thinking of the run directly before the batch, in the order of the log. -/
def thinkingEvents (runId : Option String) : List PlatformEvent → List PlatformEvent
  | [] => []
  | event :: earlier =>
    if isModelVisible event.body then
      if isThinking event.body ∧ event.runId = runId then thinkingEvents runId earlier ++ [event] else []
    else thinkingEvents runId earlier

/-- An event without a `sequence` has its place in the list. -/
def orderedExcluded (sequence : PlatformEvent → Option Int) (orderedSessionEvents : List PlatformEvent)
    (excludedIds : List String) : List (PlatformEvent × Int) :=
  (orderedSessionEvents.mapIdx fun index event => (event, (sequence event).getD (index + 1))).filter
    fun entry => entry.1.id ∈ excludedIds

def completeUnit (sequence : PlatformEvent → Option Int) (orderedSessionEvents : List PlatformEvent)
    (located : Located) : Option CompleteToolInteractionUnit :=
  let toolCallIds := located.toolCalls.map (·.id)
  if located.toolCalls = [] ∨ ¬toolCallIds.Nodup ∨ "" ∈ toolCallIds then none
  else
    match collectResults toolCallIds .empty located.later with
    | none => none
    | some collected =>
      if collected.resultByToolCallId.entries.length ≠ toolCallIds.length then none
      else if collected.afterBoundary.any fun event => event.answers.any (· ∈ toolCallIds) then none
      else
        let excludedIds := (thinkingEvents located.batch.runId located.earlier).map (·.id) ++ located.batch.id ::
          toolCallIds.filterMap fun id => (collected.resultByToolCallId.get id).map (·.id)
        let ordered := orderedExcluded sequence orderedSessionEvents excludedIds
        if ordered.length ≠ excludedIds.dedup.length then none
        else
          match ordered.head?, ordered.getLast? with
          | some first, some last =>
            some
              { excludedEventIds := ordered.map (·.1.id)
                excludedToolCallIds := toolCallIds
                excludedStartSequence := first.2
                excludedEndSequence := last.2 }
          | _, _ => none

def findLastCompleteToolInteractionUnit (sequence : PlatformEvent → Option Int)
    (selectedEvents orderedSessionEvents : List PlatformEvent) : Option CompleteToolInteractionUnit :=
  (findBatch [] selectedEvents.reverse).bind (completeUnit sequence orderedSessionEvents)

def contextRewindModelNotice : String := "\n".intercalate
  [ "<platform-recovery>",
    "平台因 provider 拒绝当前 replay，已从模型上下文中排除上一段完整工具交互并自动继续。",
    "上一工具调用可能已经产生部分外部副作用；继续前必须先检查实际状态，禁止盲目重复写操作。",
    "</platform-recovery>" ]

structure SystemMessage where
  content : String
  deriving DecidableEq, Repr

structure RewoundContext where
  effectiveEvents : List PlatformEvent
  recoveryMessages : List SystemMessage

def isRewind : PlatformEventBody → Bool
  | .contextRewind _ => true
  | _ => false

def excludedBy (event : PlatformEvent) : List String :=
  match event.body with
  | .contextRewind excludedEventIds => excludedEventIds
  | _ => []

def applyContextRewinds (events : List PlatformEvent) : RewoundContext :=
  let excludedEventIds := events.flatMap excludedBy
  { effectiveEvents := events.filter fun event => !isRewind event.body && decide (event.id ∉ excludedEventIds)
    recoveryMessages := (events.filter fun event => isRewind event.body).map fun _ => ⟨contextRewindModelNotice⟩ }

def EventLog.effective (log : EventLog) : List PlatformEvent := (applyContextRewinds log.events).effectiveEvents

/-- The event that the recovery of a run records of the unit. -/
def CompleteToolInteractionUnit.rewind (unit : CompleteToolInteractionUnit) (id timestamp : String)
    (runId : Option String) : PlatformEvent where
  id := id
  timestamp := timestamp
  runId := runId
  body := .contextRewind unit.excludedEventIds

/-! What a policy selects of the log. -/

inductive ContextReconstructionPolicy where
  | fullReplay
  | recentWindow (recentEvents : Option Int)
  | retrievalAugmented (query : String) (recentEvents maxMatches : Option Int)
  | manualSlice (start stop : Option Int)

def defaultRecentEvents : Int := 80
def defaultMaxMatches : Int := 20

structure Retrieval where
  stringify : PlatformEvent → String
  toLowerCase : String → String
  localeCompare : Comparator String

/-- `slice(start, end)` -/
def slice {α : Type} (items : List α) (start stop : Int) : List α :=
  let place (index : Int) : Nat := (if index < 0 then max 0 (index + items.length) else min index items.length).toNat
  (items.take (place stop)).drop (place start)

def lastN {α : Type} (items : List α) (count : Int) : List α :=
  slice items (max 0 (items.length - max 0 count)) items.length

def clampIndex (value : Int) (length : Nat) : Int := max 0 (min length value)

/-- `haystack.includes(needle)` -/
def includes (haystack needle : String) : Bool := haystack.toList.tails.any fun rest => needle.toList.isPrefixOf rest

def searchEvents (retrieval : Retrieval) (events : List PlatformEvent) (query : String) (maxMatches : Int) :
    List PlatformEvent :=
  let needle := retrieval.toLowerCase (trim query)
  if needle = "" then []
  else slice (events.filter fun event => includes (retrieval.toLowerCase (retrieval.stringify event)) needle) 0 maxMatches

def pushUnique (unique : List PlatformEvent) (event : PlatformEvent) : List PlatformEvent :=
  if event.id ∈ unique.map (·.id) then unique else unique ++ [event]

def uniqueEvents (retrieval : Retrieval) (events : List PlatformEvent) : List PlatformEvent :=
  (retrieval.localeCompare.onKey (·.timestamp)).sort (events.foldl pushUnique [])

/-- From the batch back: the thinking of its run, also where its tools were loaded meanwhile. -/
def selectThinking (runId : Option String) : List PlatformEvent → List String
  | [] => []
  | candidate :: earlier =>
    match candidate.body with
    | .mcpToolsLoaded _ => if candidate.runId = runId then selectThinking runId earlier else []
    | .assistantThinking _ => if candidate.runId = runId then candidate.id :: selectThinking runId earlier else []
    | _ => []

/-- The ids that a batch adds when one of its calls or results is selected. -/
def expandBatch (selectedCallIds : List String) (allEvents earlier : List PlatformEvent) (event : PlatformEvent) :
    List String :=
  match event.body with
  | .assistantToolCalls _ toolCalls =>
    let callIds := toolCalls.map (·.id)
    if callIds.any (· ∈ selectedCallIds) then
      event.id :: (allEvents.filter fun candidate => candidate.answers.any (· ∈ callIds)).map (·.id)
        ++ selectThinking event.runId earlier
    else []
  | _ => []

/-- The loop over the log; `earlier` is what has been passed, the last event first. -/
def expandEvents (selectedCallIds : List String) (allEvents : List PlatformEvent) :
    List PlatformEvent → List PlatformEvent → List String → List String
  | _, [], selectedIds => selectedIds
  | earlier, event :: later, selectedIds =>
    expandEvents selectedCallIds allEvents (event :: earlier) later
      (selectedIds ++ expandBatch selectedCallIds allEvents earlier event)

def callIdsOf (event : PlatformEvent) : List String :=
  match event.body with
  | .toolResult toolCallId _ _ => [toolCallId]
  | .assistantToolCalls _ toolCalls => toolCalls.map (·.id)
  | _ => []

def expandToolInteractionSelection (selectedEvents allEvents : List PlatformEvent) : List PlatformEvent :=
  let selectedIds := expandEvents (selectedEvents.flatMap callIdsOf) allEvents [] allEvents (selectedEvents.map (·.id))
  allEvents.filter fun event => event.id ∈ selectedIds

/-- The events that the policy asks for, before they are expanded. -/
def policySelection (retrieval : Retrieval) (events : List PlatformEvent) : ContextReconstructionPolicy → List PlatformEvent
  | .fullReplay => events
  | .recentWindow recentEvents => lastN events (recentEvents.getD defaultRecentEvents)
  | .manualSlice start stop =>
    let start := clampIndex (start.getD 0) events.length
    let stop := clampIndex (stop.getD events.length) events.length
    slice events (min start stop) (max start stop)
  | .retrievalAugmented query recentEvents maxMatches =>
    let found := searchEvents retrieval events query (maxMatches.getD defaultMaxMatches)
    uniqueEvents retrieval (found ++ lastN events (recentEvents.getD defaultRecentEvents))

/-- The `selectedEvents` of the projection. -/
def selectEvents (retrieval : Retrieval) (events : List PlatformEvent) (policy : ContextReconstructionPolicy) :
    List PlatformEvent :=
  match policy with
  | .fullReplay => events
  | policy => expandToolInteractionSelection (policySelection retrieval events policy) events

end AgentSaas.ContextProjection
