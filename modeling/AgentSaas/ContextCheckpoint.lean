import AgentSaas.Dictionaries
import AgentSaas.PlatformEvents
import AgentSaas.Ranges
import AgentSaas.Sorting

/-! Where a session's context is cut: the raw tail that is kept, whole tool batches only,
and the checkpoint that stands for what comes before it. -/

namespace AgentSaas.ContextCheckpoint
open Dictionaries PlatformEvents Ranges Sorting

/-! The tool batches. -/

abbrev AtomicRange := Range

structure ToolIndex where
  callIndexById : Dictionary String Nat
  resultIndicesById : Dictionary String (List Nat)

def ToolIndex.results (indexed : ToolIndex) (toolCallId : String) : List Nat :=
  (indexed.resultIndicesById.get toolCallId).getD []

def indexEvent (indexed : ToolIndex) (entry : PlatformEvent × Nat) : ToolIndex :=
  match entry.1.body with
  | .assistantToolCalls _ toolCalls =>
    { indexed with
      callIndexById := toolCalls.foldl (fun calls call => calls.set call.id entry.2) indexed.callIndexById }
  | .toolResult toolCallId _ _ =>
    { indexed with
      resultIndicesById := indexed.resultIndicesById.set toolCallId (indexed.results toolCallId ++ [entry.2]) }
  | _ => indexed

def indexTools (events : List PlatformEvent) : ToolIndex := events.zipIdx.foldl indexEvent ⟨.empty, .empty⟩

structure ToolRanges where
  ranges : List AtomicRange
  unsafeIndices : List Nat

def laterResults (indexed : ToolIndex) (index : Nat) (call : ModelToolCall) : List Nat :=
  (indexed.results call.id).filter (· > index)

def batchComplete (indexed : ToolIndex) (index : Nat) (toolCalls : List ModelToolCall) : Prop :=
  toolCalls ≠ [] ∧ ∀ call ∈ toolCalls, laterResults indexed index call ≠ []

instance (indexed : ToolIndex) (index : Nat) (toolCalls : List ModelToolCall) :
    Decidable (batchComplete indexed index toolCalls) := inferInstanceAs (Decidable (_ ∧ _))

/-- A complete batch is a range; of another it is not safe to keep any part. -/
def collectBatch (indexed : ToolIndex) (collected : ToolRanges) (entry : PlatformEvent × Nat) : ToolRanges :=
  match entry.1.body with
  | .assistantToolCalls _ toolCalls =>
    let resultIndices := toolCalls.flatMap (laterResults indexed entry.2)
    if batchComplete indexed entry.2 toolCalls then
      { collected with ranges := collected.ranges ++ [⟨entry.2, resultIndices.max?.getD 0⟩] }
    else { collected with unsafeIndices := collected.unsafeIndices ++ entry.2 :: resultIndices }
  | _ => collected

def collectOrphan (indexed : ToolIndex) (unsafeIndices : List Nat) (entry : PlatformEvent × Nat) : List Nat :=
  match entry.1.body with
  | .toolResult toolCallId _ _ =>
    if (indexed.callIndexById.get toolCallId).all (· ≥ entry.2) then unsafeIndices ++ [entry.2] else unsafeIndices
  | _ => unsafeIndices

/-- `left.start - right.start || left.end - right.end` -/
def byStart : Comparator AtomicRange where
  compare left right :=
    if (left.first : Int) - right.first ≠ 0 then (left.first : Int) - right.first else (left.last : Int) - right.last
  swap left right := by split <;> split <;> omega
  trans first second third := by split <;> split <;> split <;> omega

def buildAtomicToolRanges (events : List PlatformEvent) : ToolRanges :=
  let indexed := indexTools events
  let collected := events.zipIdx.foldl (collectBatch indexed) ⟨[], []⟩
  { ranges := merge (byStart.sort collected.ranges)
    unsafeIndices := events.zipIdx.foldl (collectOrphan indexed) collected.unsafeIndices }

structure RawTail where
  startIndex : Nat
  observedTokens : Int
  deriving DecidableEq, Repr

/-- A map with every index of every range: the last range that was entered. -/
def rangeByIndex (ranges : List AtomicRange) (index : Nat) : Option AtomicRange :=
  ranges.reverse.find? fun range => range.Contains index

structure Scanned where
  pendingStart : Nat
  foundThinking : Bool

/-- Back from `scan - 1` over the thinking, and what is loaded meanwhile, of the same run. -/
def scanThinking (events : List PlatformEvent) (runId : Option String) (scan : Nat) (scanned : Scanned) : Scanned :=
  match scan with
  | 0 => scanned
  | scan + 1 =>
    match events[scan]? with
    | none => scanned
    | some previous =>
      match previous.body with
      | .assistantThinking _ =>
        if previous.runId = runId then scanThinking events runId scan ⟨scan, true⟩ else scanned
      | .mcpToolsLoaded _ =>
        if previous.runId = runId then scanThinking events runId scan ⟨scan, scanned.foundThinking⟩ else scanned
      | _ => scanned

def isAssistantOutput : PlatformEventBody → Bool
  | .assistantMessage _ | .assistantToolCalls _ _ => true
  | _ => false

def isCompaction : PlatformEventBody → Bool
  | .compaction _ _ _ _ => true
  | _ => false

/-- Where the unit that ends at the cursor begins: with its tool batches and its thinking. -/
def unitStartAt (events : List PlatformEvent) (ranges : List AtomicRange) (cursor : Nat) : Nat :=
  let unitStart := ((rangeByIndex ranges cursor).map (·.first)).getD cursor
  match events[unitStart]? with
  | none => unitStart
  | some first =>
    if isAssistantOutput first.body then
      let scanned := scanThinking events first.runId unitStart ⟨unitStart, false⟩
      if scanned.foundThinking then scanned.pendingStart else unitStart
    else unitStart

def unsafePrefix (unsafeIndices : List Nat) : Nat → Nat
  | 0 => 0
  | index + 1 => unsafePrefix unsafeIndices index + if index ∈ unsafeIndices then 1 else 0

structure Walk where
  acceptedStarts : List Nat
  estimatedUpperTokens : Int

section Select

variable (estimateRawEventTokens : List PlatformEvent → Int) (events : List PlatformEvent)

/-- The loop over the units, from the end of the list back; `position` is the cursor and one.
It comes down by one at least, so the list's length is enough rounds. -/
def walkBack (tools : ToolRanges) (budget : Int) : Nat → Nat → Walk → List Nat
  | 0, _, walk => walk.acceptedStarts
  | rounds + 1, position, walk =>
    match position with
    | 0 => walk.acceptedStarts
    | cursor + 1 =>
      match events[cursor]? with
      | none => walk.acceptedStarts
      | some event =>
        if isCompaction event.body then walk.acceptedStarts
        else
          let unitStart := unitStartAt events tools.ranges cursor
          let unsafeCount := unsafePrefix tools.unsafeIndices (cursor + 1) - unsafePrefix tools.unsafeIndices unitStart
          if unsafeCount > 0 then walk.acceptedStarts
          else
            let unitTokens := estimateRawEventTokens (events.extract unitStart (cursor + 1))
            if walk.estimatedUpperTokens + unitTokens > budget then walk.acceptedStarts
            else
              walkBack tools budget rounds unitStart
                ⟨walk.acceptedStarts ++ [unitStart], walk.estimatedUpperTokens + unitTokens⟩

/-- The accepted starts, the last one first: those whose suffix is too large are given up. -/
def shrink (budget : Int) : List Nat → RawTail
  | [] => ⟨events.length, 0⟩
  | start :: rest =>
    let selectedTokens := estimateRawEventTokens (events.drop start)
    if selectedTokens > budget then shrink budget rest else ⟨start, selectedTokens⟩

def selectAtomicRawTail (rawTailBudgetTokens : Int) : RawTail :=
  if events = [] ∨ rawTailBudgetTokens ≤ 0 then ⟨events.length, 0⟩
  else
    let tools := buildAtomicToolRanges events
    let acceptedStarts :=
      walkBack estimateRawEventTokens events tools rawTailBudgetTokens events.length events.length ⟨[], 0⟩
    shrink estimateRawEventTokens events rawTailBudgetTokens acceptedStarts.reverse

end Select

/-! The plan of a checkpoint. -/

def checkpointSummaryTokenCap : Int := 16384

def checkpointRawTailTokenCap : Int := 65536

def checkpointUserHistoryTokenCap : Int := 60000

def checkpointProtocolTokenReserve : Int := 256

/-- The numbers are those that `Math.floor` gives. -/
structure ContextCheckpointPlanInput where
  events : List PlatformEvent
  contextWindow : Int
  thresholdTokens : Int
  baseFixedTokens : Option Int
  sourceRunId : Option String
  adaptUserHistoryToTarget : Option Bool

structure UserTrajectoryItem where
  eventId : String
  timestamp : String
  text : String
  originalChars : Nat
  deriving DecidableEq, Repr

/-- The token estimates of events, of the user's messages and of a text. -/
structure Estimates where
  rawEvents : List PlatformEvent → Int
  history : List CheckpointTaskAnchor → List UserTrajectoryItem → Nat
  text : String → Nat

def taskAnchorOf (sourceRunId : String) (event : PlatformEvent) : List CheckpointTaskAnchor :=
  match event.body with
  | .userMessage content modelContent attachments _ =>
    if event.runId ≠ some sourceRunId || isSystemCommand modelContent then []
    else
      let text := trim content
      if text = "" then [] else [⟨event.id, event.timestamp, text, utf16Length text, attachments⟩]
  | _ => []

def extractCheckpointTaskAnchors (events : List PlatformEvent) (sourceRunId : Option String) : List CheckpointTaskAnchor :=
  match sourceRunId.filter (· ≠ "") with
  | none => []
  | some sourceRunId => events.flatMap (taskAnchorOf sourceRunId)

structure MemorySnapshot where
  index : Nat
  content : String

def memoryOf (entry : PlatformEvent × Nat) : Option MemorySnapshot :=
  match entry.1.body with
  | .memoryContext content => some ⟨entry.2, content⟩
  | _ => none

def latestMemorySnapshot (events : List PlatformEvent) : Option MemorySnapshot :=
  events.zipIdx.reverse.findSome? memoryOf

def trajectoryOf (taskAnchorIds : List String) (event : PlatformEvent) : List UserTrajectoryItem :=
  match event.body with
  | .userMessage content modelContent _ _ =>
    if isSystemCommand modelContent || event.id ∈ taskAnchorIds then []
    else
      let content := trim content
      if content = "" then [] else [⟨event.id, event.timestamp, content, utf16Length content⟩]
  | _ => []

structure Measured where
  fixedTokens : Int
  userHistoryTokenCap : Int
  compressedTaskAnchors : List CheckpointTaskAnchor
  memorySnapshot : Option String

structure Attempt where
  rawTailBudgetTokens : Int
  rawTail : RawTail
  measured : Measured
  /-- The loop ended because the budget is that of the cut. -/
  stable : Bool

structure ContextCheckpointPlan where
  targetTokens : Int
  summaryBudgetTokens : Int
  rawTailBudgetTokens : Int
  fixedTokens : Int
  userHistoryTokenCap : Int
  memorySnapshot : Option String
  rawTailObservedTokens : Int
  rawTailStartIndex : Nat
  rawTailStartEventId : Option String
  coveredEventCount : Nat
  taskAnchors : List CheckpointTaskAnchor

section Plan

variable (estimates : Estimates) (input : ContextCheckpointPlanInput)

def checkpointProjectionFixedTokens (events : List PlatformEvent) (taskAnchors : List CheckpointTaskAnchor)
    (userHistoryTokenCap : Int) (memorySnapshot : Option String) : Int :=
  let taskAnchorIds := taskAnchors.map (·.eventId)
  let userTrajectory := events.flatMap (trajectoryOf taskAnchorIds)
  min (estimates.history taskAnchors userTrajectory : Int) userHistoryTokenCap +
    estimates.text (memorySnapshot.getD "") + checkpointProtocolTokenReserve

def targetTokens : Int := max 1 input.thresholdTokens / 2

def summaryBudgetTokens : Int := min (max 1 input.contextWindow * 8 / 100) checkpointSummaryTokenCap

def baseFixedTokens : Int := max 0 (input.baseFixedTokens.getD 0)

def compressedTaskAnchors (startIndex : Nat) : List CheckpointTaskAnchor :=
  let compressedEventIds := (input.events.take startIndex).map (·.id)
  (extractCheckpointTaskAnchors input.events input.sourceRunId).filter (·.eventId ∈ compressedEventIds)

def memorySnapshotAt (startIndex : Nat) : Option String :=
  ((latestMemorySnapshot input.events).filter (·.index < startIndex)).map (·.content)

def userHistoryTokenCapFor (memoryTokens : Int) : Int :=
  if input.adaptUserHistoryToTarget = some false then checkpointUserHistoryTokenCap
  else
    min checkpointUserHistoryTokenCap
      (max 0 (targetTokens input - baseFixedTokens input - summaryBudgetTokens input - memoryTokens -
        checkpointProtocolTokenReserve))

def measure (startIndex : Nat) : Measured :=
  let compressedEvents := input.events.take startIndex
  let taskAnchors := compressedTaskAnchors input startIndex
  let memorySnapshot := memorySnapshotAt input startIndex
  let userHistoryTokenCap := userHistoryTokenCapFor input (estimates.text (memorySnapshot.getD ""))
  { fixedTokens := baseFixedTokens input +
      checkpointProjectionFixedTokens estimates compressedEvents taskAnchors userHistoryTokenCap memorySnapshot
    userHistoryTokenCap
    compressedTaskAnchors := taskAnchors
    memorySnapshot }

def nextBudget (fixedTokens : Int) : Int :=
  min checkpointRawTailTokenCap (max 0 (targetTokens input - fixedTokens - summaryBudgetTokens input))

def rawTailFor (budget : Int) : RawTail := selectAtomicRawTail estimates.rawEvents input.events budget

def adjust : Nat → Attempt → Attempt
  | 0, attempt => attempt
  | attempts + 1, attempt =>
    let measured := measure estimates input attempt.rawTail.startIndex
    let next := nextBudget input measured.fixedTokens
    if next = attempt.rawTailBudgetTokens then { attempt with measured, stable := true }
    else
      let budget := min attempt.rawTailBudgetTokens next
      adjust attempts { attempt with measured, rawTailBudgetTokens := budget, rawTail := rawTailFor estimates input budget }

def firstAttempt : Attempt where
  rawTailBudgetTokens := checkpointRawTailTokenCap
  rawTail := rawTailFor estimates input checkpointRawTailTokenCap
  measured := ⟨baseFixedTokens input, checkpointUserHistoryTokenCap, [], none⟩
  stable := false

def adjusted : Attempt := adjust estimates input (input.events.length + 2) (firstAttempt estimates input)

def planContextCheckpoint : ContextCheckpointPlan :=
  let final := adjusted estimates input
  { targetTokens := targetTokens input
    summaryBudgetTokens := summaryBudgetTokens input
    rawTailBudgetTokens := final.rawTailBudgetTokens
    fixedTokens := final.measured.fixedTokens
    userHistoryTokenCap := final.measured.userHistoryTokenCap
    memorySnapshot := final.measured.memorySnapshot.filter (· ≠ "")
    rawTailObservedTokens := final.rawTail.observedTokens
    rawTailStartIndex := final.rawTail.startIndex
    rawTailStartEventId := (input.events[final.rawTail.startIndex]?).map (·.id)
    coveredEventCount := final.rawTail.startIndex
    taskAnchors := final.measured.compressedTaskAnchors }

end Plan

end AgentSaas.ContextCheckpoint
