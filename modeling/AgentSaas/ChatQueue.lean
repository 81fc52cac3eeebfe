import AgentSaas.Dictionaries

/-! The client's projection of the server's message queue. Frames may come late, twice
or out of order. -/

namespace AgentSaas.ChatQueue
open Dictionaries

inductive ChatQueueDeliveryMode where
  | queue | steer
  deriving DecidableEq, Repr

inductive ChatQueueStatus where
  | queued | running | steered | cancelPending | cancelled | completed | failed
  deriving DecidableEq, Repr

inductive RunLivenessState where
  | unknown | active | busy | waitingInteraction | stale | orphaned | terminal
  deriving DecidableEq, Repr

inductive RunLivenessRecoveryAction where
  | retry | cancel
  deriving DecidableEq, Repr

structure RunLiveness where
  state : RunLivenessState
  lastHeartbeatAt : Option String
  leaseExpiresAt : Option String
  ownerId : Option String
  reasonCode : Option String
  recoveryActions : List RunLivenessRecoveryAction
  detectedAt : Option String
  version : Int
  deriving DecidableEq, Repr

def unknownRunLiveness : RunLiveness := ⟨.unknown, none, none, none, none, [], none, 0⟩

def optionalString (value : Option String) : Option String := value.filter (· ≠ "")

def normalizeRunLiveness : Option RunLiveness → RunLiveness
  | none => unknownRunLiveness
  | some input =>
    if input.version < 1 then unknownRunLiveness
    else
      let recoveryActions := input.recoveryActions.eraseDups
      let reasonCode := optionalString input.reasonCode
      let safeActions :=
        if reasonCode = some "external_tool_outcome_unknown" then recoveryActions.filter (· = .cancel)
        else recoveryActions
      { state := input.state
        lastHeartbeatAt := optionalString input.lastHeartbeatAt
        leaseExpiresAt := optionalString input.leaseExpiresAt
        ownerId := optionalString input.ownerId
        reasonCode
        recoveryActions := if input.state = .terminal ∨ input.state = .unknown then [] else safeActions
        detectedAt := optionalString input.detectedAt
        version := input.version }

def mergeRunLiveness (currentValue incomingValue : Option RunLiveness) : RunLiveness :=
  let current := normalizeRunLiveness currentValue
  let incoming := normalizeRunLiveness incomingValue
  if current.state = .unknown then incoming
  else if incoming.state = .unknown then current
  else
    match current.state with
    | .terminal => current
    | .orphaned => if incoming.state = .terminal then incoming else current
    | .stale => if incoming.state = .terminal ∨ incoming.state = .orphaned then incoming else current
    | _ => incoming

/-- Attachments are carried as text. -/
structure ChatQueueItem where
  sessionId : String
  clientMsgId : String
  runId : String
  sourceRunId : String
  deliveryMode : ChatQueueDeliveryMode
  status : ChatQueueStatus
  queuePosition : Option Int
  targetRunId : Option String
  content : Option String
  attachments : Option String
  acceptedAt : Option String
  updatedAt : Option String
  reason : Option String
  liveness : Option RunLiveness
  deriving DecidableEq, Repr

structure ChatQueueSnapshot where
  sessionId : String
  items : List ChatQueueItem
  generatedAt : String

inductive IntentState where
  | sending | verifying | failed
  deriving DecidableEq, Repr

structure ChatQueueLocalIntent where
  sessionId : Option String
  clientMsgId : String
  deliveryMode : ChatQueueDeliveryMode
  content : Option String
  attachments : Option String
  state : IntentState
  createdAt : Int
  reason : Option String
  deriving DecidableEq, Repr

structure ChatQueueState where
  sessionId : Option String
  items : Dictionary String ChatQueueItem
  order : List String
  localIntents : Dictionary String ChatQueueLocalIntent
  hydrated : Bool
  snapshotGeneratedAt : Option String

structure ChatQueueItemPatch where
  sessionId : String
  clientMsgId : Option String
  runId : Option String
  sourceRunId : Option String
  deliveryMode : Option ChatQueueDeliveryMode
  status : ChatQueueStatus
  queuePosition : Option Int
  targetRunId : Option String
  content : Option String
  attachments : Option String
  acceptedAt : Option String
  updatedAt : Option String
  reason : Option String
  liveness : Option RunLiveness
  deriving DecidableEq, Repr

structure Aliases where
  clientMsgId : Option String
  runId : Option String
  sourceRunId : Option String

inductive ChatQueueReducerEvent where
  | snapshot (snapshot : ChatQueueSnapshot)
  | serverUpsert (item : ChatQueueItemPatch)
  | serverTerminal (sessionId : String) (status : ChatQueueStatus) (aliases : Aliases) (updatedAt reason : Option String)
  | steered (sessionId : String) (clientMsgIds sourceRunIds : List String) (targetRunId updatedAt : Option String)
  | cancelRequested (sessionId : String) (aliases : Aliases) (updatedAt : Option String)
  | intentAdded (intent : ChatQueueLocalIntent)
  | intentUpdated (clientMsgId : String) (state : IntentState) (reason : Option String)
  | intentRemoved (clientMsgId : String)
  | reset (sessionId : Option String)

def isChatQueueTerminalStatus (status : ChatQueueStatus) : Bool :=
  status = .cancelled || status = .completed || status = .failed

/-- `SERVER_PROGRESS_RANK`; `cancel_pending` has none and is never asked for. -/
def serverProgressRank : ChatQueueStatus → Nat
  | .queued | .cancelPending => 0
  | .running => 1
  | .steered => 2
  | .cancelled | .completed | .failed => 3

def truthy (text : Option String) : Option String := text.filter (· ≠ "")

def createChatQueueState (sessionId : Option String) : ChatQueueState :=
  ⟨truthy sessionId, .empty, [], .empty, false, none⟩

/-- `left && left === right` -/
def isAlias (name : Option String) (own : String) : Bool := truthy name = some own

def findItemKey (state : ChatQueueState) (aliases : Aliases) : Option String :=
  match (truthy aliases.clientMsgId).filter state.items.has with
  | some key => some key
  | none =>
    state.order.find? fun key =>
      (state.items.get key).any fun item =>
        isAlias aliases.clientMsgId item.clientMsgId || isAlias aliases.runId item.runId ||
          isAlias aliases.sourceRunId item.sourceRunId

section Reducer

-- `Date.parse`, with nothing for `NaN`.
variable (dateParse : String → Option Int)

def compareIso (left right : Option String) : Option Int := do
  let left ← truthy left
  let right ← truthy right
  let a ← dateParse left
  let b ← dateParse right
  return a - b

def settleServerStatus (current : Option ChatQueueItem) (incoming : ChatQueueStatus) (incomingUpdatedAt : Option String) :
    ChatQueueStatus :=
  match current with
  | none => if incoming = .cancelPending then .queued else incoming
  | some current =>
    if incoming = .cancelPending then if current.status = .queued then .cancelPending else current.status
    else if current.status = .cancelPending then incoming
    else if isChatQueueTerminalStatus current.status then
      if !isChatQueueTerminalStatus incoming then current.status
      else if current.status = incoming then current.status
      else if (compareIso dateParse incomingUpdatedAt current.updatedAt).getD 0 > 0 then incoming
      else current.status
    else if isChatQueueTerminalStatus incoming then incoming
    else if serverProgressRank incoming ≥ serverProgressRank current.status then incoming
    else current.status

def canonicalizeItem (patch : ChatQueueItemPatch) (current : Option ChatQueueItem) : Option ChatQueueItem :=
  let clientMsgId := patch.clientMsgId <|> current.map (·.clientMsgId)
  let runId := patch.runId <|> current.map (·.runId) <|> patch.sourceRunId
  let sourceRunId := patch.sourceRunId <|> current.map (·.sourceRunId) <|> runId
  match truthy clientMsgId, truthy runId, truthy sourceRunId with
  | some clientMsgId, some runId, some sourceRunId =>
    let status := settleServerStatus dateParse current patch.status patch.updatedAt
    let kept := if status ≠ patch.status then current else none
    some
      { sessionId := patch.sessionId
        clientMsgId
        runId
        sourceRunId
        deliveryMode := (patch.deliveryMode <|> current.map (·.deliveryMode)).getD .queue
        status
        queuePosition := patch.queuePosition <|> current.bind (·.queuePosition)
        targetRunId := patch.targetRunId <|> current.bind (·.targetRunId)
        content := patch.content <|> current.bind (·.content)
        attachments := patch.attachments <|> current.bind (·.attachments)
        acceptedAt := patch.acceptedAt <|> current.bind (·.acceptedAt)
        updatedAt := truthy (kept.bind (·.updatedAt)) <|> patch.updatedAt <|> current.bind (·.updatedAt)
        reason := kept.bind (·.reason) <|> patch.reason <|> current.bind (·.reason)
        liveness :=
          if patch.liveness.isSome || (current.bind (·.liveness)).isSome then
            some (mergeRunLiveness (current.bind (·.liveness)) patch.liveness)
          else none }
  | _, _, _ => none

/-- The key takes the place of the one under which the item was found. -/
def replaceKey (order : List String) (existingKey : Option String) (key : String) : List String :=
  let order :=
    match existingKey with
    | some existingKey => order.map fun candidate => if candidate = existingKey then key else candidate
    | none => order ++ [key]
  order.eraseDups

def withServerUpsert (state : ChatQueueState) (patch : ChatQueueItemPatch) : ChatQueueState :=
  if (truthy state.sessionId).any (patch.sessionId ≠ ·) then state
  else
    let existingKey := findItemKey state ⟨patch.clientMsgId, patch.runId, patch.sourceRunId⟩
    match canonicalizeItem dateParse patch (existingKey.bind state.items.get) with
    | none => state
    | some item =>
      let key := item.clientMsgId
      let items :=
        match existingKey.filter (· ≠ key) with
        | some existingKey => state.items.erase existingKey
        | none => state.items
      { state with
        sessionId := state.sessionId <|> some item.sessionId
        items := items.set key item
        order := replaceKey state.order existingKey key
        localIntents := state.localIntents.erase key }

structure Normalized where
  seenClientIds : List String
  seenRunIds : List String
  items : List ChatQueueItem

/-- One round of the loop of `normalizeSnapshot`. -/
def normalizeItem (sessionId : String) (normalized : Normalized) (raw : ChatQueueItem) : Normalized :=
  if raw.sessionId ≠ sessionId then normalized
  else if raw.clientMsgId = "" || raw.runId = "" || raw.sourceRunId = "" then normalized
  else if raw.clientMsgId ∈ normalized.seenClientIds || raw.runId ∈ normalized.seenRunIds then normalized
  else
    { seenClientIds := raw.clientMsgId :: normalized.seenClientIds
      seenRunIds := raw.runId :: normalized.seenRunIds
      items := normalized.items ++
        [{ raw with status := if raw.status = .cancelPending then .queued else raw.status }] }

def normalizeSnapshot (snapshot : ChatQueueSnapshot) : ChatQueueSnapshot :=
  { snapshot with items := (snapshot.items.foldl (normalizeItem snapshot.sessionId) ⟨[], [], []⟩).items }

def hydratedItem (state : ChatQueueState) (item : ChatQueueItem) : ChatQueueItem :=
  match (state.items.get item.clientMsgId).filter (·.runId = item.runId) with
  | some previous => { item with liveness := some (mergeRunLiveness previous.liveness item.liveness) }
  | none => item

def hydrateChatQueueSnapshot (state : ChatQueueState) (rawSnapshot : ChatQueueSnapshot) : ChatQueueState :=
  let snapshot := normalizeSnapshot rawSnapshot
  let items := snapshot.items.foldl (fun items item => items.set item.clientMsgId (hydratedItem state item)) .empty
  { sessionId := some snapshot.sessionId
    items
    order := snapshot.items.map (·.clientMsgId)
    localIntents := state.localIntents.filter fun clientMsgId intent =>
      !items.has clientMsgId && (truthy intent.sessionId).all (· = snapshot.sessionId)
    hydrated := true
    snapshotGeneratedAt := some snapshot.generatedAt }

def ChatQueueItem.asPatch (item : ChatQueueItem) : ChatQueueItemPatch :=
  ⟨item.sessionId, some item.clientMsgId, some item.runId, some item.sourceRunId, some item.deliveryMode, item.status,
    item.queuePosition, item.targetRunId, item.content, item.attachments, item.acceptedAt, item.updatedAt, item.reason,
    item.liveness⟩

structure AliasPatch where
  status : ChatQueueStatus
  targetRunId : Option String
  updatedAt : Option String
  reason : Option String

def patchByAliases (state : ChatQueueState) (aliases : Aliases) (patch : AliasPatch) : ChatQueueState :=
  match (findItemKey state aliases).bind state.items.get with
  | none => state
  | some current =>
    withServerUpsert dateParse state
      { current.asPatch with
        status := patch.status
        targetRunId := truthy patch.targetRunId <|> current.targetRunId
        updatedAt := truthy patch.updatedAt <|> current.updatedAt
        reason := truthy patch.reason <|> current.reason }

/-- The state belongs to another session. -/
def isForeign (state : ChatQueueState) (sessionId : String) : Bool := (truthy state.sessionId).any (sessionId ≠ ·)

def reduceChatQueueEvent (state : ChatQueueState) : ChatQueueReducerEvent → ChatQueueState
  | .snapshot snapshot => hydrateChatQueueSnapshot state snapshot
  | .serverUpsert item => withServerUpsert dateParse state item
  | .serverTerminal sessionId status aliases updatedAt reason =>
    if isForeign state sessionId then state
    else patchByAliases dateParse state aliases ⟨status, none, updatedAt, reason⟩
  | .steered sessionId clientMsgIds sourceRunIds targetRunId updatedAt =>
    if isForeign state sessionId then state
    else
      (List.range (max clientMsgIds.length sourceRunIds.length)).foldl (fun next index =>
        patchByAliases dateParse next ⟨clientMsgIds[index]?, none, sourceRunIds[index]?⟩
          ⟨.steered, targetRunId, updatedAt, none⟩) state
  | .cancelRequested sessionId aliases updatedAt =>
    if isForeign state sessionId then state
    else patchByAliases dateParse state aliases ⟨.cancelPending, none, updatedAt, none⟩
  | .intentAdded intent =>
    if state.items.has intent.clientMsgId then state
    else if (truthy state.sessionId).any fun own => (truthy intent.sessionId).any (· ≠ own) then state
    else { state with localIntents := state.localIntents.set intent.clientMsgId intent }
  | .intentUpdated clientMsgId intentState reason =>
    match state.localIntents.get clientMsgId with
    | none => state
    | some current =>
      { state with
        localIntents := state.localIntents.set clientMsgId
          { current with state := intentState, reason := truthy reason <|> current.reason } }
  | .intentRemoved clientMsgId => { state with localIntents := state.localIntents.erase clientMsgId }
  | .reset sessionId => createChatQueueState sessionId

end Reducer

end AgentSaas.ChatQueue
