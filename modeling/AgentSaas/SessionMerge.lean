import AgentSaas.Scans
import AgentSaas.ToolCallRepair.Text

/-! How a client joins the transcript it gets from the server with the messages it shows
already. A message keeps the fields that the joining reads. -/

namespace AgentSaas.SessionMerge
open Scans ToolCallRepair

inductive UserStatus | pending | queued | sent | failed
  deriving DecidableEq, Repr

inductive PermissionStatus | pending | allowed | denied
  deriving DecidableEq, Repr

inductive AskUserStatus | pending | answered
  deriving DecidableEq, Repr

inductive RuntimeFailureKind | policyRejection | quotaExhausted
  deriving DecidableEq, Repr

inductive RuntimeRecoveryAction | switchModel
  deriving DecidableEq, Repr

inductive MessageItem
  | user (id content : Text) (status : Option UserStatus) (clientMsgId : Option Text)
  | userVoice (id : Text) (clientMsgId : Option Text)
  | text (id content : Text) (runId : Option Text)
  | thinking (id content : Text) (runId : Option Text)
  | toolUse (id toolId : Text) (runId : Option Text)
  | systemError (id content : Text) (failureKind : Option RuntimeFailureKind)
      (recoveryAction : Option RuntimeRecoveryAction) (runId : Option Text)
  | permissionRequest (id : Text) (status : PermissionStatus)
  | askUser (id : Text) (status : AskUserStatus)
  | compaction (id : Text) (running : Bool) (summary : Option Text) (coveredEventCount : Option Int)
  /-- The types that no rule here singles out. -/
  | other (id : Text) (runId : Option Text)
  deriving DecidableEq, Repr

namespace MessageItem

def id : MessageItem → Text
  | user id _ _ _ | userVoice id _ | text id _ _ | thinking id _ _ | toolUse id _ _ | systemError id _ _ _ _
  | permissionRequest id _ | askUser id _ | compaction id _ _ _ | other id _ => id

def runId : MessageItem → Option Text
  | text _ _ runId | thinking _ _ runId | toolUse _ _ runId | systemError _ _ _ _ runId | other _ runId => runId
  | _ => none

def isText : MessageItem → Bool
  | text _ _ _ => true
  | _ => false

def isUser : MessageItem → Bool
  | user _ _ _ _ => true
  | _ => false

def inFlight : MessageItem → Bool
  | user _ _ status _ => status = some .pending || status = some .queued
  | _ => false

/-- The content of a user bubble or of assistant text. -/
def content : MessageItem → Option Text
  | user _ content _ _ | text _ content _ => some content
  | _ => none

end MessageItem

def truthy (field : Option Text) : Option Text := field.filter (!·.isEmpty)

/-- `value.trim()` is empty. -/
def blank (value : Text) : Bool := value.all isSpace

def compactionIdentity : MessageItem → Option (Option Text × Option Int)
  | .compaction _ running summary coveredEventCount =>
    if running then none
    else if summary = none ∧ coveredEventCount = none then none
    else some (summary, coveredEventCount)
  | _ => none

def runtimeFailureIdentity : MessageItem → Option (Option Text × RuntimeFailureKind × RuntimeRecoveryAction × Text)
  | .systemError _ content (some failureKind) (some recoveryAction) runId =>
    some (runId, failureKind, recoveryAction, content)
  | _ => none

def userClientMessageId : MessageItem → Option Text
  | .user _ _ _ clientMsgId | .userVoice _ clientMsgId => truthy clientMsgId
  | _ => none

def toolCallIdentity : MessageItem → Option Text
  | .toolUse _ toolId runId => do
    let runId ← truthy runId
    let toolId ← truthy (some toolId)
    return runId ++ units ":" ++ toolId
  | _ => none

def assistantIdentity : MessageItem → Option Text
  | .text _ content runId => named (units "text:") content runId
  | .thinking _ content runId => named (units "thinking:") content runId
  | _ => none
where
  named (type content : Text) (runId : Option Text) : Option Text := do
    let runId ← truthy runId
    if blank content then none else return type ++ runId ++ units ":" ++ content

/-- `serverIds.has(identity)` for an identity that the message has. -/
def projected {κ : Type} [DecidableEq κ] (identity : MessageItem → Option κ) (server : List MessageItem)
    (message : MessageItem) : Bool :=
  (identity message).any fun found => found ∈ server.filterMap identity

def unprojected (server : List MessageItem) (message : MessageItem) : Bool :=
  !(server.map MessageItem.id).contains message.id && !projected userClientMessageId server message &&
    !projected toolCallIdentity server message && !projected assistantIdentity server message &&
    !projected compactionIdentity server message && !projected runtimeFailureIdentity server message

def appendUnprojectedLocalTail (server tail : List MessageItem) : List MessageItem :=
  if tail.isEmpty then server
  else
    let unprojectedTail := tail.filter (unprojected server)
    if unprojectedTail.isEmpty then server else server ++ unprojectedTail

/-- The content of the last message of the server that is wanted. -/
def lastContent (wanted : MessageItem → Bool) (server : List MessageItem) : Option Text := do
  let index ← lastIndex wanted server
  let message ← server[index]?
  message.content

/-- What stays of the local tail when the server has gone on past the run of the anchor. -/
def stillOpen (anchorRunId : Option Text) (message : MessageItem) : Bool :=
  message.inFlight ||
    (match message with
      | .permissionRequest _ status => status = .pending
      | .askUser _ status => status = .pending
      | _ => false) ||
    (message.runId.isSome && message.runId ≠ anchorRunId)

def isRunText (anchorRunId : Option Text) (anchorContent : Text) : MessageItem → Bool
  | .text _ content runId => runId = anchorRunId && anchorContent.isPrefixOf content
  | _ => false

def lastServerUserContent (server : List MessageItem) : Option Text := lastContent MessageItem.isUser server

/-- The last bubble in flight, unless the last user message of the server has its content. -/
def inflightTailStart (server messages : List MessageItem) : Option Nat :=
  (lastIndex MessageItem.inFlight messages).filter fun index =>
    lastServerUserContent server ≠ (messages[index]?).bind MessageItem.content

def mergeServerMessagesWithLocalTail (server messages : List MessageItem) : List MessageItem :=
  match lastIndex MessageItem.isText messages with
  | none =>
    match inflightTailStart server messages with
    | some start => appendUnprojectedLocalTail server (messages.drop start)
    | none => server
  | some anchorIdx =>
    match messages[anchorIdx]? with
    | some (.text _ anchorContent anchorRunId) =>
      let localTailAfterAnchor := messages.drop (anchorIdx + 1)
      let inflightBefore := (inflightTailStart server messages).filter (· < anchorIdx)
      if blank anchorContent then
        match inflightBefore with
        | some start => appendUnprojectedLocalTail server (messages.drop start)
        | none => appendUnprojectedLocalTail server localTailAfterAnchor
      else
        let lastServerTextIndex := lastIndex MessageItem.isText server
        let matchingRunTextIndex :=
          if anchorRunId.isSome then lastIndex (isRunText anchorRunId anchorContent) server else none
        let latestTextCoversAnchor := (lastContent MessageItem.isText server).any (anchorContent.isPrefixOf ·)
        let historicalRunTextCoversAnchor := matchingRunTextIndex.isSome && matchingRunTextIndex ≠ lastServerTextIndex
        if latestTextCoversAnchor || matchingRunTextIndex.isSome then
          let inflightBeforeAnchor := (messages.take anchorIdx).filter fun message =>
            message.inFlight && message.content ≠ lastServerUserContent server
          let tail :=
            if historicalRunTextCoversAnchor && (truthy anchorRunId).isSome then
              localTailAfterAnchor.filter (stillOpen anchorRunId)
            else localTailAfterAnchor
          appendUnprojectedLocalTail server (inflightBeforeAnchor ++ tail)
        else
          appendUnprojectedLocalTail server (messages.drop (inflightBefore.getD anchorIdx))
    | _ => server

end AgentSaas.SessionMerge
