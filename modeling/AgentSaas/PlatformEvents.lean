import Mathlib.Algebra.Ring.Nat

/-! The durable events of a session, with the fields that the context is rebuilt from. -/

namespace AgentSaas.PlatformEvents

structure ModelToolCall where
  id : String
  name : String
  arguments : String
  deriving DecidableEq, Repr

structure ModelAttachmentRef where
  attachmentId : String
  originalName : String
  deriving DecidableEq, Repr

structure ModelToolDefinition where
  name : String
  definition : String
  deriving DecidableEq, Repr

inductive CheckpointTrigger where
  | manual | threshold
  deriving DecidableEq, Repr

structure CheckpointTaskAnchor where
  eventId : String
  timestamp : String
  text : String
  originalChars : Nat
  attachments : List ModelAttachmentRef
  deriving DecidableEq, Repr

structure ContextCheckpointMetadata where
  version : Nat
  trigger : CheckpointTrigger
  sourceRunId : Option String
  targetTokens : Int
  fixedTokens : Int
  userHistoryTokenCap : Option Int
  taskAnchors : List CheckpointTaskAnchor
  memorySnapshot : Option String
  deriving DecidableEq, Repr

/-- `type`, with the fields of each; the types that nothing here asks for by name are
`other`, and `diagnostic` when they are kept from the model. -/
inductive PlatformEventBody where
  | mcpToolCatalogSnapshot
  | mcpToolsLoaded (tools : List ModelToolDefinition)
  | userMessage (content : String) (modelContent : Option String) (attachments : List ModelAttachmentRef)
      (hiddenFromUserTranscript : Bool)
  | memoryContext (content : String)
  | assistantMessage (content : String)
  | assistantThinking (content : String)
  | assistantToolCalls (content : String) (toolCalls : List ModelToolCall)
  | toolResult (toolCallId toolName content : String)
  | contextRewind (excludedEventIds : List String)
  | compaction (summary : String) (cutoffEventId : Option String) («inline» : Bool)
      (checkpoint : Option ContextCheckpointMetadata)
  | runFinished
  | diagnostic (type : String)
  | other (type : String)
  deriving DecidableEq, Repr

structure PlatformEvent where
  id : String
  timestamp : String
  runId : Option String
  body : PlatformEventBody
  deriving DecidableEq, Repr

def PlatformEvent.issues (event : PlatformEvent) : List String :=
  match event.body with
  | .assistantToolCalls _ toolCalls => toolCalls.map (·.id)
  | _ => []

def PlatformEvent.answers (event : PlatformEvent) : Option String :=
  match event.body with
  | .toolResult toolCallId _ _ => some toolCallId
  | _ => none

/-- `String.prototype.trim` takes these away. -/
def isSpace (char : Char) : Bool :=
  char.val ∈ [0x09, 0x0A, 0x0B, 0x0C, 0x0D, 0x20, 0xA0, 0x1680, 0x2028, 0x2029, 0x202F, 0x205F, 0x3000, 0xFEFF] ||
    (0x2000 ≤ char.val && char.val ≤ 0x200A)

def trim (text : String) : String :=
  String.ofList ((text.toList.dropWhile isSpace).reverse.dropWhile isSpace).reverse

def utf16Length (text : String) : Nat := (text.toList.map fun char => if char.val > 0xFFFF then 2 else 1).sum

def systemCommandPrefix : String := "[系统命令]"

/-- `modelContent?.startsWith('[系统命令]')` -/
def isSystemCommand (modelContent : Option String) : Bool :=
  modelContent.any fun text => systemCommandPrefix.toList.isPrefixOf text.toList

end AgentSaas.PlatformEvents
