import AgentSaas.ToolCallRepair.Text

/-! The user's messages of a part of the log that has been compacted, as the text that stands
for them: as many of the last ones as a budget of tokens allows. -/

namespace AgentSaas.MessageTrail
open ToolCallRepair (Text units)

structure AttachmentRef where
  attachmentId : Text
  originalName : Text
  deriving DecidableEq, Repr

structure TrailItem where
  eventId : Text
  timestamp : Text
  content : Text
  originalChars : Nat
  truncated : Bool
  attachments : List AttachmentRef
  deriving DecidableEq, Repr

/-- What the texts are measured and stamped with; a stamp is empty where the time is not one. -/
structure Renderer where
  estimateContextTokens : Text → Int
  formatTrailTimestamp : Text → Text

def decimal (value : Nat) : Text := units (toString value)

def formatAttachmentRefs (attachments : List AttachmentRef) : Text :=
  if attachments = [] then []
  else
    units "\n   附件引用：" ++ List.intercalate (units "、") (attachments.map fun attachment =>
      attachment.originalName ++ units "(" ++ attachment.attachmentId ++ units ")")

/-- The first three quarters of what is kept, and the rest from the end of the text. -/
def excerptTextForBudget (content : Text) (keptChars : Nat) : Text :=
  if content.length ≤ keptChars then content
  else
    let headChars := (3 * keptChars + 3) / 4
    let tailChars := keptChars - headChars
    content.take headChars ++ units "\n……[因 60K Token 用户历史上限省略 " ++ decimal (content.length - keptChars)
      ++ units " 字；原文可按 eventId 检索]……\n" ++ content.drop (content.length - tailChars)

/-- The binary search from `low` on, below `stop`. -/
def searchExcerpt (content : Text) (fits : Text → Bool) (low stop : Nat) (best : Option Text) : Option Text :=
  if low < stop then
    let keptChars := (low + stop - 1) / 2
    let candidate := excerptTextForBudget content keptChars
    if fits candidate then searchExcerpt content fits (keptChars + 1) stop (some candidate)
    else searchExcerpt content fits low keptChars best
  else best
termination_by stop - low

def fitTextToBudget (content : Text) (fits : Text → Bool) : Option Text :=
  searchExcerpt content fits 0 (content.length + 1) none

section Rendering

variable (renderer : Renderer)

def formatTrailLine (item : TrailItem) (index : Nat) (content : Text) : Text :=
  let ts := renderer.formatTrailTimestamp item.timestamp
  let truncation := if item.truncated ∨ content ≠ item.content then
    units " [原文 " ++ decimal item.originalChars ++ units " 字；可按 eventId 检索完整内容]" else []
  decimal (index + 1) ++ units ". " ++ (if ts ≠ [] then units "[" ++ ts ++ units "] " else []) ++ units "[eventId="
    ++ item.eventId ++ units "]" ++ truncation ++ units "\n" ++ content ++ formatAttachmentRefs item.attachments

def trailOpening : List Text :=
  [ units "<user-message-trail>",
    units "以下逐条列出被压缩段中的真实用户文本消息；60K Token 预算内保留原文，超限边界消息保留头尾，附件只保留引用：" ]

def omittedLine (omittedCount : Nat) : Text :=
  units "……（最早 " ++ decimal omittedCount ++ units " 条用户消息超过 60K Token 轨迹上限；原文仍可用 SessionContext 检索）……"

def renderTrailBlock (lines : List Text) (omittedCount : Nat) : Text :=
  List.intercalate (units "\n")
    (trailOpening ++ (if omittedCount > 0 then [omittedLine omittedCount] else []) ++ lines ++ [units "</user-message-trail>"])

/-- The lines of items that are shown in full, the first one at the index. -/
def fullLines : Nat → List TrailItem → List Text
  | _, [] => []
  | index, item :: items => formatTrailLine renderer item index item.content :: fullLines (index + 1) items

variable (tokenBudget : Int)

def fitsBudget (lines : List Text) (omittedCount : Nat) : Bool :=
  renderer.estimateContextTokens (renderTrailBlock lines omittedCount) ≤ tokenBudget

structure Selected where
  lines : List Text
  omittedCount : Nat

/-- Back from the last item; the items before it are those that are left. -/
def selectLines : List TrailItem → List Text → Selected
  | [], selected => ⟨selected, 0⟩
  | item :: earlier, selected =>
    let index := earlier.length
    let fullLine := formatTrailLine renderer item index item.content
    if fitsBudget renderer tokenBudget (fullLine :: selected) index then selectLines earlier (fullLine :: selected)
    else
      match fitTextToBudget item.content fun candidateContent =>
        fitsBudget renderer tokenBudget (formatTrailLine renderer item index candidateContent :: selected) index with
      | some fittedContent => ⟨formatTrailLine renderer item index fittedContent :: selected, index⟩
      | none => ⟨selected, index + 1⟩

def renderUserMessageTrail (items : List TrailItem) : Text :=
  if items = [] ∨ tokenBudget ≤ 0 then []
  else if fitsBudget renderer tokenBudget (fullLines renderer 0 items) 0 then renderTrailBlock (fullLines renderer 0 items) 0
  else
    let selected := selectLines renderer tokenBudget items.reverse []
    if fitsBudget renderer tokenBudget selected.lines selected.omittedCount then
      renderTrailBlock selected.lines selected.omittedCount
    else []

end Rendering

end AgentSaas.MessageTrail
