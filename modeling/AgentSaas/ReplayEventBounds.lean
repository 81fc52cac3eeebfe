import AgentSaas.JsonStrings
import AgentSaas.Rings
import AgentSaas.Scans

/-! What the model sees of a tool result: the whole text, or its head and its tail around a
marker that says what was left out. The text is only kept as a bounded head and tail. -/

namespace AgentSaas.ReplayEventBounds
open CodePoints JsonStrings Rings Scans ToolCallRepair

def MAX_STRING_LENGTH := 9007199254740991

def MODEL_TOOL_RESULT_MAX_CHARS := 8000
def MODEL_TOOL_RESULT_HEAD_CHARS := 2000
def TOOL_RESULT_PROJECTION_PREFIX_CHARS := MODEL_TOOL_RESULT_MAX_CHARS
def TOOL_RESULT_PROJECTION_SUFFIX_CHARS := 6000
def MODEL_TOOL_RESULT_TAIL_TARGET_CHARS := 5600
def TRACE_LINE_COUNT := 200
def TRACE_CHAR_COUNT := 6000

/-- A string of the language, whose length has a limit. -/
structure JsString where
  text : Text
  bounded : text.length ≤ MAX_STRING_LENGTH

def NEWLINE : Text := [unit '\n']

structure ToolResultProjectionSource where
  prefixText : Text
  suffixText : Text
  totalChars : Nat
  totalLines : Nat

structure Scan where
  front : List Text
  suffixRing : RingBuffer Text
  totalChars : Nat
  totalLines : Nat

def Scan.next (scan : Scan) (char : Text) : Scan where
  front := if scan.front.length < TOOL_RESULT_PROJECTION_PREFIX_CHARS then scan.front ++ [char] else scan.front
  suffixRing := scan.suffixRing.push TOOL_RESULT_PROJECTION_SUFFIX_CHARS char
  totalChars := scan.totalChars + 1
  totalLines := if char = NEWLINE then scan.totalLines + 1 else scan.totalLines

def buildToolResultProjectionSource (content : Text) : ToolResultProjectionSource :=
  let scan := (codePoints content).foldl Scan.next ⟨[], .empty, 0, 1⟩
  ⟨scan.front.flatten, (scan.suffixRing.items TOOL_RESULT_PROJECTION_SUFFIX_CHARS).flatten, scan.totalChars, scan.totalLines⟩

def codePointLength (value : Text) : Nat := (codePoints value).length

def takeCodePoints (value : Text) (count : Nat) : Text := ((codePoints value).take count).flatten

def takeTailCodePoints (chars : List Text) (count : Nat) : Text := (chars.drop (chars.length - count)).flatten

def countNewlines (chars : List Text) : Nat := chars.count NEWLINE

structure LineMarker where
  toolCallId : Text
  totalChars : Nat
  totalLines : Nat
  headEndLine : Nat
  tailStartLine : Nat
  omittedStartLine : Nat
  omittedEndLine : Nat

def lineMarker (input : LineMarker) : Text :=
  let quotedId := quote input.toolCallId
  let lineCount := min TRACE_LINE_COUNT (input.omittedEndLine + 1 - input.omittedStartLine)
  [units "\n[tool_result 已截断：共 ", decimal input.totalLines, units " 行/", decimal input.totalChars, units " 字符；保留 1-",
    decimal input.headEndLine, units "、", decimal input.tailStartLine, units "-", decimal input.totalLines, units " 行；省略 ",
    decimal input.omittedStartLine, units "-", decimal input.omittedEndLine,
    units " 行。\n按行读取：SessionContext(action=\"trace\", toolCallId=", quotedId, units ", startLine=", decimal input.omittedStartLine,
    units ", lineCount=", decimal lineCount, units ")\n关键字定位：SessionContext(action=\"trace\", toolCallId=", quotedId,
    units ", query=\"关键字\")]\n"].flatten

structure CharMarker where
  toolCallId : Text
  totalChars : Nat
  totalLines : Nat
  headEndChar : Nat
  tailStartChar : Nat
  omittedStartChar : Nat
  omittedEndChar : Nat

def charMarker (input : CharMarker) : Text :=
  let quotedId := quote input.toolCallId
  let charCount := min TRACE_CHAR_COUNT (input.omittedEndChar + 1 - input.omittedStartChar)
  [units "\n[tool_result 已截断：共 ", decimal input.totalLines, units " 行/", decimal input.totalChars, units " 字符；保留字符 1-",
    decimal input.headEndChar, units "、", decimal input.tailStartChar, units "-", decimal input.totalChars, units "；省略 ",
    decimal input.omittedStartChar, units "-", decimal input.omittedEndChar,
    units "。\n按字符读取：SessionContext(action=\"trace\", toolCallId=", quotedId, units ", startChar=", decimal input.omittedStartChar,
    units ", charCount=", decimal charCount, units ")\n关键字定位：SessionContext(action=\"trace\", toolCallId=", quotedId,
    units ", query=\"关键字\")]\n"].flatten

/-- `chars.indexOf('\n', from)` -/
def nextBreak (chars : List Text) (start : Nat) : Option Nat := ((chars.drop start).findIdx? (· = NEWLINE)).map (start + ·)

theorem le_nextBreak {chars : List Text} {start found : Nat} (h : nextBreak chars start = some found) : start ≤ found := by
  obtain ⟨index, -, rfl⟩ := Option.map_eq_some_iff.mp h
  exact Nat.le_add_right ..

section Project
variable (source : ToolResultProjectionSource) (toolCallId : Text)

def fitTail (head suffix : List Text) (headEndLine tailOffset : Nat) : Option Text :=
  if _inside : tailOffset < suffix.length then
    let tail := suffix.drop tailOffset
    if head.length + tail.length < MODEL_TOOL_RESULT_MAX_CHARS / 2 then none
    else
      let tailStartLine := source.totalLines - countNewlines tail
      let omittedStartLine := headEndLine + 1
      let omittedEndLine := tailStartLine - 1
      if omittedStartLine > omittedEndLine then none
      else
        let marker := lineMarker ⟨toolCallId, source.totalChars, source.totalLines, headEndLine, tailStartLine,
          omittedStartLine, omittedEndLine⟩
        if head.length + codePointLength marker + tail.length ≤ MODEL_TOOL_RESULT_MAX_CHARS then
          some (head.flatten ++ marker ++ tail.flatten)
        else
          match _found : nextBreak suffix tailOffset with
          | none => none
          | some nextBreak =>
            if nextBreak ≥ suffix.length - 1 then none else fitTail head suffix headEndLine (nextBreak + 1)
  else none
termination_by suffix.length - tailOffset
decreasing_by
  have := le_nextBreak _found
  omega

def projectLineAware : Option Text := do
  let front := codePoints source.prefixText
  let suffix := codePoints source.suffixText
  let headCandidate := front.take MODEL_TOOL_RESULT_HEAD_CHARS
  let headBreak ← lastIndex (· = NEWLINE) headCandidate
  let head := headCandidate.take (headBreak + 1)
  let headEndLine := countNewlines head
  let initialTailOffset := suffix.length - MODEL_TOOL_RESULT_TAIL_TARGET_CHARS
  let initialTailBreak ← nextBreak suffix initialTailOffset
  if initialTailBreak ≥ suffix.length - 1 then none
  else fitTail source toolCallId head suffix headEndLine (initialTailBreak + 1)

def charMarkerOf (head : List Text) (tailCount : Nat) : Text :=
  let tailStartChar := source.totalChars - tailCount + 1
  charMarker ⟨toolCallId, source.totalChars, source.totalLines, head.length, tailStartChar, head.length + 1, tailStartChar - 1⟩

/-- The marker's length depends on the tail, and the tail on the marker: so many attempts are made
to find the two that fit. -/
def fitTailCount (head suffix : List Text) : Nat → Nat → Text
  | 0, tailCount =>
    takeCodePoints (head.flatten ++ charMarkerOf source toolCallId head tailCount ++ takeTailCodePoints suffix tailCount)
      MODEL_TOOL_RESULT_MAX_CHARS
  | attempts + 1, tailCount =>
    let marker := charMarkerOf source toolCallId head tailCount
    let nextTailCount := min suffix.length (MODEL_TOOL_RESULT_MAX_CHARS - head.length - codePointLength marker)
    if nextTailCount = tailCount then head.flatten ++ marker ++ takeTailCodePoints suffix tailCount
    else fitTailCount head suffix attempts nextTailCount

def projectByCharacter : Text :=
  let front := codePoints source.prefixText
  let suffix := codePoints source.suffixText
  let head := front.take MODEL_TOOL_RESULT_HEAD_CHARS
  fitTailCount source toolCallId head suffix 8 (min suffix.length (MODEL_TOOL_RESULT_MAX_CHARS - head.length))

def projectToolResultSourceForModel : Text :=
  if source.totalChars ≤ MODEL_TOOL_RESULT_MAX_CHARS then source.prefixText
  else (projectLineAware source toolCallId).getD (projectByCharacter source toolCallId)

end Project

def projectToolResultContentForModel (content toolCallId : Text) : Text :=
  projectToolResultSourceForModel (buildToolResultProjectionSource content) toolCallId

end AgentSaas.ReplayEventBounds
