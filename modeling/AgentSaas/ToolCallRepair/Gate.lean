import AgentSaas.ToolCallRepair.Parsers

/-! The analysis of a whole assistant text, the recognisers of a text that may still become a
call, and the gate in front of the stream. -/

namespace AgentSaas.ToolCallRepair
open Prefixes

inductive ToolCallRepairDecision (Arguments : Type)
  | none
  | promotable (form : ToolCallRepairSyntax) (calls : List (RepairedToolCall Arguments))
  | rejected (form : ToolCallRepairSyntax) (outcome : ToolCallRepairOutcome)
  deriving DecidableEq, Repr

section Analysis
variable {Arguments : Type} (runtime : Runtime Arguments) (maxPayloadBytes : Nat)

def concludeCalls : List (RepairedToolCall Arguments) → ToolCallRepairDecision Arguments
  | [] => .none
  | first :: rest =>
    if rest.all (·.form = first.form) then .promotable first.form (first :: rest) else .rejected .mixed .rejectedMalformed

def analyzeCalls (text : Text) (allowed : List Text) (aggregateBytes : Nat) (calls : List (RepairedToolCall Arguments)) (cursor : Text) :
    ToolCallRepairDecision Arguments :=
  if cursor.isEmpty then concludeCalls calls
  else
    match _parsed : parseOne runtime maxPayloadBytes text cursor with
    | .error rejected => .rejected rejected.form rejected.outcome
    | .ok (call, rest) =>
      let aggregateBytes := aggregateBytes + byteLength (slice text call.rawStart call.rawEnd)
      if maxPayloadBytes < aggregateBytes then .rejected call.form .rejectedOverCap
      else if !allowed.contains call.name then .rejected call.form .rejectedUnknownTool
      else
        let calls := calls ++ [call]
        let next := skipWhitespace rest
        if next.isEmpty then concludeCalls calls
        else if !isPotentialCallStart next then .rejected (if 1 < calls.length then .mixed else call.form) .rejectedMixedText
        else analyzeCalls text allowed aggregateBytes calls next
termination_by cursor.length
decreasing_by
  have shorter := length_parseOne_lt _parsed
  have skipped := length_skipWhitespace_le rest
  omega

def analyzeAssistantToolCallText (text : Text) (allowedToolNames : List Text) : ToolCallRepairDecision Arguments :=
  let first := skipWhitespace text
  if first.isEmpty then .none
  else
    let protectedRanges := findMarkdownCodeRanges text
    match findMarkerOffsets text with
    | [] => .none
    | marker :: markers =>
      if (marker :: markers).any (isProtected · protectedRanges) then .rejected (syntaxAt (text.drop marker)) .rejectedProtectedRange
      else if !isPotentialCallStart first then .rejected (syntaxAt (text.drop marker)) .rejectedMixedText
      else analyzeCalls runtime maxPayloadBytes text allowedToolNames 0 [] first

structure ModelToolCall where
  id : Text
  name : Text
  arguments : Text
  deriving DecidableEq, Repr

def createRepairedModelToolCalls (text : Text) (calls : List (RepairedToolCall Arguments)) (requestSeed : Text) : List ModelToolCall :=
  calls.mapIdx fun index call =>
    let argumentsText := runtime.stringify call.arguments
    let form :=
      match call.form with
      | .namedBracket => units "named-bracket"
      | .toolBracket => units "tool-bracket"
      | .harmony => units "harmony"
      | .xmlish => units "xmlish"
      | .mixed => units "mixed"
      | .unknown => units "unknown"
    let digest := (runtime.sha256 (List.intercalate [0] [requestSeed, units (toString index), form, call.name, argumentsText, text])).take 24
    ⟨units "call_repair_" ++ digest, call.name, argumentsText⟩

end Analysis

/-! `begun` is the source's `partial`. -/

inductive DsmlPrefix | none | begun | confirmed
  deriving DecidableEq, Repr

section Recognisers
variable {Arguments : Type} (runtime : Runtime Arguments)

def isDsmlBar (char : Nat) : Bool := char = unit '|' || char = 0xFF5C

def classifyDsmlEnd (rest : Text) : DsmlPrefix :=
  match skipWhitespace rest with
  | [] => .begun
  | bar :: _ => if isDsmlBar bar then .confirmed else .none

def classifyDsmlMarker : (marker rest : Text) → DsmlPrefix
  | [], rest => classifyDsmlEnd rest
  | _ :: _, [] => .begun
  | letter :: marker, char :: rest =>
    if toLowerCase runtime [char] = [letter] then classifyDsmlMarker marker rest else .none

def classifyDsmlBar (rest : Text) : DsmlPrefix :=
  match skipWhitespace rest with
  | [] => .begun
  | bar :: rest => if isDsmlBar bar then classifyDsmlMarker runtime (units "dsml") (skipWhitespace rest) else .none

def classifyDsmlPrefix : Text → DsmlPrefix
  | [] => .none
  | first :: rest => if first = unit '<' then classifyDsmlBar runtime rest else .none

def couldBePayload : Text → Bool := opens (· = unit '\x7b') fun _ => true

def couldBeLineBreak (next : Text → Bool) (rest : Text) : Bool := (consumeLineBreak rest).any next

def couldBeAfterBracket (toolPrefix : Bool) (rest : Text) : Bool :=
  if toolPrefix then skip isSpace couldBePayload rest
  else skip isHorizontal (orEnd (couldBeLineBreak (skip isSpace couldBePayload))) rest

def couldBeBracketPrefix (value : Text) : Bool :=
  let header := (value.drop 1).takeWhile (· ≠ unit ']')
  let closed := (value.drop 1).dropWhile (· ≠ unit ']')
  let name := headerName header
  if header.isEmpty || header.isPrefixOf (units "tool:") then true
  else if !name.all isPlainNameUnit || TOOL_CALL_REPAIR_MAX_NAME_CHARS < name.length then false
  else if closed.isEmpty then true
  else if !validPlainName name then false
  else couldBeAfterBracket ((units "tool:").isPrefixOf header) (closed.drop 1)

def couldBeXmlishBody (rest : Text) : Bool :=
  let bodyStart := toLowerCase runtime rest
  compatible (units "<parameter=") bodyStart || compatible (units "</function>") bodyStart

def couldBeXmlishName : Text → Bool :=
  word isXmlNameUnit TOOL_CALL_REPAIR_MAX_NAME_CHARS
    (opens (· = unit '>') fun rest => skip isSpace (orEnd (couldBeXmlishBody runtime)) (rest.drop 1))

def couldBeXmlishPrefix (value : Text) : Bool :=
  let marker := units "<function="
  if value.isPrefixOf marker then true else couldBeXmlishName runtime (value.drop marker.length)

def couldBeHarmonyCode : Text → Bool :=
  literal (units "code") (skip isSpace (orEnd (maybe (units "<|message|>") (skip isSpace couldBePayload) couldBePayload)))

def couldBeHarmonyTarget : Text → Bool :=
  literal (units "to=")
    (word isPlainNameUnit TOOL_CALL_REPAIR_MAX_NAME_CHARS (opens isHorizontal (skip isHorizontal (orEnd couldBeHarmonyCode))))

def couldBeHarmonyPrefix (value : Text) : Bool :=
  let marker := units "<|channel|>"
  if value.isPrefixOf marker then true
  else oneOf HARMONY_CHANNELS (opens isHorizontal (skip isHorizontal (orEnd couldBeHarmonyTarget))) (afterChannelMarker value)

def couldBePotentialCallPrefix (value : Text) : Bool :=
  if value.head? = some (unit '[') then couldBeBracketPrefix value
  else if compatible (units "<function=") value then couldBeXmlishPrefix runtime value
  else couldBeHarmonyPrefix value

end Recognisers

inductive GateState | probing | candidate | passthrough | suppressing
  deriving DecidableEq, Repr

structure ToolCallRepairStreamGate where
  state : GateState := .probing
  pending : Text := []
  pendingBytes : Nat := 0
  forcedOverCap : Bool := false
  deriving DecidableEq, Repr

structure FinishParams where
  text : Text
  allowedToolNames : List Text
  nativeToolCallsPresent : Bool
  requestSeed : Text := []
  streamComplete : Option Bool := none

structure ToolCallRepairFinalization (Arguments : Type) where
  decision : ToolCallRepairDecision Arguments
  visibleText : List Text
  promotedToolCalls : List ModelToolCall
  scrubbed : Bool
  deriving DecidableEq, Repr

section Gate
variable {Arguments : Type} (runtime : Runtime Arguments) (mode : ToolCallRepairMode) (maxPayloadBytes : Nat)

def ToolCallRepairStreamGate.probe (gate : ToolCallRepairStreamGate) : ToolCallRepairStreamGate × List Text :=
  let probe := skipWhitespace gate.pending
  if probe.isEmpty then (gate, [])
  else
    let dsmlPrefix := classifyDsmlPrefix runtime probe
    if dsmlPrefix = .confirmed then ({ gate with pending := [], state := .suppressing }, [])
    else if dsmlPrefix = .begun || couldBePotentialCallPrefix runtime probe then ({ gate with state := .candidate }, [])
    else ({ gate with state := .passthrough, pending := [] }, [gate.pending])

def ToolCallRepairStreamGate.push (gate : ToolCallRepairStreamGate) (delta : Text) : ToolCallRepairStreamGate × List Text :=
  if delta.isEmpty then (gate, [])
  else if mode ≠ .repair || gate.state = .passthrough then (gate, [delta])
  else if gate.state = .suppressing then (gate, [])
  else
    let deltaBytes := byteLength delta
    if maxPayloadBytes + MAX_STREAM_WRAPPER_BYTES < gate.pendingBytes + deltaBytes then
      ({ gate with forcedOverCap := true, pending := [], state := .suppressing }, [])
    else
      ToolCallRepairStreamGate.probe runtime
        { gate with pending := gate.pending ++ delta, pendingBytes := gate.pendingBytes + deltaBytes }

def ToolCallRepairStreamGate.abort (gate : ToolCallRepairStreamGate) : ToolCallRepairStreamGate × List Text :=
  if mode ≠ .repair || gate.state = .passthrough || gate.state = .suppressing then (gate, [])
  else ({ gate with pending := [], state := .passthrough }, if gate.pending.isEmpty then [] else [gate.pending])

def ToolCallRepairStreamGate.decide (gate : ToolCallRepairStreamGate) (params : FinishParams) : ToolCallRepairDecision Arguments :=
  if gate.forcedOverCap then .rejected (syntaxAt (skipWhitespace params.text)) .rejectedOverCap
  else if params.streamComplete = some false && gate.state ≠ .passthrough then .rejected (syntaxAt (skipWhitespace params.text)) .incomplete
  else analyzeAssistantToolCallText runtime maxPayloadBytes params.text params.allowedToolNames

def ToolCallRepairStreamGate.visible (gate : ToolCallRepairStreamGate) : List Text :=
  if gate.state = .passthrough || gate.pending.isEmpty then [] else [gate.pending]

def ToolCallRepairStreamGate.finish (gate : ToolCallRepairStreamGate) (params : FinishParams) : ToolCallRepairFinalization Arguments :=
  if mode = .off then ⟨.none, [], [], false⟩
  else
    let decision := gate.decide runtime maxPayloadBytes params
    if mode = .detect then ⟨decision, [], [], false⟩
    else
      match decision with
      | .promotable _ calls =>
        if params.nativeToolCallsPresent then ⟨decision, [], [], true⟩
        else ⟨decision, [], createRepairedModelToolCalls runtime params.text calls params.requestSeed, true⟩
      | .rejected _ outcome =>
        if gate.state ≠ .passthrough && (outcome = .incomplete || outcome = .rejectedOverCap) then ⟨decision, [], [], true⟩
        else ⟨decision, gate.visible, [], false⟩
      | .none => ⟨decision, gate.visible, [], false⟩

/-- Every delta of a stream is pushed, the outputs one after another. -/
def ToolCallRepairStreamGate.pushAll (gate : ToolCallRepairStreamGate) : List Text → ToolCallRepairStreamGate × List Text
  | [] => (gate, [])
  | delta :: deltas =>
    let (pushed, output) := gate.push runtime mode maxPayloadBytes delta
    let (last, outputs) := pushed.pushAll deltas
    (last, output ++ outputs)

structure Streamed (Arguments : Type) where
  released : List Text
  finalization : ToolCallRepairFinalization Arguments

def stream (deltas : List Text) (params : FinishParams) : Streamed Arguments :=
  let (gate, outputs) := ToolCallRepairStreamGate.pushAll runtime mode maxPayloadBytes {} deltas
  let finalization := gate.finish runtime mode maxPayloadBytes params
  ⟨outputs ++ finalization.visibleText, finalization⟩

end Gate

end AgentSaas.ToolCallRepair
