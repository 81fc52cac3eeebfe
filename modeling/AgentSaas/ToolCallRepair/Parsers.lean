import AgentSaas.ToolCallRepair.Text

/-! The parsers of the four forms of a tool call in assistant text. The field the source calls
`syntax`, a reserved word here, is `form`. -/

namespace AgentSaas.ToolCallRepair
open Prefixes

structure RepairedToolCall (Arguments : Type) where
  name : Text
  arguments : Arguments
  form : ToolCallRepairSyntax
  rawStart : Nat
  rawEnd : Nat
  deriving DecidableEq, Repr

structure Rejected where
  form : ToolCallRepairSyntax
  outcome : ToolCallRepairOutcome
  deriving DecidableEq, Repr

section Parsers
variable {Arguments : Type} (runtime : Runtime Arguments) (maxPayloadBytes : Nat)

def require (condition : Bool) (form : ToolCallRepairSyntax) (outcome : ToolCallRepairOutcome) : Except Rejected Unit :=
  if condition then .ok () else .error ⟨form, outcome⟩

def missing (rest : Text) : ToolCallRepairOutcome :=
  if rest.isEmpty then .incomplete else .rejectedMalformed

def expect (form : ToolCallRepairSyntax) (expected rest : Text) : Except Rejected Text :=
  if expected.isPrefixOf rest then .ok (rest.drop expected.length)
  else .error ⟨form, if isLiteralPrefix rest expected then .incomplete else .rejectedMalformed⟩

inductive JsonScan | closed (read : Nat) | unclosed | overCap
  deriving DecidableEq

def scanJsonObject : (read depth : Nat) → (inString escaped : Bool) → Text → JsonScan
  | _, _, _, _, [] => .unclosed
  | read, depth, inString, escaped, char :: rest =>
    let overCap := maxPayloadBytes < read + 1
    if inString then
      let inString := escaped || char != unit '"'
      let escaped := !escaped && char == unit '\\'
      if overCap then .overCap else scanJsonObject (read + 1) depth inString escaped rest
    else if char = unit '"' then
      if overCap then .overCap else scanJsonObject (read + 1) depth true escaped rest
    else if char = unit '\x7b' then
      if overCap then .overCap else scanJsonObject (read + 1) (depth + 1) false escaped rest
    else if char = unit '\x7d' then
      if depth = 1 then .closed (read + 1)
      else if overCap then .overCap
      else scanJsonObject (read + 1) (depth - 1) false escaped rest
    else if overCap then .overCap
    else scanJsonObject (read + 1) depth false escaped rest

def parseJsonObject (form : ToolCallRepairSyntax) (rest : Text) : Except Rejected (Arguments × Text) := do
  require (!rest.isEmpty) form .incomplete
  require (rest.head? = some (unit '\x7b')) form .rejectedMalformed
  match scanJsonObject maxPayloadBytes 0 0 false false rest with
  | .overCap => .error ⟨form, .rejectedOverCap⟩
  | .unclosed => .error ⟨form, if maxPayloadBytes < byteLength rest then .rejectedOverCap else .incomplete⟩
  | .closed read =>
    require (byteLength (rest.take read) ≤ maxPayloadBytes) form .rejectedOverCap
    match runtime.parseObject (rest.take read) with
    | some arguments => .ok (arguments, rest.drop read)
    | none => .error ⟨form, .rejectedMalformed⟩

def parseBracketHeader (toolPrefix : Bool) (form : ToolCallRepairSyntax) (rest : Text) : Except Rejected Text :=
  if toolPrefix then .ok rest
  else
    match consumeLineBreak (skipHorizontalWhitespace rest) with
    | some rest => .ok rest
    | none => .error ⟨form, missing (skipHorizontalWhitespace rest)⟩

def headerName (header : Text) : Text :=
  if (units "tool:").isPrefixOf header then header.drop (units "tool:").length else header

def parseBracket (text start : Text) : Except Rejected (RepairedToolCall Arguments × Text) := do
  let header := (start.drop 1).takeWhile (· ≠ unit ']')
  let closed := (start.drop 1).dropWhile (· ≠ unit ']')
  require (!closed.isEmpty) .unknown .incomplete
  let toolPrefix := (units "tool:").isPrefixOf header
  let name := headerName header
  let form := if toolPrefix then .toolBracket else .namedBracket
  require (validPlainName name) form .rejectedMalformed
  let rest ← parseBracketHeader toolPrefix form (closed.drop 1)
  let (arguments, rest) ← parseJsonObject runtime maxPayloadBytes form (skipWhitespace rest)
  let afterPayload := skipWhitespace rest
  let closings := [units "[/" ++ name ++ units "]", units "[END_TOOL_REQUEST]"]
  let rest :=
    match closings.find? (·.isPrefixOf afterPayload) with
    | some closing => afterPayload.drop closing.length
    | none => rest
  .ok (⟨name, arguments, form, text.length - start.length, text.length - rest.length⟩, rest)

def parseHarmonyMessage (rest : Text) : Except Rejected Text :=
  if (units "<|message|>").isPrefixOf rest then .ok (skipWhitespace (rest.drop (units "<|message|>").length))
  else if isLiteralPrefix rest (units "<|message|>") then .error ⟨.harmony, .incomplete⟩
  else .ok rest

def parseHarmonyCall (rest : Text) : Except Rejected Text :=
  let afterPayload := skipWhitespace rest
  if (units "<|call|>").isPrefixOf afterPayload then .ok (afterPayload.drop (units "<|call|>").length)
  else if !afterPayload.isEmpty && isLiteralPrefix afterPayload (units "<|call|>") then .error ⟨.harmony, .incomplete⟩
  else .ok rest

def parseHarmony (text start : Text) : Except Rejected (RepairedToolCall Arguments × Text) := do
  let rest := afterChannelMarker start
  let some channel := HARMONY_CHANNELS.find? (·.isPrefixOf rest) | .error ⟨.harmony, .rejectedMalformed⟩
  let rest := rest.drop channel.length
  require (rest.head?.any isHorizontal) .harmony (missing rest)
  let rest ← expect .harmony (units "to=") (skipHorizontalWhitespace rest)
  let name := rest.takeWhile isPlainNameUnit
  let rest := rest.dropWhile isPlainNameUnit
  require (validPlainName name) .harmony .rejectedMalformed
  require (rest.head?.any isHorizontal) .harmony (missing rest)
  let rest ← expect .harmony (units "code") (skipHorizontalWhitespace rest)
  let rest ← parseHarmonyMessage (skipWhitespace rest)
  let (arguments, rest) ← parseJsonObject runtime maxPayloadBytes .harmony rest
  let rest ← parseHarmonyCall rest
  .ok (⟨name, arguments, .harmony, text.length - start.length, text.length - rest.length⟩, rest)

def normalizeXmlParameter (value : Text) : Text :=
  let withoutLeading := (consumeLineBreak value).getD value
  if (units "\r\n").isSuffixOf withoutLeading then withoutLeading.dropLast.dropLast
  else if (units "\r").isSuffixOf withoutLeading || (units "\n").isSuffixOf withoutLeading then withoutLeading.dropLast
  else withoutLeading

/-- `args[name] = value`: a string set as the prototype is ignored. -/
def setParameter (args : List (Text × Text)) (name value : Text) : List (Text × Text) :=
  if name = units "__proto__" then args else args ++ [(name, value)]

def parseParameters (body : Text) (args : List (Text × Text)) (start : Nat) : Except Rejected (List (Text × Text)) :=
  let rest := skipWhitespace (body.drop start)
  if _some : rest.isEmpty then .ok args
  else
    let cursor := body.length - rest.length
    if toLowerCase runtime (rest.take (units "<parameter=").length) ≠ units "<parameter=" then .error ⟨.xmlish, .rejectedMalformed⟩
    else
      let parameterNameStart := cursor + (units "<parameter=").length
      match _named : indexOf body [unit '>'] parameterNameStart with
      | none => .error ⟨.xmlish, .incomplete⟩
      | some parameterNameEnd =>
        let parameterName := slice body parameterNameStart parameterNameEnd
        if !validXmlName parameterName || (args.map Prod.fst).contains parameterName then .error ⟨.xmlish, .rejectedMalformed⟩
        else
          match _valued : indexOfAsciiCaseInsensitive runtime body (units "</parameter>") (parameterNameEnd + 1) with
          | none => .error ⟨.xmlish, .incomplete⟩
          | some parameterEnd =>
            let value := normalizeXmlParameter (slice body (parameterNameEnd + 1) parameterEnd)
            parseParameters body (setParameter args parameterName value) (parameterEnd + (units "</parameter>").length)
termination_by body.length - start
decreasing_by
  have named := le_of_indexOf _named
  have valued := le_of_indexOf _valued
  have shorter : rest.length ≤ (body.drop start).length := (List.dropWhile_suffix isSpace).length_le
  have dropped : (body.drop start).length = body.length - start := List.length_drop
  have some : rest.length ≠ 0 := by simpa [List.isEmpty_iff] using _some
  omega

def parseXmlish (text start : Text) : Except Rejected (RepairedToolCall Arguments × Text) := do
  let rest := start.drop (units "<function=").length
  let name := rest.takeWhile (· ≠ unit '>')
  let named := rest.dropWhile (· ≠ unit '>')
  require (!named.isEmpty) .xmlish .incomplete
  require (validXmlName name) .xmlish .rejectedMalformed
  let bodyStart := text.length - (named.drop 1).length
  match indexOfAsciiCaseInsensitive runtime text (units "</function>") bodyStart with
  | none =>
    .error ⟨.xmlish, if maxPayloadBytes < byteLength (named.drop 1) then .rejectedOverCap else .incomplete⟩
  | some functionEnd =>
    let body := slice text bodyStart functionEnd
    require (byteLength body ≤ maxPayloadBytes) .xmlish .rejectedOverCap
    let args ← parseParameters runtime body [] 0
    let stop := functionEnd + (units "</function>").length
    .ok (⟨name, runtime.ofParameters args, .xmlish, text.length - start.length, stop⟩, text.drop stop)

def parseOne (text start : Text) : Except Rejected (RepairedToolCall Arguments × Text) :=
  if (units "<function=").isPrefixOf start then parseXmlish runtime maxPayloadBytes text start
  else if isHarmonyStart start then parseHarmony runtime maxPayloadBytes text start
  else if start.head? = some (unit '[') then parseBracket runtime maxPayloadBytes text start
  else .error ⟨.unknown, .rejectedMalformed⟩

/-! What a parser read when it found a call. -/

theorem of_bind {α β : Type} {first : Except Rejected α} {next : α → Except Rejected β} {result : β}
    (parsed : first >>= next = .ok result) : ∃ found, first = .ok found ∧ next found = .ok result := by
  cases first with
  | error _ => cases parsed
  | ok found => exact ⟨found, rfl, parsed⟩

theorem of_require {β : Type} {condition : Bool} {form : ToolCallRepairSyntax} {outcome : ToolCallRepairOutcome}
    {next : Unit → Except Rejected β} {result : β} (parsed : require condition form outcome >>= next = .ok result) :
    condition = true ∧ next () = .ok result := by
  obtain ⟨_, passed, parsed⟩ := of_bind parsed
  unfold require at passed
  split at passed
  next holds => exact ⟨holds, parsed⟩
  next => cases passed

theorem of_expect {β : Type} {form : ToolCallRepairSyntax} {expected rest : Text} {next : Text → Except Rejected β} {result : β}
    (parsed : expect form expected rest >>= next = .ok result) :
    expected.isPrefixOf rest = true ∧ next (rest.drop expected.length) = .ok result := by
  obtain ⟨after, passed, parsed⟩ := of_bind parsed
  unfold expect at passed
  split at passed
  next read =>
    cases passed
    exact ⟨read, parsed⟩
  next => cases passed

theorem length_skipWhitespace_le (rest : Text) : (skipWhitespace rest).length ≤ rest.length :=
  (List.dropWhile_suffix _).length_le

theorem length_skipHorizontalWhitespace_le (rest : Text) : (skipHorizontalWhitespace rest).length ≤ rest.length :=
  (List.dropWhile_suffix _).length_le

theorem length_consumeLineBreak_le {rest after : Text} (consumed : consumeLineBreak rest = some after) : after.length ≤ rest.length := by
  unfold consumeLineBreak at consumed
  split at consumed
  · cases consumed
  · split at consumed
    · split at consumed
      · cases consumed
        simp only [List.length_tail, List.length_cons]
        omega
      · cases consumed
        simp
    · split at consumed
      · cases consumed
        simp
      · cases consumed

variable {runtime} {maxPayloadBytes} {text start rest after : Text} {call : RepairedToolCall Arguments} {arguments : Arguments}
  {form : ToolCallRepairSyntax}

theorem lt_of_scanJsonObject {read depth stop : Nat} {inString escaped : Bool}
    (scanned : scanJsonObject maxPayloadBytes read depth inString escaped rest = .closed stop) : read < stop := by
  fun_induction scanJsonObject maxPayloadBytes read depth inString escaped rest <;> grind

theorem of_parseJsonObject (parsed : parseJsonObject runtime maxPayloadBytes form rest = .ok (arguments, after)) :
    rest.head? = some (unit '\x7b') ∧ after.length < rest.length := by
  unfold parseJsonObject at parsed
  obtain ⟨some, parsed⟩ := of_require parsed
  obtain ⟨opened, parsed⟩ := of_require parsed
  split at parsed
  · cases parsed
  · cases parsed
  next read scanned =>
    obtain ⟨_, parsed⟩ := of_require parsed
    split at parsed
    · cases parsed
      have read := lt_of_scanJsonObject scanned
      have length : rest.length ≠ 0 := by simpa [List.isEmpty_iff] using some
      refine ⟨of_decide_eq_true opened, ?_⟩
      rw [List.length_drop]
      omega
    · cases parsed

/-- A bracket is closed, its name is valid, and an object follows it. -/
structure BracketCall (header closed after : Text) : Prop where
  shut : closed.isEmpty = false
  name : validPlainName (headerName header) = true
  payload : ∃ form rest, parseBracketHeader ((units "tool:").isPrefixOf header) form (closed.drop 1) = .ok rest ∧
    (skipWhitespace rest).head? = some (unit '\x7b') ∧ after.length < rest.length

theorem length_parseBracketHeader_le {toolPrefix : Bool} (parsed : parseBracketHeader toolPrefix form rest = .ok after) :
    after.length ≤ rest.length := by
  unfold parseBracketHeader at parsed
  split at parsed
  · cases parsed
    exact Nat.le_refl _
  · split at parsed
    next consumed =>
      cases parsed
      have broken := length_consumeLineBreak_le consumed
      have skipped := length_skipHorizontalWhitespace_le rest
      omega
    · cases parsed

theorem of_parseBracket (parsed : parseBracket runtime maxPayloadBytes text start = .ok (call, after)) :
    BracketCall ((start.drop 1).takeWhile (· ≠ unit ']')) ((start.drop 1).dropWhile (· ≠ unit ']')) after := by
  dsimp only [parseBracket] at parsed
  obtain ⟨closed, parsed⟩ := of_require parsed
  obtain ⟨name, parsed⟩ := of_require parsed
  obtain ⟨rest, header, parsed⟩ := of_bind parsed
  obtain ⟨⟨arguments, payload⟩, object, parsed⟩ := of_bind parsed
  obtain ⟨opened, shorter⟩ := of_parseJsonObject object
  refine ⟨by simpa using closed, name, _, rest, header, opened, ?_⟩
  have skipped := length_skipWhitespace_le rest
  have afterPayload := length_skipWhitespace_le payload
  have kept : after.length ≤ payload.length := by
    cases parsed
    split
    · rw [List.length_drop]
      exact (Nat.sub_le _ _).trans afterPayload
    · exact Nat.le_refl _
  omega

theorem length_parseBracket_lt (parsed : parseBracket runtime maxPayloadBytes text start = .ok (call, after)) : after.length < start.length := by
  obtain ⟨_, _, form, rest, header, _, shorter⟩ := of_parseBracket parsed
  have headed := length_parseBracketHeader_le header
  have bracket : ((start.drop 1).dropWhile (· ≠ unit ']')).length ≤ (start.drop 1).length := (List.dropWhile_suffix _).length_le
  simp only [List.length_drop] at headed bracket
  omega

/-- The stages of a harmony header: the text from its target on, from its name on, from the
`code` after it on, and the payload. -/
structure HarmonyCall (start target name code payload : Text) : Prop where
  channel : ∃ channel, HARMONY_CHANNELS.find? (·.isPrefixOf (afterChannelMarker start)) = some channel ∧
    target = (afterChannelMarker start).drop channel.length
  spaced : target.head?.any isHorizontal = true
  toward : (units "to=").isPrefixOf (skipHorizontalWhitespace target) = true ∧
    name = (skipHorizontalWhitespace target).drop (units "to=").length
  valid : validPlainName (name.takeWhile isPlainNameUnit) = true
  parted : (name.dropWhile isPlainNameUnit).head?.any isHorizontal = true
  coded : (units "code").isPrefixOf (skipHorizontalWhitespace (name.dropWhile isPlainNameUnit)) = true ∧
    code = (skipHorizontalWhitespace (name.dropWhile isPlainNameUnit)).drop (units "code").length
  messaged : parseHarmonyMessage (skipWhitespace code) = .ok payload
  opened : payload.head? = some (unit '\x7b')

theorem length_parseHarmonyMessage_le (parsed : parseHarmonyMessage rest = .ok after) : after.length ≤ rest.length := by
  unfold parseHarmonyMessage at parsed
  split at parsed
  · cases parsed
    have skipped := length_skipWhitespace_le (rest.drop (units "<|message|>").length)
    rw [List.length_drop] at skipped
    omega
  · split at parsed
    · cases parsed
    · cases parsed
      exact Nat.le_refl _

theorem length_parseHarmonyCall_le (parsed : parseHarmonyCall rest = .ok after) : after.length ≤ rest.length := by
  dsimp only [parseHarmonyCall] at parsed
  have skipped := length_skipWhitespace_le rest
  split at parsed
  · cases parsed
    rw [List.length_drop]
    omega
  · split at parsed
    · cases parsed
    · cases parsed
      exact Nat.le_refl _

theorem length_afterChannelMarker_le (start : Text) : (afterChannelMarker start).length ≤ start.length := by
  unfold afterChannelMarker
  split
  · rw [List.length_drop]
    omega
  · exact Nat.le_refl _

theorem of_parseHarmony (parsed : parseHarmony runtime maxPayloadBytes text start = .ok (call, after)) :
    (∃ target name code payload, HarmonyCall start target name code payload) ∧ after.length < start.length := by
  dsimp only [parseHarmony] at parsed
  split at parsed
  next channel found =>
    obtain ⟨spaced, parsed⟩ := of_require parsed
    obtain ⟨toward, parsed⟩ := of_expect parsed
    obtain ⟨valid, parsed⟩ := of_require parsed
    obtain ⟨parted, parsed⟩ := of_require parsed
    obtain ⟨code, parsed⟩ := of_expect parsed
    obtain ⟨payload, message, parsed⟩ := of_bind parsed
    obtain ⟨⟨arguments, rest⟩, object, parsed⟩ := of_bind parsed
    obtain ⟨last, closed, parsed⟩ := of_bind parsed
    obtain ⟨opened, shorter⟩ := of_parseJsonObject object
    refine ⟨⟨_, _, _, payload, ⟨channel, found, rfl⟩, spaced, ⟨toward, rfl⟩, valid, parted, ⟨code, rfl⟩, message, opened⟩, ?_⟩
    cases parsed
    have closing : _ ≤ rest.length := length_parseHarmonyCall_le closed
    have messaged := length_parseHarmonyMessage_le message
    have marked := length_afterChannelMarker_le start
    generalize afterChannelMarker start = channelled at *
    have skipped := length_skipHorizontalWhitespace_le (channelled.drop channel.length)
    generalize skipHorizontalWhitespace (channelled.drop channel.length) = target at *
    have named : ((target.drop (units "to=").length).dropWhile isPlainNameUnit).length ≤ (target.drop (units "to=").length).length :=
      (List.dropWhile_suffix _).length_le
    generalize (target.drop (units "to=").length).dropWhile isPlainNameUnit = name at *
    have coded := length_skipHorizontalWhitespace_le name
    have after := length_skipWhitespace_le ((skipHorizontalWhitespace name).drop (units "code").length)
    simp only [List.length_drop] at skipped named after
    omega
  · cases parsed

theorem of_parseParameters {body : Text} {args last : List (Text × Text)} {cursor : Nat}
    (parsed : parseParameters runtime body args cursor = .ok last) :
    skipWhitespace (body.drop cursor) = [] ∨
      toLowerCase runtime ((skipWhitespace (body.drop cursor)).take (units "<parameter=").length) = units "<parameter=" := by
  unfold parseParameters at parsed
  dsimp only at parsed
  split at parsed
  next blank => exact .inl (List.isEmpty_iff.mp blank)
  next =>
    split at parsed
    next => cases parsed
    next named => exact .inr (Decidable.not_not.mp named)

def xmlName (start : Text) : Text := (start.drop (units "<function=").length).takeWhile (· ≠ unit '>')

theorem of_parseXmlish (parsed : parseXmlish runtime maxPayloadBytes text start = .ok (call, after)) :
    let named := (start.drop (units "<function=").length).dropWhile (· ≠ unit '>')
    let bodyStart := text.length - (named.drop 1).length
    (named.isEmpty = false ∧ validXmlName (xmlName start) = true ∧
      ∃ functionEnd args, indexOfAsciiCaseInsensitive runtime text (units "</function>") bodyStart = some functionEnd ∧
        parseParameters runtime (slice text bodyStart functionEnd) [] 0 = .ok args) ∧ after.length < start.length := by
  dsimp only [parseXmlish] at parsed
  obtain ⟨some, parsed⟩ := of_require parsed
  obtain ⟨valid, parsed⟩ := of_require parsed
  split at parsed
  · cases parsed
  next functionEnd found =>
    obtain ⟨_, parsed⟩ := of_require parsed
    obtain ⟨args, parameters, parsed⟩ := of_bind parsed
    refine ⟨⟨by simpa using some, valid, functionEnd, args, found, parameters⟩, ?_⟩
    cases parsed
    have later := le_of_indexOf found
    have marker : (units "</function>").length = 11 := rfl
    have named : ((start.drop (units "<function=").length).dropWhile (· ≠ unit '>')).length ≤ (start.drop (units "<function=").length).length :=
      (List.dropWhile_suffix _).length_le
    have nonempty : ((start.drop (units "<function=").length).dropWhile (· ≠ unit '>')).length ≠ 0 := by
      simpa [List.isEmpty_iff] using some
    simp only [List.length_drop] at later named ⊢
    omega

theorem length_parseOne_lt (parsed : parseOne runtime maxPayloadBytes text start = .ok (call, after)) : after.length < start.length := by
  unfold parseOne at parsed
  split at parsed
  · exact (of_parseXmlish parsed).2
  · split at parsed
    · exact (of_parseHarmony parsed).2
    · split at parsed
      · exact length_parseBracket_lt parsed
      · cases parsed

end Parsers

end AgentSaas.ToolCallRepair
