import AgentSaas.ToolCallRepair.Text

/-! A model request over Chat Completions: its attempts, what of them is yielded, and when there is
another one. An attempt is given by what it decodes and by how it ends. -/

namespace AgentSaas.ChatCompletions
open ToolCallRepair (Text unit units)

inductive ModelOutputTransactionMode | replaceableDraft | terminalBuffered | irreversibleStream
  deriving DecidableEq, Repr

section
variable {Usage Call : Type}

structure Completed (Usage Call : Type) where
  content : Text
  toolCalls : List Call
  usage : Option Usage
  finishReason : Option Text
  deriving DecidableEq, Repr

inductive Delta
  | thinkingDelta (content : Text)
  | textDelta (content : Text)
  deriving DecidableEq, Repr

inductive ModelEvent (Usage Call : Type)
  | delta (delta : Delta)
  | completed (completion : Completed Usage Call)
  | draftReset (attempt : Nat)
  deriving DecidableEq, Repr

/-! What may be thrown. -/

inductive AttemptOutcome | parseError | streamError
  deriving DecidableEq, Repr

/-- The class of an error. The detail of any other error is its compacted diagnostic. -/
inductive ErrorClass (Usage : Type)
  | http (status : Nat) (retryable : Bool) (code quotaResetAt : Option String)
  | attempt (outcome : AttemptOutcome) (usage : Option Usage)
  | syntaxError
  | provider (status : Nat) (code : String)
  | other (detail : Text)
  deriving DecidableEq, Repr

structure Thrown (Usage : Type) where
  name : String
  kind : ErrorClass Usage
  /-- The name of the cause, where that is an error. -/
  causeName : Option String
  deriving DecidableEq, Repr

def plainError (message : String) : Thrown Usage := ⟨"Error", .other (units message), none⟩

def RETRYABLE_CHAT_COMPLETIONS_HTTP_STATUSES : List Nat := [408, 409, 429, 500, 502, 503, 504]

def httpError (status : Nat) (quotaExhausted : Bool) (code quotaResetAt : Option String) : Thrown Usage :=
  ⟨"ChatCompletionsHttpError",
    .http status (RETRYABLE_CHAT_COMPLETIONS_HTTP_STATUSES.contains status && !quotaExhausted) code quotaResetAt, none⟩

def attemptError (outcome : AttemptOutcome) (usage : Option Usage) (cause : Thrown Usage) : Thrown Usage :=
  ⟨"ChatCompletionsAttemptError", .attempt outcome usage, some cause.name⟩

def abortError : Thrown Usage := ⟨"AbortError", .other (units "Chat Completions request aborted"), none⟩

def PERMANENT_ERROR_TEXTS : List Text :=
  [units "err_invalid_url", units "invalid url", units "unknown scheme", units "unsupported protocol", units "cert_",
    units "err_tls", units "depth_zero_self_signed_cert", units "unable_to_verify_leaf_signature", units "certificate",
    units "self-signed", units "self signed", units "unable to verify", units "enotfound", units "eai_noname",
    units "proxy authentication required"]

def isPermanentText (detail : Text) : Bool :=
  PERMANENT_ERROR_TEXTS.any fun pattern => (ToolCallRepair.indexOf (detail.map ToolCallRepair.lowerAscii) pattern 0).isSome

def isRetryableChatAttemptError (error : Thrown Usage) : Bool :=
  match error.kind with
  | .http _ retryable _ _ => retryable
  | .attempt outcome _ => outcome == .streamError
  | .syntaxError => false
  | .provider _ _ => true
  | .other detail => !isPermanentText detail

def isAbortError (error : Thrown Usage) (signalAborted : Bool) : Bool :=
  signalAborted || error.name == "AbortError" || error.causeName == some "AbortError"

/-- What the request of an attempt meets. The deltas are those decoded before the end. -/
inductive Attempt (Usage Call : Type)
  /-- It fails before the request is recorded. -/
  | unrecorded (error : Thrown Usage)
  /-- The record, the connection or the body fails. -/
  | unsent (error : Thrown Usage)
  | rejected (status : Nat) (quotaExhausted : Bool) (code quotaResetAt : Option String)
  /-- Reading or parsing fails. The gate for tool calls gives back what it holds. -/
  | interrupted (deltas : List Delta) (held : List Text) (usage : Option Usage) (error : Thrown Usage)
  | leaked (deltas : List Delta) (usage : Option Usage)
  /-- The stream ends without a terminal marker. -/
  | unterminated (deltas : List Delta) (held : List Text) (usage : Option Usage)
  | finished (deltas : List Delta) (held : List Text) (completion : Completed Usage Call)

/-- What `streamAttempt` yields, what it throws, and whether the request was recorded. -/
structure Streamed (Usage Call : Type) where
  events : List (ModelEvent Usage Call)
  thrown : Option (Thrown Usage)
  startedRecorded : Bool

def streamAttempt : Attempt Usage Call → Streamed Usage Call
  | .unrecorded error => ⟨[], some error, false⟩
  | .unsent error => ⟨[], some error, true⟩
  | .rejected status quotaExhausted code quotaResetAt => ⟨[], some (httpError status quotaExhausted code quotaResetAt), true⟩
  | .interrupted deltas held usage error =>
    let outcome := match error.kind with
      | .syntaxError => .parseError
      | _ => .streamError
    ⟨(deltas ++ held.map Delta.textDelta).map .delta, some (attemptError outcome usage error), true⟩
  | .leaked deltas usage =>
    ⟨deltas.map .delta, some (attemptError .parseError usage (plainError "模型输出格式异常（DSML 模板未被服务端解析），已中断本轮。")), true⟩
  | .unterminated deltas held usage =>
    ⟨(deltas ++ held.map Delta.textDelta).map .delta,
      some (attemptError .streamError usage (plainError "Chat Completions stream ended before a terminal marker.")), true⟩
  | .finished deltas held completion => ⟨(deltas ++ held.map Delta.textDelta).map .delta ++ [.completed completion], none, true⟩

/-! The loop over the attempts. -/

/-- What a diagnostic that is recorded comes back with: an error, or whether it was kept. -/
inductive Recording (Usage : Type)
  | threw (error : Thrown Usage)
  | answered (kept : Bool)

/-- What one turn of the loop meets. -/
structure Turn (Usage Call : Type) where
  attempt : Attempt Usage Call
  /-- The record of the completion. -/
  completionRecord : Recording Usage
  /-- The signal is aborted when an error is caught, before the wait, and during the wait. -/
  abortedAtCatch : Bool
  abortedBeforeWait : Bool
  abortedWaiting : Bool
  /-- The record of the failure. -/
  failureRecord : Recording Usage

inductive RetryReason | transientHttpError | transientStreamInterrupt | transientNetworkError
  deriving DecidableEq, Repr

inductive RetryBlockedReason | aborted | permanentError | irreversibleOutputDelivered | retryBudgetExhausted
  deriving DecidableEq, Repr

inductive Outcome | completed | aborted | attempt (outcome : AttemptOutcome) | httpError | networkError
  deriving DecidableEq, Repr

/-- A `finished` diagnostic. -/
structure Diagnostic (Usage : Type) where
  attempt : Nat
  outcome : Outcome
  hasDeliveredOutput : Bool
  officialTerminalReceived : Bool
  errorCode : Option String
  usage : Option Usage
  /-- Why there is another attempt, or why there is none. -/
  retry : Option (Except RetryBlockedReason RetryReason)

inductive Ending (Usage Call : Type)
  | completed (completion : Completed Usage Call)
  | threw (error : Thrown Usage)

/-- What one turn yields and records, and how the call ends if it does. -/
structure TurnResult (Usage Call : Type) where
  events : List (ModelEvent Usage Call)
  diagnostics : List (Diagnostic Usage)
  ending : Option (Ending Usage Call)

structure Passed (Usage Call : Type) where
  yielded : List (ModelEvent Usage Call)
  bufferedOutput : List Delta
  completed : Option (Completed Usage Call)
  hasDeliveredOutput : Bool

def pass (mode : ModelOutputTransactionMode) (passed : Passed Usage Call) : ModelEvent Usage Call → Passed Usage Call
  | .completed completion => { passed with completed := some completion }
  | .delta delta =>
    if mode = .terminalBuffered then { passed with bufferedOutput := passed.bufferedOutput ++ [delta] }
    else { passed with yielded := passed.yielded ++ [.delta delta], hasDeliveredOutput := true }
  | event => { passed with yielded := passed.yielded ++ [event] }

def chatRetryReason (error : Thrown Usage) : RetryReason :=
  match error.kind with
  | .http .. => .transientHttpError
  | .attempt .. => .transientStreamInterrupt
  | _ => .transientNetworkError

def failureOutcome (aborted : Bool) (error : Thrown Usage) : Outcome :=
  if aborted then .aborted
  else
    match error.kind with
    | .attempt outcome _ => .attempt outcome
    | .http .. => .httpError
    | _ => .networkError

def httpCode (status : Nat) (code : Option String) : String := code.getD ("HTTP_" ++ toString status)

def failureCode (aborted : Bool) (error : Thrown Usage) : String :=
  if aborted then "MODEL_REQUEST_ABORTED"
  else
    match error.kind with
    | .http status _ code _ => httpCode status code
    | .attempt .parseError _ => "MODEL_STREAM_PARSE_ERROR"
    | _ => "MODEL_STREAM_READ_ERROR"

def surfaced (error : Thrown Usage) : Thrown Usage :=
  match error.kind with
  | .http status _ code _ => ⟨"ModelProviderError", .provider status (httpCode status code), none⟩
  | _ => error

def errorUsage (error : Thrown Usage) : Option Usage :=
  match error.kind with
  | .attempt _ usage => usage
  | _ => none

/-- `waitForChatRetry` throws. -/
def waitThrows (delayMs : Int) (turn : Turn Usage Call) : Bool :=
  turn.abortedBeforeWait || (decide (0 < delayMs) && turn.abortedWaiting)

def retryDelay (mode : ModelOutputTransactionMode) (retryDelaysMs : List Int) (transientRetryIndex : Nat) (aborted delivered : Bool)
    (error : Thrown Usage) : Option Int :=
  let retryable := !aborted && isRetryableChatAttemptError error
  let replaySafe := !delivered || mode == .terminalBuffered || mode == .replaceableDraft
  if retryable && replaySafe then retryDelaysMs[transientRetryIndex]? else none

def retryBlockedReason (mode : ModelOutputTransactionMode) (aborted delivered : Bool) (error : Thrown Usage) : RetryBlockedReason :=
  if aborted then .aborted
  else if !isRetryableChatAttemptError error then .permanentError
  else if delivered && mode == .irreversibleStream then .irreversibleOutputDelivered
  else .retryBudgetExhausted

/-- The catch block, for a request that was recorded. -/
def failed (mode : ModelOutputTransactionMode) (retryDelaysMs : List Int) (transientRetryIndex attempt : Nat) (delivered : Bool)
    (turn : Turn Usage Call) (error : Thrown Usage) : TurnResult Usage Call :=
  let aborted := isAbortError error turn.abortedAtCatch
  let retryDelayMs := retryDelay mode retryDelaysMs transientRetryIndex aborted delivered error
  let diagnostic : Diagnostic Usage := {
    attempt, outcome := failureOutcome aborted error, hasDeliveredOutput := delivered, officialTerminalReceived := false
    errorCode := some (failureCode aborted error), usage := errorUsage error
    retry := some (if retryDelayMs.isSome then .ok (chatRetryReason error) else .error (retryBlockedReason mode aborted delivered error)) }
  match turn.failureRecord with
  | .threw lost => ⟨[], [diagnostic], some (.threw lost)⟩
  | .answered kept =>
    if !kept && (errorUsage error).isSome then ⟨[], [diagnostic], some (.threw (plainError "MODEL_USAGE_DIAGNOSTIC_PERSIST_FAILED"))⟩
    else
      match retryDelayMs with
      | none => ⟨[], [diagnostic], some (.threw (surfaced error))⟩
      | some delayMs =>
        ⟨if delivered && mode == .replaceableDraft then [.draftReset attempt] else [], [diagnostic],
          if waitThrows delayMs turn then some (.threw abortError) else none⟩

def attemptTurn (mode : ModelOutputTransactionMode) (retryDelaysMs : List Int) (transientRetryIndex attempt : Nat)
    (turn : Turn Usage Call) : TurnResult Usage Call :=
  let streamed := streamAttempt turn.attempt
  let passed := streamed.events.foldl (pass mode) ⟨[], [], none, false⟩
  let caught (diagnostics : List (Diagnostic Usage)) (error : Thrown Usage) : TurnResult Usage Call :=
    if streamed.startedRecorded then
      let result := failed mode retryDelaysMs transientRetryIndex attempt passed.hasDeliveredOutput turn error
      ⟨passed.yielded ++ result.events, diagnostics ++ result.diagnostics, result.ending⟩
    else ⟨passed.yielded, diagnostics, some (.threw error)⟩
  match streamed.thrown, passed.completed with
  | some error, _ => caught [] error
  | none, none => caught [] (plainError "Chat Completions stream completed without completion event")
  | none, some completion =>
    let diagnostic : Diagnostic Usage := {
      attempt, outcome := .completed, hasDeliveredOutput := passed.hasDeliveredOutput, officialTerminalReceived := true
      errorCode := none, usage := completion.usage, retry := none }
    let diagnostics := if streamed.startedRecorded then [diagnostic] else []
    match if streamed.startedRecorded then turn.completionRecord else .answered true with
    | .threw error => caught diagnostics error
    | .answered _ => ⟨passed.yielded ++ passed.bufferedOutput.map .delta ++ [.completed completion], diagnostics, some (.completed completion)⟩

/-- What a call of `stream` did in each of its turns, and how it ended. It is still under way when it
has met all that is given. -/
structure Run (Usage Call : Type) where
  turns : List (TurnResult Usage Call)
  ending : Option (Ending Usage Call)

def streamFrom (mode : ModelOutputTransactionMode) (retryDelaysMs : List Int) : Nat → Nat → List (Turn Usage Call) → Run Usage Call
  | _, _, [] => ⟨[], none⟩
  | transientRetryIndex, attempt, turn :: later =>
    let result := attemptTurn mode retryDelaysMs transientRetryIndex (attempt + 1) turn
    match result.ending with
    | some ending => ⟨[result], some ending⟩
    | none =>
      let rest := streamFrom mode retryDelaysMs (transientRetryIndex + 1) (attempt + 1) later
      ⟨result :: rest.turns, rest.ending⟩

def stream (mode : ModelOutputTransactionMode) (retryDelaysMs : List Int) (turns : List (Turn Usage Call)) : Run Usage Call :=
  streamFrom mode retryDelaysMs 0 0 turns

def Run.events (run : Run Usage Call) : List (ModelEvent Usage Call) := run.turns.flatMap TurnResult.events

end

end AgentSaas.ChatCompletions
