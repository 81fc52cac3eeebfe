import AgentSaas.AppServer.Errors
import AgentSaas.Interleaving
import AgentSaas.Tables

/-! Calls of capabilities. A logical call is recorded under its key before its handler runs, and
its outcome is recorded after; repetitions are answered from the record. -/

namespace AgentSaas.AppServer.Executions
open Interleaving Tables

def capabilityResponseMaxBytes : Nat := 6000

def capabilityTimeoutMaxMs : Nat := 15000

def executionRetentionMs : Int := 7 * 24 * 60 * 60 * 1000

structure ExecutionKey where
  installationId : String
  capabilityId : String
  sub : String
  lcid : String
  deriving DecidableEq

inductive ExecutionState
  | inProgress | done | failed | expired
  deriving DecidableEq

/-- Data are JSON texts. -/
structure ExecutionRecord where
  inputHash : String
  status : ExecutionState
  result : Option String
  error : Option KyAppError
  createdAt : Int
  updatedAt : Int
  expiresAt : Int
  deriving DecidableEq

structure ExecutionFinishPatch where
  status : ExecutionState
  result : Option String
  error : Option KyAppError
  now : Int

/-- The PostgreSQL store writes both columns, and the one in memory only what it is given. -/
inductive StoreKind
  | postgres | memory

namespace ExecutionRecord

variable (record : ExecutionRecord)

def start (inputHash : String) (now : Int) : ExecutionRecord :=
  ⟨inputHash, .inProgress, none, none, now, now, now + executionRetentionMs⟩

def finish (kind : StoreKind) (patch : ExecutionFinishPatch) : ExecutionRecord :=
  { record with
    status := patch.status
    result := match kind with
      | .postgres => patch.result
      | .memory => patch.result.or record.result
    error := match kind with
      | .postgres => patch.error
      | .memory => patch.error.or record.error
    updatedAt := patch.now
    expiresAt := patch.now + executionRetentionMs }

def expire (nowMs : Int) : ExecutionRecord := { record with status := .expired, result := none, updatedAt := nowMs }

def overdue (nowMs : Int) : Bool := (record.status = .done || record.status = .failed) && record.expiresAt ≤ nowMs

end ExecutionRecord

/-- What a call of `invoke` returns, by its data, or throws. -/
abbrev Response := Except KyAppError (Option String)

def idempotencyMismatch (message : String) : KyAppError := ⟨"idempotency_mismatch", message⟩

def otherInput : KyAppError := idempotencyMismatch "同一 lcid 收到了不同的输入"

def replay (existing : ExecutionRecord) (inputHash : String) : Response :=
  if existing.inputHash ≠ inputHash then .error otherInput
  else
    match existing.status with
    | .inProgress => .error ⟨"in_progress", "该 lcid 正在执行"⟩
    | .done => .ok existing.result
    | .failed => .error (existing.error.getD ⟨"internal", "原失败结果，不重新执行"⟩)
    | .expired => .error (idempotencyMismatch "该 lcid 的执行记录已过保留期，请用新的 lcid 重新发起")

inductive ExecutionQueryResponse
  | notStarted
  | inProgress
  | done (result : Option String)
  | failed (code : String) (message : Option String)
  | expired
  deriving DecidableEq

def queryResponse (record : ExecutionRecord) : ExecutionQueryResponse :=
  match record.status with
  | .done => .done record.result
  | .failed => .failed ((record.error.map (·.code)).getD "internal") (record.error.map (·.message))
  | .inProgress => .inProgress
  | .expired => .expired

/-! What a call is admitted by. -/

structure ManifestCapability where
  id : String
  approvalRequired : Bool
  timeoutMs : Option Nat
  inputSchema : String
  outputSchema : String

structure VerifiedIdentity where
  iid : String
  sub : Option String
  lcid : Option String
  dig : Option String
  apr : Option String
  aph : Option String

/-- The body is missing when it is no object, and so is its `input`. Whether the capability is
enabled is asked when the call begins. -/
structure InvokeInput where
  capabilityId : String
  identity : VerifiedIdentity
  idempotencyKey : Option String
  body : Option (Option String)
  enabled : Bool

/-- The options, with the errors that a schema finds in a value, and the hashes of an input; these
throw where it cannot be written canonically. -/
structure Surroundings where
  capabilities : List ManifestCapability
  handlers : List String
  manifestDigest : Option String
  validateAgainstCapabilitySchema : String → String → String → List String
  inputHash : String → Except KyAppError String
  computeAph : String → String → Except KyAppError String

def isHex (char : Char) : Bool := char.isDigit || ('a' ≤ char && char ≤ 'f') || ('A' ≤ char && char ≤ 'F')

def timingSafeEqualHex (left right : String) : Bool :=
  left.length = right.length && left.length ≠ 0 && left.length % 2 = 0 && left.all isHex && right.all isHex &&
    left.toLower = right.toLower

def requireIdentityField (value : Option String) (name : String) : Except KyAppError String :=
  match value.filter (!·.isEmpty) with
  | some value => .ok value
  | none => .error (forbidden ("SAT 缺少 " ++ name))

namespace Surroundings

variable (surroundings : Surroundings)

/-- `byId.get` -/
def find (capabilityId : String) : Option ManifestCapability :=
  (surroundings.capabilities.filter (·.id = capabilityId)).getLast?

def requireCapability (capabilityId : String) (enabled : Bool) : Except KyAppError ManifestCapability := do
  let some capability := surroundings.find capabilityId | throw ⟨"not_found", s!"未知能力 {capabilityId}"⟩
  unless enabled do throw (forbidden s!"能力 {capabilityId} 已关闭")
  return capability

def checkDigest (identity : VerifiedIdentity) : Except KyAppError Unit := do
  match surroundings.manifestDigest, identity.dig with
  | some manifestDigest, some dig =>
    unless timingSafeEqualHex dig manifestDigest do throw ⟨"digest_mismatch", "SAT dig 与当前 manifest digest 不符"⟩
  | _, _ => return

def readInput (body : Option (Option String)) (capability : ManifestCapability) : Except KyAppError String := do
  let some body := body | throw (invalidInput "请求体必须是对象")
  let some input := body | throw (invalidInput "请求体必须含对象字段 input")
  let errors := surroundings.validateAgainstCapabilitySchema capability.inputSchema input "input"
  unless errors.isEmpty do throw (invalidInput ("；".intercalate errors))
  return input

def checkApproval (capability : ManifestCapability) (identity : VerifiedIdentity) (input : String) :
    Except KyAppError Unit := do
  if capability.approvalRequired then
    match identity.apr, identity.aph with
    | some _, some aph =>
      let expected ← surroundings.computeAph capability.id input
      unless timingSafeEqualHex aph expected do throw ⟨"approval_required", "aph 与 \x7bcap,input\x7d 不符"⟩
    | _, _ => throw ⟨"approval_required", "该能力必须携带成对的 apr 与 aph"⟩

/-- What `invoke` does before its first await. -/
def accept (input : InvokeInput) : Except KyAppError (ManifestCapability × ExecutionKey × String) := do
  let capability ← surroundings.requireCapability input.capabilityId input.enabled
  surroundings.checkDigest input.identity
  let lcid ← requireIdentityField input.identity.lcid "lcid"
  let sub ← requireIdentityField input.identity.sub "sub"
  unless input.idempotencyKey = some lcid do
    throw (invalidInput "X-KY-Idempotency-Key 必须存在且等于 SAT 的 lcid")
  let text ← surroundings.readInput input.body capability
  surroundings.checkApproval capability input.identity text
  return (capability, ⟨input.identity.iid, input.capabilityId, sub, lcid⟩, text)

end Surroundings

def checkResponseSize (data : String) : Except KyAppError Unit :=
  let bytes := ("\x7b\"ok\":true,\"data\":" ++ data ++ "\x7d").utf8ByteSize
  if bytes > capabilityResponseMaxBytes then
    .error ⟨"response_too_large", s!"响应体 {bytes} 字节，超过 {capabilityResponseMaxBytes}"⟩
  else .ok ()

def Surroundings.checkResult (surroundings : Surroundings) (capability : ManifestCapability) (data : String) :
    Except KyAppError Unit := do
  let errors := surroundings.validateAgainstCapabilitySchema capability.outputSchema data "data"
  unless errors.isEmpty do throw ⟨"internal", "能力返回值不合 outputSchema：" ++ "；".intercalate errors⟩
  checkResponseSize data

def timedOut (capability : ManifestCapability) : KyAppError :=
  let timeoutMs := min (capability.timeoutMs.getD capabilityTimeoutMaxMs) capabilityTimeoutMaxMs
  ⟨"upstream_unavailable", s!"能力执行超过 {timeoutMs} ms"⟩

structure Answer where
  inputHash : String
  read : ExecutionRecord
  response : Response

structure QueryAnswer where
  read : Option ExecutionRecord
  response : Except KyAppError ExecutionQueryResponse

/-- For the record, under each key: the inputs that the handler ran with, by their hashes, what the
calls that ran it returned or threw, and the other answers. -/
structure History where
  handled : List String
  outcomes : List Response
  answers : List Answer
  queries : List QueryAnswer

structure Shared where
  clock : Int
  records : Table ExecutionKey ExecutionRecord
  history : ExecutionKey → History

def Shared.initial (clock : Int) : Shared := ⟨clock, .empty, fun _ => ⟨[], [], [], []⟩⟩

structure Execution where
  capability : ManifestCapability
  key : ExecutionKey
  inputHash : String

inductive Call
  | invoke (input : InvokeInput)
  | consuming (capability : ManifestCapability) (key : ExecutionKey) (input : String)
  | beginning (execution : Execution) (record : ExecutionRecord)
  /-- The record was there already, and is read. -/
  | reading (execution : Execution)
  | creatingContext (execution : Execution)
  | handling (execution : Execution)
  | savingDone (execution : Execution) (data : String) (now : Int)
  /-- The last argument says whether the handler has been called. -/
  | savingFailure (execution : Execution) (failure : KyAppError) (now : Int) (ran : Bool)
  | queryExecution (capabilityId : String) (identity : VerifiedIdentity) (lcid : String) (enabled : Bool)
  | getting (key : ExecutionKey)
  | findingByLcid (key : ExecutionKey)
  | expireOverdue
  | expiring (nowMs : Int)
  | tick (milliseconds : Nat)

/-- What an await brings. A failure is what is thrown, as `internal` unless it is one of these
errors itself; a query that fails may have been committed. -/
inductive Move
  | next
  | handled (data : String)
  | timeout
  | fail (committed : Bool) (failure : KyAppError)

namespace Shared

variable (shared : Shared)

def setHistory (key : ExecutionKey) (history : History) : Shared :=
  { shared with history := Function.update shared.history key history }

def begin (key : ExecutionKey) (record : ExecutionRecord) : Shared :=
  { shared with records := shared.records.insert key record }

def finish (kind : StoreKind) (key : ExecutionKey) (patch : ExecutionFinishPatch) : Shared :=
  { shared with
    records := shared.records.modify fun other record => if other = key then record.finish kind patch else record }

def expireOverdue (nowMs : Int) : Shared :=
  { shared with
    records := shared.records.modify fun _ record => if record.overdue nowMs then record.expire nowMs else record }

def handle (execution : Execution) : Shared :=
  let history := shared.history execution.key
  shared.setHistory execution.key { history with handled := history.handled ++ [execution.inputHash] }

def conclude (key : ExecutionKey) (response : Response) : Shared :=
  let history := shared.history key
  shared.setHistory key { history with outcomes := history.outcomes ++ [response] }

def answer (key : ExecutionKey) (inputHash : String) (existing : ExecutionRecord) : Shared :=
  let history := shared.history key
  shared.setHistory key { history with answers := history.answers ++ [⟨inputHash, existing, replay existing inputHash⟩] }

def query (key : ExecutionKey) (read : Option ExecutionRecord) (response : Except KyAppError ExecutionQueryResponse) : Shared :=
  let history := shared.history key
  shared.setHistory key { history with queries := history.queries ++ [⟨read, response⟩] }

/-- `findByLcid` -/
def findByLcid (key : ExecutionKey) : Option ExecutionKey :=
  (shared.records.select fun other _ => other.installationId = key.installationId &&
    other.capabilityId = key.capabilityId && other.lcid = key.lcid).head?

end Shared

def created (surroundings : Surroundings) (execution : Execution) (now : Int) : Call :=
  if surroundings.handlers.contains execution.key.capabilityId then .creatingContext execution
  else .savingFailure execution ⟨"internal", s!"能力 {execution.key.capabilityId} 没有注册 handler"⟩ now false

def donePatch (data : String) (now : Int) : ExecutionFinishPatch := ⟨.done, some data, none, now⟩

def failedPatch (failure : KyAppError) (now : Int) : ExecutionFinishPatch := ⟨.failed, none, some failure, now⟩

def advance (surroundings : Surroundings) (kind : StoreKind) (shared : Shared) (call : Call) (move : Move) :
    Option (Shared × Option Call) :=
  match call, move with
  | .invoke input, .next =>
    match surroundings.accept input with
    | .error _ => some (shared, none)
    | .ok (capability, key, text) => some (shared, some (.consuming capability key text))
  | .consuming capability key text, .next =>
    match surroundings.inputHash text with
    | .error _ => some (shared, none)
    | .ok inputHash =>
      some (shared, some (.beginning ⟨capability, key, inputHash⟩ (.start inputHash shared.clock)))
  | .beginning execution record, .next =>
    match shared.records.row execution.key, kind with
    | none, _ => some (shared.begin execution.key record, some (created surroundings execution shared.clock))
    | some _, .postgres => some (shared, some (.reading execution))
    | some existing, .memory => some (shared.answer execution.key execution.inputHash existing, none)
  | .beginning execution record, .fail true _ => some (shared.begin execution.key record, none)
  | .reading execution, .next =>
    match shared.records.row execution.key with
    | none => some (shared, some (created surroundings execution shared.clock))
    | some existing => some (shared.answer execution.key execution.inputHash existing, none)
  | .creatingContext execution, .next => some (shared.handle execution, some (.handling execution))
  | .creatingContext execution, .fail _ failure =>
    some (shared, some (.savingFailure execution failure shared.clock false))
  -- A handler that is late goes on, and its result is dropped.
  | .handling execution, .timeout =>
    some (shared, some (.savingFailure execution (timedOut execution.capability) shared.clock true))
  | .handling execution, .fail _ failure => some (shared, some (.savingFailure execution failure shared.clock true))
  | .handling execution, .handled data =>
    match surroundings.checkResult execution.capability data with
    | .ok _ => some (shared, some (.savingDone execution data shared.clock))
    | .error failure => some (shared, some (.savingFailure execution failure shared.clock true))
  | .savingDone execution data now, .next =>
    some ((shared.finish kind execution.key (donePatch data now)).conclude execution.key (.ok (some data)), none)
  | .savingDone execution data now, .fail committed failure =>
    let after := if committed then shared.finish kind execution.key (donePatch data now) else shared
    some (after, some (.savingFailure execution failure shared.clock true))
  | .savingFailure execution failure now ran, .next =>
    let after := shared.finish kind execution.key (failedPatch failure now)
    some (if ran then after.conclude execution.key (.error failure) else after, none)
  | .savingFailure execution failure now ran, .fail committed other =>
    let after := if committed then shared.finish kind execution.key (failedPatch failure now) else shared
    some (if ran then after.conclude execution.key (.error other) else after, none)
  | .queryExecution capabilityId identity lcid enabled, .next =>
    match surroundings.requireCapability capabilityId enabled, requireIdentityField identity.sub "sub" with
    | .ok _, .ok sub => some (shared, some (.getting ⟨identity.iid, capabilityId, sub, lcid⟩))
    | _, _ => some (shared, none)
  | .getting key, .next =>
    match shared.records.row key with
    | none => some (shared, some (.findingByLcid key))
    | some record => some (shared.query key (some record) (.ok (queryResponse record)), none)
  | .findingByLcid key, .next =>
    some (shared.query key none (if (shared.findByLcid key).isSome then .error ⟨"not_found", "执行记录不属于当前用户"⟩
      else .ok .notStarted), none)
  | .expireOverdue, .next => some (shared, some (.expiring shared.clock))
  | .expiring nowMs, .next | .expiring nowMs, .fail true _ => some (shared.expireOverdue nowMs, none)
  | .tick milliseconds, .next => some ({ shared with clock := shared.clock + milliseconds }, none)
  | _, .fail _ _ => some (shared, none)
  | _, _ => none

def starts (_ : Shared) : Call → Prop
  | .invoke _ | .queryExecution .. | .expireOverdue | .tick _ => True
  | _ => False

instance (shared : Shared) (call : Call) : Decidable (starts shared call) := by
  unfold starts
  split <;> infer_instance

def capabilities (surroundings : Surroundings) (kind : StoreKind) (permits : Shared → Call → Move → Prop) :
    System Shared Call Move :=
  ⟨starts, permits, advance surroundings kind⟩

end AgentSaas.AppServer.Executions
