import AgentSaas.AppServer.Errors
import AgentSaas.Interleaving
import Mathlib.Logic.Function.Basic

/-! The events that the platform sends to an installation. The state is read, the keys are
looked after, and then the answer and the whole state are committed together. -/

namespace AgentSaas.AppServer.Events
open Interleaving

inductive InstallationState
  | enabled | disabled | deleted
  deriving DecidableEq

structure InstallationStateRecord where
  state : InstallationState
  stateVersion : Nat
  deriving DecidableEq

inductive PlatformEventType
  | installationDisabled | installationEnabled | installationDeleted
  | jwksRotated | jwksRevoke | jwksProbe | directoryChanged
  deriving DecidableEq

def PlatformEventType.ofText (text : String) : Option PlatformEventType :=
  match text with
  | "installation.disabled" => some .installationDisabled
  | "installation.enabled" => some .installationEnabled
  | "installation.deleted" => some .installationDeleted
  | "jwks.rotated" => some .jwksRotated
  | "jwks.revoke" => some .jwksRevoke
  | "jwks.probe" => some .jwksProbe
  | "directory.changed" => some .directoryChanged
  | _ => none

structure Payload where
  newKid : Option String
  kid : Option String
  probeSat : Option String
  targetSeq : Option Int
  deriving DecidableEq

/-- What is delivered. A field is missing when it is absent or of another type. -/
structure RawEvent where
  isObject : Bool
  eventId : Option String
  iid : Option String
  stateVersion : Option Int
  type : Option String
  payload : Option Payload
  deriving DecidableEq

structure PlatformEvent where
  eventId : String
  stateVersion : Nat
  type : PlatformEventType
  payload : Option Payload
  deriving DecidableEq

def maxSafeInteger : Int := 9007199254740991

/-- `Number.isSafeInteger(value) && value >= 0` -/
def safeNat (value : Option Int) : Option Nat :=
  value.bind fun number => if 0 ≤ number && number ≤ maxSafeInteger then some number.toNat else none

def assertShape (installationId : String) (value : RawEvent) : Except KyAppError PlatformEvent := do
  unless value.isObject do throw (invalidInput "事件必须是对象")
  let some eventId := value.eventId.filter (!·.isEmpty) | throw (invalidInput "事件缺少 eventId")
  unless value.iid = some installationId do throw (invalidInput "事件 iid 与安装实例不符")
  let some stateVersion := safeNat value.stateVersion | throw (invalidInput "事件 stateVersion 非法")
  let some type := value.type.bind PlatformEventType.ofText
    | throw (invalidInput ("未知事件类型：" ++ value.type.getD "undefined"))
  if type = .directoryChanged && (safeNat (value.payload.bind (·.targetSeq))).isNone then
    throw (invalidInput "directory.changed targetSeq 非法")
  return ⟨eventId, stateVersion, type, value.payload⟩

structure PlatformEventAck where
  eventId : String
  stateVersion : Nat
  verifiedKid : Option String
  deriving DecidableEq

/-- The last field is kept for the record: what the calls have answered, with the event's id. -/
structure Shared where
  record : Option InstallationStateRecord
  acks : String → Option PlatformEventAck
  answered : List (String × PlatformEventAck)

/-- The PostgreSQL store keeps the first answer for an event, and the one in memory the last. -/
inductive StoreKind
  | postgres | memory

namespace Shared

variable (shared : Shared)

def getState : InstallationStateRecord := shared.record.getD ⟨.enabled, 0⟩

def commit (kind : StoreKind) (ack : PlatformEventAck) (state : InstallationStateRecord) : Shared :=
  { shared with
    record := some state
    acks :=
      match kind with
      | .postgres => Function.update shared.acks ack.eventId ((shared.acks ack.eventId).or (some ack))
      | .memory => Function.update shared.acks ack.eventId (some ack) }

def answer (ack : PlatformEventAck) (eventId : String) : Shared :=
  { shared with answered := shared.answered ++ [(eventId, ack)] }

end Shared

def stateByType : PlatformEventType → Option InstallationState
  | .installationDisabled => some .disabled
  | .installationEnabled => some .enabled
  | .installationDeleted => some .deleted
  | .jwksRotated | .jwksRevoke | .jwksProbe | .directoryChanged => none

def nextState (event : PlatformEvent) (current : InstallationStateRecord) : Except KyAppError InstallationStateRecord :=
  match stateByType event.type with
  | none => return current
  | some target =>
    if current.state = .deleted then return current
    else if event.stateVersion ≤ current.stateVersion then return current
    else if event.stateVersion > current.stateVersion + 1 then
      throw ⟨"state_gap", s!"stateVersion 跳号：本地 {current.stateVersion}，收到 {event.stateVersion}"⟩
    else return ⟨target, event.stateVersion⟩

/-- What a call of `handle` awaits. -/
inductive Stage
  | delivered (raw : RawEvent)
  | reading (event : PlatformEvent)
  | working (event : PlatformEvent) (current state : InstallationStateRecord)
  | committing (event : PlatformEvent) (current state : InstallationStateRecord) (ack : PlatformEventAck)

/-- Whether the probe verifies, or how a query fails: before its effect or after it. -/
inductive Move
  | next (verified : Bool)
  | fail (committed : Bool)

/-- The keys are prefetched, revoked or probed; without a payload this throws. -/
def keyWork (event : PlatformEvent) (verified : Bool) : Option (Option String) :=
  match event.type with
  | .jwksRotated | .jwksRevoke => event.payload.map fun _ => none
  | .jwksProbe => event.payload.map fun payload => if verified then payload.kid else none
  | _ => some none

def advance (kind : StoreKind) (installationId : String) (shared : Shared) (call : Stage) (move : Move) :
    Option (Shared × Option Stage) :=
  match call, move with
  | .delivered raw, .next _ =>
    match assertShape installationId raw with
    | .error _ => some (shared, none)
    | .ok event =>
      match shared.acks event.eventId with
      | some ack => some (shared.answer ack event.eventId, none)
      | none => some (shared, some (.reading event))
  | .reading event, .next _ =>
    match nextState event shared.getState with
    | .error _ => some (shared, none)
    | .ok state => some (shared, some (.working event shared.getState state))
  | .working event current state, .next verified =>
    match keyWork event verified with
    | none => some (shared, none)
    | some verifiedKid =>
      some (shared, some (.committing event current state ⟨event.eventId, state.stateVersion, verifiedKid⟩))
  | .committing event _ state ack, .next _ => some ((shared.commit kind ack state).answer ack event.eventId, none)
  | .committing _ _ state ack, .fail true => some (shared.commit kind ack state, none)
  | _, .fail _ => some (shared, none)

def starts (events : RawEvent → Prop) (_ : Shared) : Stage → Prop
  | .delivered raw => events raw
  | _ => False

def eventsHandler (kind : StoreKind) (installationId : String) (events : RawEvent → Prop)
    (permits : Shared → Stage → Move → Prop) : System Shared Stage Move :=
  ⟨starts events, permits, advance kind installationId⟩

end AgentSaas.AppServer.Events
