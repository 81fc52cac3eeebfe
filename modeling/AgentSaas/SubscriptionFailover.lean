import AgentSaas.ToolCallRepair.Text
import Mathlib.Data.List.Lex

/-! Credentials of a subscription are tried in order, until one gives a result. A response that was
refused for its quota is held until another one replaces it, or until it is finished. -/

namespace AgentSaas.SubscriptionFailover
open ToolCallRepair (Text)

inductive SubscriptionCredentialAvailability | available | quotaCooldown | authUnavailable
  deriving DecidableEq, Repr

structure SubscriptionCredentialRuntimeState where
  availability : SubscriptionCredentialAvailability
  cooldownUntil : Option Text
  deriving DecidableEq, Repr

inductive SubscriptionAttempt (Result Quota : Type)
  | result (result : Result)
  | quota (quota : Quota) (cooldownUntil : Text)
  | authUnavailable
  | ineligible

/-- What the callbacks do for one credential, and the signal between them. A callback throws where it
is an error; one that is not given says that every credential is configured. -/
structure Turn (Token Result Quota ε : Type) where
  signalBefore : Except ε Unit
  isConfigured : Except ε Bool
  getRuntimeState : Except ε (Option SubscriptionCredentialRuntimeState)
  getCredentials : Except ε Token
  signalAfterError : Except ε Unit
  handleCredentialError : ε → Except ε Bool
  signalAfterCredentials : Except ε Unit
  isStillConfigured : Except ε Bool
  attempt : Token → Except ε (SubscriptionAttempt Result Quota)
  disposeQuota : Except ε Unit

structure Unavailable where
  earliestCooldownUntil : Option Text
  authUnavailableCount : Nat
  accountCount : Nat
  ineligibleCount : Nat
  deriving DecidableEq, Repr

structure Options (Token Result Quota ε : Type) where
  credentials : List (Turn Token Result Quota ε)
  signalAtEnd : Except ε Unit
  now : Text
  finishQuota : Quota → Text → Except ε Result
  finishUnavailable : Unavailable → Except ε Result
  disposeLastQuota : Except ε Unit

/-- A quota response, with the place of the credential that got it. -/
structure Held (Quota : Type) where
  place : Nat
  quota : Quota

inductive Event (Quota : Type)
  | attempted (place : Nat)
  | returned (held : Held Quota)
  | disposed (held : Option (Held Quota))
  | resulted (place : Nat)
  | finished (held : Held Quota)

structure Progress (Quota : Type) where
  lastQuota : Option (Held Quota)
  retainLastQuota : Bool
  earliestCooldownUntil : Option Text
  authUnavailableCount : Nat
  ineligibleCount : Nat
  log : List (Event Quota)

variable {Token Result Quota ε : Type}

def initial : Progress Quota := ⟨none, false, none, 0, 0, []⟩

def Progress.record (progress : Progress Quota) (event : Event Quota) : Progress Quota := { progress with log := progress.log ++ [event] }

def Progress.observeCooldown (progress : Progress Quota) (moment : Option Text) : Progress Quota :=
  match moment with
  | none => progress
  | some moment =>
    if moment = [] then progress
    else
      match progress.earliestCooldownUntil with
      | none => { progress with earliestCooldownUntil := some moment }
      | some earliest => if moment < earliest then { progress with earliestCooldownUntil := some moment } else progress

inductive Prepared (Token : Type)
  | ineligible
  | quotaCooldown (moment : Option Text)
  | authUnavailable
  | ready (token : Token)

def prepare (turn : Turn Token Result Quota ε) : Except ε (Prepared Token) := do
  turn.signalBefore
  if !(← turn.isConfigured) then return .ineligible
  match ← turn.getRuntimeState with
  | some ⟨.quotaCooldown, moment⟩ => return .quotaCooldown moment
  | some ⟨.authUnavailable, _⟩ => return .authUnavailable
  | _ =>
    match turn.getCredentials with
    | .error error => do
      turn.signalAfterError
      if !(← turn.handleCredentialError error) then throw error
      return .authUnavailable
    | .ok token => do
      turn.signalAfterCredentials
      if !(← turn.isStillConfigured) then return .ineligible
      return .ready token

/-- What follows the attempt. The one that was held is disposed of before the new one is held. -/
def conclude (turn : Turn Token Result Quota ε) (place : Nat) (progress : Progress Quota) :
    SubscriptionAttempt Result Quota → Except ε (Option Result) × Progress Quota
  | .result result => (.ok (some result), progress.record (.resulted place))
  | .authUnavailable => (.ok none, { progress with authUnavailableCount := progress.authUnavailableCount + 1 })
  | .ineligible => (.ok none, { progress with ineligibleCount := progress.ineligibleCount + 1 })
  | .quota quota cooldownUntil =>
    let progress := (progress.record (.returned ⟨place, quota⟩)).observeCooldown (some cooldownUntil)
    let progress := progress.record (.disposed progress.lastQuota)
    match turn.disposeQuota with
    | .error error => (.error error, progress)
    | .ok () => (.ok none, { progress with lastQuota := some ⟨place, quota⟩ })

def takeTurn (turn : Turn Token Result Quota ε) (place : Nat) (progress : Progress Quota) : Except ε (Option Result) × Progress Quota :=
  match prepare turn with
  | .error error => (.error error, progress)
  | .ok .ineligible => (.ok none, { progress with ineligibleCount := progress.ineligibleCount + 1 })
  | .ok (.quotaCooldown moment) => (.ok none, progress.observeCooldown moment)
  | .ok .authUnavailable => (.ok none, { progress with authUnavailableCount := progress.authUnavailableCount + 1 })
  | .ok (.ready token) =>
    let progress := progress.record (.attempted place)
    match turn.attempt token with
    | .error error => (.error error, progress)
    | .ok outcome => conclude turn place progress outcome

def takeTurns : Nat → List (Turn Token Result Quota ε) → Progress Quota → Except ε (Option Result) × Progress Quota
  | _, [], progress => (.ok none, progress)
  | place, turn :: rest, progress =>
    match takeTurn turn place progress with
    | (.ok none, progress) => takeTurns (place + 1) rest progress
    | stopped => stopped

def finish (options : Options Token Result Quota ε) (progress : Progress Quota) : Except ε Result × Progress Quota :=
  match options.signalAtEnd with
  | .error error => (.error error, progress)
  | .ok () =>
    match progress.lastQuota with
    | some held =>
      match options.finishQuota held.quota (progress.earliestCooldownUntil.getD options.now) with
      | .error error => (.error error, progress)
      | .ok result => (.ok result, { progress.record (.finished held) with retainLastQuota := true })
    | none =>
      (options.finishUnavailable
        ⟨progress.earliestCooldownUntil, progress.authUnavailableCount, options.credentials.length, progress.ineligibleCount⟩, progress)

/-- The block before the `finally`. -/
def attemptAll (options : Options Token Result Quota ε) : Except ε Result × Progress Quota :=
  match takeTurns 0 options.credentials initial with
  | (.error error, progress) => (.error error, progress)
  | (.ok (some result), progress) => (.ok result, progress)
  | (.ok none, progress) => finish options progress

def executeOrderedSubscriptionFailover (options : Options Token Result Quota ε) : Except ε Result × Progress Quota :=
  let (outcome, progress) := attemptAll options
  if progress.retainLastQuota then (outcome, progress)
  else
    let progress := progress.record (.disposed progress.lastQuota)
    match options.disposeLastQuota with
    | .error error => (.error error, progress)
    | .ok () => (outcome, progress)

end AgentSaas.SubscriptionFailover
