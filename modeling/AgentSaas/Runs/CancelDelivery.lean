import AgentSaas.Dictionaries
import AgentSaas.Interleaving
import AgentSaas.Runs.InvocationStores
import Mathlib.Algebra.Order.Ring.Int
import Mathlib.Data.Int.ConditionallyCompleteOrder

/-! How the cancellation of a tool invocation is delivered to the hand that runs it: on an event, and by
a scan of what is pending. Every call of the store is one statement. -/

namespace AgentSaas.CancelDelivery
open Runs Dictionaries Interleaving InvocationStores
open ToolInvocations (ToolInvocationStatus Invocation StartToolInvocationInput isString claimedMetadata)

structure CancelEvent where
  invocationId : String
  reason : Option String
  metadata : Metadata

structure HandRecord where
  endpoint : String
  status : String
  metadata : Metadata

structure DeliveryOptions where
  serverRemoteBaseUrl : Option String
  serverRemoteAuthToken : Option String
  maxAttempts : Option Int
  retryBaseMs : Option Int
  retryMaxMs : Option Int
  deliveryLeaseMs : Option Int

/-- What is read of other stores before the claim. `resolveHandAuthToken` may be absent. -/
structure Preflight where
  run : Option Run
  hand : Option HandRecord
  resolveHandAuthToken : Option (Option String)

/-! Where the request goes, and with which token. -/

/-- `typeof value === 'string' && value.trim()` -/
def nonblank : Option Json → Option String
  | some (.text value) => some (trim value) |>.filter (· ≠ "")
  | _ => none

/-- `first ?? second` -/
def nullish (first second : Option Json) : Option Json :=
  match first with
  | none | some .null => second
  | some value => some value

def stringOf : Option Json → Option String
  | some (.text value) => some value
  | _ => none

def handId (metadata : Metadata) : Option String := stringOf (metadata "handId") <|> stringOf (metadata "defaultHandId")

/-- The hand is only asked for with an id and the tenant of the run. -/
def selectedHand (metadata : Metadata) (preflight : Preflight) : Option HandRecord :=
  if (handId metadata).any (· ≠ "") ∧ preflight.run.any (·.tenantId ≠ "") then preflight.hand else none

def resolveEndpoint (executionTarget : String) (metadata : Metadata) (hand : Option HandRecord) (options : DeliveryOptions) :
    Option String :=
  nonblank (metadata "handEndpoint") <|> ((hand.map (·.endpoint)).filter (· ≠ "")) <|>
    (if executionTarget = "server-remote" then options.serverRemoteBaseUrl.filter (· ≠ "") else none)

def trimmed (value : Option String) : Option String := (value.map trim).filter (· ≠ "")

def resolveAuthToken (metadata : Metadata) (hand : Option HandRecord) (preflight : Preflight) (options : DeliveryOptions) :
    Option String :=
  if (nonblank (nullish (metadata "handId") (metadata "defaultHandId"))).isSome ∧ hand.isNone then none
  else if hand.any fun hand => (nonblank (hand.metadata "tenantRemoteHandId")).isSome then
    trimmed (preflight.resolveHandAuthToken.getD none)
  else
    nonblank (nullish (metadata "cancelAuthToken") (metadata "authToken")) <|>
      (hand.bind fun _ => trimmed (preflight.resolveHandAuthToken.getD none)) <|>
      (hand.bind fun hand => nonblank (nullish (nullish (hand.metadata "cancelAuthToken") (hand.metadata "authToken"))
        (hand.metadata "serverRemoteAuthToken"))) <|>
      options.serverRemoteAuthToken

/-! What is written about an attempt. -/

inductive OutcomeKind
  | retryScheduled | deadLetter | delivered | notFoundAssumedTerminal | runAbortOnly | missingAuthToken
  deriving DecidableEq

/-- What ends with `cancel_delivered_at`. -/
def OutcomeKind.isTerminal : OutcomeKind → Bool
  | .retryScheduled => false
  | _ => true

def OutcomeKind.text : OutcomeKind → String
  | .retryScheduled => "retry_scheduled"
  | .deadLetter => "dead_letter"
  | .delivered => "delivered"
  | .notFoundAssumedTerminal => "not_found_assumed_terminal"
  | .runAbortOnly => "run_abort_only"
  | .missingAuthToken => "missing_auth_token"

def getAttemptCount (metadata : Metadata) : Int :=
  match metadata "cancelDeliveryAttempts" with
  | some (.number attempts) => if 0 ≤ attempts then attempts else 0
  | _ => 0

def isTruthy : Json → Bool
  | .null => false
  | .bool value => value
  | .number value => value ≠ 0
  | .text value => value ≠ ""
  | .compound _ => true

/-- `...(value ? { [key]: value } : {})` -/
def putSome (metadata : Metadata) (key : String) (value : Option Json) : Metadata := value.elim metadata (metadata.put key)

def baseAttemptMetadata (record : Metadata) (nowText : String) (extra : Metadata) : Metadata :=
  (extra.put "cancelDeliveryAttempts" (.number (getAttemptCount record + 1))).put "cancelDeliveryLastAttemptAt" (.text nowText)

structure Mark where
  kind : OutcomeKind
  patch : Metadata
  maxAttempts : Int

def DeliveryOptions.attempts (options : DeliveryOptions) : Int := options.maxAttempts.getD 3

def buildAttemptMetadata (dates : Dates) (record : Metadata) (now : Int) (nowText reason : String) (extra : Metadata)
    (options : DeliveryOptions) : Option Mark :=
  let attempts := getAttemptCount record + 1
  if options.attempts ≤ attempts then
    some
      { kind := .deadLetter
        patch :=
          (((((extra.put "cancelDelivery" (.text OutcomeKind.deadLetter.text)).put "cancelDeliveryTerminal" (.bool true)).put
            "cancelDeliveryDeadLetterAt" (.text nowText)).put "cancelDeliveryAttempts" (.number attempts)).put
            "cancelDeliveryLastAttemptAt" (.text nowText)).put "cancelDeliveryLastReason" (.text reason)
        maxAttempts := options.attempts }
  else
    let retryMs := min (options.retryMaxMs.getD 30000) (options.retryBaseMs.getD 500 * 2 ^ (attempts - 1).toNat)
    (dates.toISOString (now + retryMs)).map fun next =>
      { kind := .retryScheduled
        patch :=
          (((((extra.put "cancelDelivery" (.text OutcomeKind.retryScheduled.text)).put "cancelDeliveryTerminal" (.bool false)).put
            "cancelDeliveryAttempts" (.number attempts)).put "cancelDeliveryLastAttemptAt" (.text nowText)).put
            "cancelDeliveryLastReason" (.text reason)).put "cancelDeliveryNextAttemptAt" (.text next)
        maxAttempts := options.attempts }

def finalMark (kind : OutcomeKind) (extra : Metadata) (options : DeliveryOptions) : Mark where
  kind := kind
  patch := (extra.put "cancelDelivery" (.text kind.text)).put "cancelDeliveryTerminal" (.bool true)
  maxAttempts := options.attempts

/-- A scan that has more records to go through, and the time at which it began. -/
structure Scan where
  now : Int
  records : List (String × Invocation)

structure Delivery where
  invocationId : String
  record : Invocation
  metadata : Metadata
  options : DeliveryOptions
  now : Int
  claimId : String
  scan : Option Scan

inductive Response
  | responded (ok : Bool) (status : Int) (cancelled : Option Bool)
  | unreachable (error : String)

/-- `run?.status === 'running' && run.workerId && ownerWorkerId && run.workerId !== ownerWorkerId` -/
def ownershipMismatch (metadata : Metadata) (run : Option Run) : Option (String × String) :=
  match run.filter (·.status = .running) with
  | none => none
  | some run =>
    match run.workerId.filter (· ≠ ""), (stringOf (metadata "workerId")).filter (· ≠ "") with
    | some current, some owner => if current ≠ owner then some (owner, current) else none
    | _, _ => none

def Delivery.leaseMs (delivery : Delivery) : Int := delivery.options.deliveryLeaseMs.getD 30000

/-- What comes behind the claim: a mark, or the request with what its mark begins with. -/
inductive Next
  | mark (mark : Mark)
  | fetch (attemptMetadata : Metadata)

def Delivery.afterClaim (delivery : Delivery) (dates : Dates) (preflight : Preflight) (claimed : Invocation) : Option Next :=
  let hand := selectedHand delivery.metadata preflight
  let id := putSome .empty "handId" ((handId delivery.metadata).filter (· ≠ "") |>.map .text)
  match ownershipMismatch delivery.metadata preflight.run with
  | some (owner, current) =>
    (dates.toISOString delivery.now).bind fun nowText =>
      (buildAttemptMetadata dates claimed.metadata delivery.now nowText "worker_ownership_mismatch"
        ((Metadata.empty.put "cancelDeliveryOwnerWorkerId" (.text owner)).put "cancelDeliveryCurrentWorkerId" (.text current))
        delivery.options).map .mark
  | none =>
    match resolveEndpoint delivery.record.executionTarget delivery.metadata hand delivery.options with
    | none =>
      some (.mark (finalMark .runAbortOnly (id.put "cancelDeliveryReason" (.text "missing_hand_endpoint")) delivery.options))
    | some endpoint =>
      match (resolveAuthToken delivery.metadata hand preflight delivery.options).filter (· ≠ "") with
      | none =>
        some (.mark (finalMark .missingAuthToken
          (putSome (id.put "handEndpoint" (.text endpoint)) "authTokenRef"
            ((hand.bind (·.metadata "authTokenRef")).filter isTruthy)) delivery.options))
      | some _ =>
        (dates.toISOString delivery.now).map fun nowText =>
          .fetch (baseAttemptMetadata claimed.metadata nowText
            (putSome (id.put "handEndpoint" (.text endpoint)) "handStatus" (hand.map fun hand => .text hand.status)))

/-- `cancelled === false` for an invocation that its gate has let through and that the hand does not know yet. -/
def claimedButNotRegistered (claimed : Invocation) (cancelled : Option Bool) : Bool :=
  cancelled = some false && claimed.status = .running && isString (claimed.metadata "invokeClaimedAt")

def Delivery.afterFetch (delivery : Delivery) (dates : Dates) (claimed : Invocation) (attemptMetadata : Metadata)
    (response : Response) : Option Mark :=
  (dates.toISOString delivery.now).bind fun nowText =>
    let build := buildAttemptMetadata dates claimed.metadata delivery.now nowText
    match response with
    | .unreachable error =>
      build "network_error" (attemptMetadata.put "cancelDeliveryError" (.text error)) delivery.options
    | .responded ok status cancelled =>
      let answered := attemptMetadata.put "cancelDeliveryStatus" (.number status)
      if ok then
        if claimedButNotRegistered claimed cancelled then
          build "not_found_before_start" (answered.put "cancelDeliveryCancelled" (.bool false)) delivery.options
        else
          let kind := if cancelled = some false then OutcomeKind.notFoundAssumedTerminal else .delivered
          some (finalMark kind (putSome answered "cancelDeliveryCancelled" (cancelled.map .bool)) delivery.options)
      else build "http_error" answered delivery.options

/-! The store and its calls. -/

/-- A claim that was granted. It ends with its outcome. -/
structure Claim where
  invocationId : String
  claimId : String
  expiresAt : Int
  ended : Bool

/-- An outcome that was recorded, and whose claim was the last one then. -/
structure Outcome where
  invocationId : String
  claimId : String
  current : Option String
  kind : OutcomeKind
  maxAttempts : Int

/-- The last three fields are kept for the record. -/
structure Shared where
  clock : Int
  rows : Dictionary String Invocation
  events : List CancelEvent
  drawn : List String
  claims : List Claim
  outcomes : List Outcome

namespace Shared

variable (shared : Shared)

def initial (clock : Int) : Shared := ⟨clock, .empty, [], [], [], []⟩

/-- What a call of the store leaves. -/
def store (invocationId : String) (answer : Answer Invocation) : Shared :=
  { shared with rows := answer.stored.elim shared.rows (shared.rows.set invocationId) }

def claimsOf (invocationId : String) : List Claim := shared.claims.filter (·.invocationId = invocationId)

def outcomesOf (invocationId : String) : List Outcome := shared.outcomes.filter (·.invocationId = invocationId)

def grant (invocationId claimId : String) (expiresAt : Int) : Shared :=
  { shared with claims := shared.claims ++ [⟨invocationId, claimId, expiresAt, false⟩] }

def record (invocationId claimId : String) (mark : Mark) : Shared :=
  { shared with
    outcomes := shared.outcomes ++
      [⟨invocationId, claimId, (shared.claimsOf invocationId).getLast?.map (·.claimId), mark.kind, mark.maxAttempts⟩]
    claims := shared.claims.map fun claim =>
      if claim.invocationId = invocationId ∧ claim.claimId = claimId then { claim with ended := true } else claim }

end Shared

inductive Call
  | start (input : StartToolInvocationInput) (run : Run)
  | complete (invocationId : String) (status : ToolInvocationStatus) (ended : status ≠ .running) (error : Option String)
      (run : Run)
  /-- The gate in front of the side effect. -/
  | invoke (invocationId : String) (expectedWorkerId : Option String)
  /-- `requestCancelOnce`, with the event that its caller appends when the request is the first. -/
  | request (invocationId : String) (reason : Option String) (metadataPatch : Metadata)
  | publish (event : CancelEvent)
  | deliverToolInvocationCancel (event : CancelEvent) (options : DeliveryOptions)
  | deliverPendingToolInvocationCancels (options : DeliveryOptions)
  | scanning (options : DeliveryOptions) (scan : Scan)
  | beginning (invocationId : String) (record : Invocation) (metadata : Metadata) (options : DeliveryOptions)
      (scan : Option Scan)
  | resolving (delivery : Delivery)
  | claiming (delivery : Delivery) (preflight : Preflight) (now : Int)
  | fetching (delivery : Delivery) (claimed : Invocation) (attemptMetadata : Metadata)
  | marking (delivery : Delivery) (mark : Mark)
  | tick (milliseconds : Nat)

inductive Move
  | next
  /-- The statement is done, but its answer does not arrive. -/
  | lost
  | fail
  | draw (claimId : String)
  | resolved (preflight : Preflight)
  | answered (response : Response)

namespace Shared

variable (shared : Shared) (dates : Dates)

def pending : List (String × Invocation) :=
  shared.rows.entries.filter fun entry => entry.2.cancelRequestedAt.isSome && entry.2.cancelDeliveredAt.isNone

def isLater (field : Option Json) (now : Int) : Bool :=
  match field with
  | some (.text text) => (dates.parse text).any (now < ·)
  | _ => false

def claim (delivery : Delivery) (now : Int) : Answer Invocation :=
  Pg.claimCancelDelivery dates (shared.rows.get delivery.invocationId) delivery.claimId delivery.leaseMs now

/-- `markAttempt`, and the other marks. -/
def mark (delivery : Delivery) (mark : Mark) : Answer Invocation :=
  let row := shared.rows.get delivery.invocationId
  if mark.kind.isTerminal then Pg.markCancelDelivered row mark.patch (some delivery.claimId) shared.clock
  else Pg.markCancelDeliveryAttempt row mark.patch (some delivery.claimId) shared.clock

/-- The claim of the gate. -/
def invoke (invocationId : String) (expectedWorkerId : Option String) : Answer Invocation :=
  let row := shared.rows.get invocationId
  update row ((row.filter fun row =>
    row.status = .running && row.cancelRequestedAt.isNone && (row.metadata "invokeClaimedAt").isNone).map fun row =>
      { row with updatedAt := shared.clock, metadata := claimedMetadata row.metadata expectedWorkerId shared.clock })

/-- The record that a statement returns. -/
def returned : Reply Invocation → Option Invocation
  | .record found => found
  | _ => none

end Shared

/-- What follows a delivery. -/
def Delivery.after (delivery : Delivery) : Option Call := delivery.scan.map (.scanning delivery.options)

def advance (dates : Dates) (shared : Shared) (call : Call) (move : Move) : Option (Shared × Option Call) :=
  match call, move with
  | .start input run, .next =>
    let answer := Pg.start (fun _ => some run) (shared.rows.get input.invocationId) input shared.clock
    some (shared.store input.invocationId answer, none)
  | .complete invocationId status _ error run, .next =>
    let answer := Pg.complete (fun _ => some run) (shared.rows.get invocationId) status error shared.clock
    some (shared.store invocationId answer, none)
  | .invoke invocationId expectedWorkerId, .next =>
    some (shared.store invocationId (shared.invoke invocationId expectedWorkerId), none)
  | .request invocationId reason metadataPatch, .next =>
    let answer := Pg.requestCancelOnce (shared.rows.get invocationId) reason metadataPatch shared.clock
    some (shared.store invocationId answer,
      match answer.reply with
      | .cancellation (some (row, true)) => some (.publish ⟨invocationId, reason, row.metadata⟩)
      | _ => none)
  | .request invocationId reason metadataPatch, .lost =>
    some (shared.store invocationId (Pg.requestCancelOnce (shared.rows.get invocationId) reason metadataPatch shared.clock), none)
  | .publish event, .next => some ({ shared with events := shared.events ++ [event] }, none)
  | .deliverToolInvocationCancel event options, .next =>
    let answer := Pg.requestCancel (shared.rows.get event.invocationId) event.reason event.metadata shared.clock
    some (shared.store event.invocationId answer,
      (Shared.returned answer.reply).map fun record =>
        .beginning event.invocationId record (record.metadata.merge event.metadata) options none)
  | .deliverToolInvocationCancel event _, .lost =>
    let answer := Pg.requestCancel (shared.rows.get event.invocationId) event.reason event.metadata shared.clock
    some (shared.store event.invocationId answer, none)
  | .deliverPendingToolInvocationCancels options, .next =>
    some (shared, some (.scanning options ⟨shared.clock, shared.pending⟩))
  | .scanning options scan, .next =>
    match scan.records with
    | [] => some (shared, none)
    | (invocationId, record) :: rest =>
      if Shared.isLater dates (record.metadata "cancelDeliveryNextAttemptAt") scan.now then
        some (shared, some (.scanning options ⟨scan.now, rest⟩))
      else some (shared, some (.beginning invocationId record record.metadata options (some ⟨scan.now, rest⟩)))
  | .beginning invocationId record metadata options scan, .draw claimId =>
    some ({ shared with drawn := shared.drawn ++ [claimId] },
      some (.resolving ⟨invocationId, record, metadata, options, shared.clock, claimId, scan⟩))
  | .resolving delivery, .resolved preflight => some (shared, some (.claiming delivery preflight shared.clock))
  | .claiming delivery preflight now, .next =>
    let answer := shared.claim dates delivery now
    let stored := shared.store delivery.invocationId answer
    match Shared.returned answer.reply with
    | none => some (stored, delivery.after)
    | some claimed =>
      some (stored.grant delivery.invocationId delivery.claimId (now + delivery.leaseMs),
        (delivery.afterClaim dates preflight claimed).map fun
          | .mark mark => .marking delivery mark
          | .fetch attemptMetadata => .fetching delivery claimed attemptMetadata)
  | .claiming delivery _ now, .lost =>
    let answer := shared.claim dates delivery now
    let stored := shared.store delivery.invocationId answer
    match Shared.returned answer.reply with
    | none => some (stored, delivery.after)
    | some _ => some (stored.grant delivery.invocationId delivery.claimId (now + delivery.leaseMs), delivery.after)
  | .fetching delivery claimed attemptMetadata, .answered response =>
    some (shared, (delivery.afterFetch dates claimed attemptMetadata response).map (.marking delivery))
  | .marking delivery mark, .next | .marking delivery mark, .lost =>
    let answer := shared.mark delivery mark
    let stored := shared.store delivery.invocationId answer
    match Shared.returned answer.reply with
    | none => some (stored, delivery.after)
    | some _ => some (stored.record delivery.invocationId delivery.claimId mark, delivery.after)
  | .claiming delivery _ _, .fail | .marking delivery _, .fail => some (shared, delivery.after)
  | .tick milliseconds, .next => some ({ shared with clock := shared.clock + milliseconds }, none)
  | .start .., .fail | .complete .., .fail | .invoke .., .fail | .request .., .fail | .publish _, .fail
  | .deliverToolInvocationCancel .., .fail | .deliverPendingToolInvocationCancels _, .fail | .resolving _, .fail =>
    some (shared, none)
  | _, _ => none

def ownerKeys : List String := ["cancelDeliveryClaimId", "cancelDeliveryClaimExpiresAt", "cancelDeliveryAttempts"]

def Clean (metadata : Metadata) : Prop := ∀ key ∈ ownerKeys, metadata key = none

/-- Who starts an invocation or asks for its end writes no key of the deliveries, and an event that is
delivered has been published. -/
def starts (shared : Shared) : Call → Prop
  | .start input _ => Clean input.metadata
  | .request _ _ metadataPatch => Clean metadataPatch
  | .deliverToolInvocationCancel event _ => event ∈ shared.events
  | .complete .. | .invoke .. | .deliverPendingToolInvocationCancels _ | .tick _ => True
  | _ => False

/-- `randomUUID()` has not been drawn before. -/
def permits (shared : Shared) (_ : Call) : Move → Prop
  | .draw claimId => claimId ∉ shared.drawn
  | _ => True

def service (dates : Dates) : System Shared Call Move := ⟨starts, permits, advance dates⟩

end AgentSaas.CancelDelivery
