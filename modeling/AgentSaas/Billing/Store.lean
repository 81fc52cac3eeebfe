import AgentSaas.Billing.Ledger

/-! The money operations of `PgBillingStore`, each as the statements it sends. A
raised error rolls the transaction back, and so does a crash. -/

namespace AgentSaas.Billing
open AgentSaas.Transactions

inductive BillingError where
  | idempotencyConflict (message : String)
  | ledgerReversalConflict (message : String)
  /-- A unique index refused the row. -/
  | uniqueViolation
  /-- `rows[0]!` of an empty result. -/
  | missingRow
  deriving DecidableEq, Repr

def defaultPricingVersion : BillingPricingVersion := ⟨"2026-06-27-v1", 10000, 6000, 72 / 10⟩

def isInternalTenantId (tenantId : String) : Bool := tenantId == "pantheon" || tenantId == "kaiyan"

def defaultTenantPolicy (tenantId : String) (pricing : BillingPricingVersion) : TenantBillingPolicy where
  policyVersion := "2026-06-27-default"
  billingEnabled := false
  pricingVersion := pricing.version
  billingMode := if isInternalTenantId tenantId then .internal else .prepaid
  defaultTargetMarginBps := pricing.defaultTargetMarginBps
  organizationMultiplierBps := 10000
  allowNegativeBalance := false
  negativeLimitCreditsMicro := 0

def getActivePricingVersion : Session BillingPricingVersion := do
  let active ← execute selectPricing
  return active.getD defaultPricingVersion

def ensureAccount (tenantId : String) : Session Unit := execute (insertAccount tenantId)

def ensureTenantPolicy (tenantId : String) : Session Unit := do
  let pricing ← getActivePricingVersion
  execute (insertPolicy tenantId (defaultTenantPolicy tenantId pricing))
  ensureAccount tenantId

def getTenantPolicy (tenantId : String) : Session (Option TenantBillingPolicy) := do
  ensureTenantPolicy tenantId
  execute (selectPolicy tenantId)

def TenantBillingPolicy.charges (policy : TenantBillingPolicy) : Bool :=
  policy.billingEnabled && policy.billingMode != .internal

/-- `ROLLBACK` and the error on its way out. -/
def abort (error : BillingError) : Session (Except BillingError α) := do
  rollback
  return .error error

def finish (value : α) : Session (Except BillingError α) := do
  commit
  return .ok value

def insertLedgerAndUpdateAccount (entry : BillingLedgerEntry) : Session Bool := do
  let inserted ← query (insertLedger entry)
  if inserted then
    query (updateAccount entry.tenantId entry.balanceAfterMicro)
    return true
  else return false

inductive AdjustmentType where
  | recharge | grant | refund | adjustment | expire
  deriving DecidableEq, Repr

def AdjustmentType.ledgerType : AdjustmentType → LedgerType
  | .recharge => .recharge
  | .grant => .grant
  | .refund => .refund
  | .adjustment => .adjustment
  | .expire => .expire

def AdjustmentType.text : AdjustmentType → String
  | .recharge => "recharge"
  | .grant => "grant"
  | .refund => "refund"
  | .adjustment => "adjustment"
  | .expire => "expire"

structure AdjustAccountInput where
  tenantId : String
  type : AdjustmentType
  creditsDeltaMicro : Rat
  note : Option String
  actor : String
  idempotencyKey : Option String
  deriving DecidableEq, Repr

def AdjustAccountInput.sameAs (input : AdjustAccountInput) (existing : BillingLedgerEntry) : Bool :=
  existing.tenantId == input.tenantId && existing.type == input.type.ledgerType &&
    existing.creditsDeltaMicro == mathTrunc input.creditsDeltaMicro && existing.source == "manual" &&
    existing.createdBy == some input.actor && existing.note == input.note

def adjustmentEntry (input : AdjustAccountInput) (pricing : BillingPricingVersion) (policy : TenantBillingPolicy)
    (idempotencyKey : String) (before : Int) (outside : Outside) : BillingLedgerEntry where
  id := outside.uuid
  idempotencyKey
  tenantId := input.tenantId
  type := input.type.ledgerType
  source := "manual"
  relatedUsageEventIds := []
  userId := none
  usernameSnapshot := none
  sessionId := none
  runId := none
  reversesLedgerId := none
  creditsDeltaMicro := mathTrunc input.creditsDeltaMicro
  balanceBeforeMicro := before
  balanceAfterMicro := before + mathTrunc input.creditsDeltaMicro
  creditValueYuanMicro := pricing.creditValueYuanMicro
  revenueYuanMicro :=
    mathTrunc ((max 0 (mathTrunc input.creditsDeltaMicro) * pricing.creditValueYuanMicro : Int) / (creditMicro : Rat))
  actualCostYuanMicro := 0
  grossProfitYuanMicro := 0
  grossMarginBps := none
  pricingVersion := pricing.version
  billingPolicyVersion := policy.policyVersion
  note := input.note
  createdBy := some input.actor
  createdAt := outside.now

def adjustAccountLocked (input : AdjustAccountInput) (pricing : BillingPricingVersion)
    (policy : TenantBillingPolicy) (before : Int) : Session (Except BillingError BillingLedgerEntry) := do
  let generated ← receive
  let idempotencyKey :=
    input.idempotencyKey.getD s!"manual:{input.type.text}:{input.tenantId}:{generated.uuid}"
  match ← query (getLedgerByIdempotencyKey idempotencyKey) with
  | some existing =>
    if input.sameAs existing then finish existing
    else abort (.idempotencyConflict "幂等键已被不同租户或不同调账参数使用")
  | none =>
    let outside ← receive
    let entry := adjustmentEntry input pricing policy idempotencyKey before outside
    let inserted ← insertLedgerAndUpdateAccount entry
    if inserted then finish (normalizeLedgerEntry entry) else abort .uniqueViolation

/-- `withAccountLock` -/
def withAccountLock (tenantId : String) (body : Int → Session (Except BillingError α)) :
    Session (Except BillingError α) := do
  ensureAccount tenantId
  match ← query (selectAccount tenantId) with
  | some balance => body balance
  | none => abort .missingRow

def adjustAccount (input : AdjustAccountInput) : Session (Except BillingError BillingLedgerEntry) := do
  let pricing ← getActivePricingVersion
  match ← getTenantPolicy input.tenantId with
  | some policy => withAccountLock input.tenantId (adjustAccountLocked input pricing policy)
  | none => return .error .missingRow

structure ReverseDebitInput where
  tenantId : String
  ledgerId : String
  idempotencyKey : String
  note : String
  actor : String
  deriving DecidableEq, Repr

def reversalCredits (original : BillingLedgerEntry) : Int := max 0 (-original.creditsDeltaMicro)

def reversalEntry (input : ReverseDebitInput) (original : BillingLedgerEntry) (before : Int)
    (outside : Outside) : BillingLedgerEntry where
  id := outside.uuid
  idempotencyKey := input.idempotencyKey
  tenantId := input.tenantId
  type := .reversal
  source := "reversal"
  relatedUsageEventIds := original.relatedUsageEventIds
  userId := original.userId
  usernameSnapshot := original.usernameSnapshot
  sessionId := original.sessionId
  runId := original.runId
  reversesLedgerId := some original.id
  creditsDeltaMicro := reversalCredits original
  balanceBeforeMicro := before
  balanceAfterMicro := before + reversalCredits original
  creditValueYuanMicro := original.creditValueYuanMicro
  revenueYuanMicro := -(max 0 original.revenueYuanMicro)
  actualCostYuanMicro := 0
  grossProfitYuanMicro := -(max 0 original.revenueYuanMicro)
  grossMarginBps := none
  pricingVersion := original.pricingVersion
  billingPolicyVersion := original.billingPolicyVersion
  note := some input.note
  createdBy := some input.actor
  createdAt := outside.now

/-- The member row is created before the ledger row and updated after it. -/
def insertReversal (original entry : BillingLedgerEntry) : Session (Except BillingError BillingLedgerEntry) := do
  match original.userId with
  | some userId =>
    let period := beijingMonth original.createdAt
    query (ensureMemberPeriodAccount entry.tenantId userId period)
    let inserted ← insertLedgerAndUpdateAccount entry
    if inserted then
      query (updateMemberPeriod entry.tenantId userId period fun used => max 0 (used - entry.creditsDeltaMicro))
      finish (normalizeLedgerEntry entry)
    else abort .uniqueViolation
  | none =>
    let inserted ← insertLedgerAndUpdateAccount entry
    if inserted then finish (normalizeLedgerEntry entry) else abort .uniqueViolation

def reverseDebitLocked (input : ReverseDebitInput) (before : Int) :
    Session (Except BillingError BillingLedgerEntry) := do
  match ← query (getLedgerByIdempotencyKey input.idempotencyKey) with
  | some idempotent =>
    if idempotent.reversesLedgerId = some input.ledgerId then finish idempotent
    else abort (.ledgerReversalConflict "该防重标识已用于其他积分流水")
  | none =>
    match ← query (selectDebit input.tenantId input.ledgerId) with
    | none => abort (.ledgerReversalConflict "原扣费流水不存在或不是 debit")
    | some original =>
      match ← query (selectReversal input.tenantId input.ledgerId) with
      | some prior => finish prior
      | none =>
        if reversalCredits original ≤ 0 then abort (.ledgerReversalConflict "原流水没有可恢复的扣费积分")
        else
          let outside ← receive
          insertReversal original (reversalEntry input original before outside)

def reverseDebit (input : ReverseDebitInput) : Session (Except BillingError BillingLedgerEntry) :=
  withAccountLock input.tenantId (reverseDebitLocked input)

structure ProjectedRuntimeUsageInput where
  idempotencyKey : String
  tenantId : String
  userId : Option String
  username : String
  sessionId : Option String
  runId : Option String
  /-- `computeCostMicro` of the model and its tokens. -/
  costUsdMicro : Rat
  occurredAt : Option Int
  billable : Option Bool
  fixedCostYuanMicro : Option Rat
  deriving DecidableEq, Repr

def usageEvent (input : ProjectedRuntimeUsageInput) (policy : TenantBillingPolicy) (pricing : BillingPricingVersion)
    (outside : Outside) : BillingUsageEvent where
  id := outside.uuid
  idempotencyKey := input.idempotencyKey
  tenantId := input.tenantId
  userId := input.userId
  username := input.username
  sessionId := input.sessionId
  runId := input.runId
  billable := if input.billable = some false then false else policy.charges
  actualCostYuanMicro :=
    match input.fixedCostYuanMicro with
    | some cost => max 0 (mathTrunc cost)
    | none => mathRound (input.costUsdMicro * if pricing.fxRateToCny = 0 then 72 / 10 else pricing.fxRateToCny)
  pricingVersion := if pricing.version = "" then "2026-06-27-v1" else pricing.version
  createdAt := input.occurredAt.getD outside.now

def insertUsageEvent (input : ProjectedRuntimeUsageInput) :
    Session (Except BillingError (Option BillingUsageEvent)) := do
  match ← getTenantPolicy input.tenantId with
  | none => return .error .missingRow
  | some policy =>
    let pricing ← getActivePricingVersion
    let outside ← receive
    match ← execute (insertUsage (usageEvent input policy pricing outside)) with
    | some inserted => return .ok inserted
    | none => return .error .uniqueViolation

/-- The first sixteen hex digits of a SHA-1. -/
structure Hashing where
  sha1Prefix : String → String

def Hashing.usageEventIdHash (hashing : Hashing) (ids : List String) : String :=
  hashing.sha1Prefix ("\n".intercalate (ids.insertionSort (· ≤ ·)))

def usageDebitKey (hashing : Hashing) (runId : String) (ids : List String) : String :=
  "debit:usage:v1:" ++ runId ++ ":" ++ hashing.usageEventIdHash ids

/-- Set only when every pending row names the same user. -/
def chargedUser (pending : List BillingUsageEvent) : Option String :=
  match (pending.filterMap (·.userId)).eraseDups with
  | [userId] => if pending.all (·.userId.isSome) then some userId else none
  | _ => none

def usageCredits (policy : TenantBillingPolicy) (pricing : BillingPricingVersion)
    (pending : List BillingUsageEvent) : Int :=
  let revenue := computeRevenueYuanMicro (pending.map (·.actualCostYuanMicro)).sum policy.defaultTargetMarginBps
    policy.organizationMultiplierBps
  roundUpCreditsMicro ⌈(revenue * creditMicro : Rat) / (max 1 pricing.creditValueYuanMicro : Int)⌉

def grossMarginBps (revenue grossProfit : Int) : Option Int :=
  if revenue > 0 then some (mathRound ((grossProfit : Rat) / revenue * 10000)) else none

def usageDebitEntry (hashing : Hashing) (tenantId runId : String) (policy : TenantBillingPolicy)
    (pricing : BillingPricingVersion) (pending : List BillingUsageEvent) (before : Int)
    (outside : Outside) : BillingLedgerEntry :=
  let actualCost := (pending.map (·.actualCostYuanMicro)).sum
  let revenue := computeRevenueYuanMicro actualCost policy.defaultTargetMarginBps policy.organizationMultiplierBps
  let plural := if pending.length = 1 then "" else "s"
  { id := outside.uuid
    idempotencyKey := usageDebitKey hashing runId (pending.map (·.id))
    tenantId
    type := .debit
    source := "usage_event"
    relatedUsageEventIds := pending.map (·.id)
    userId := chargedUser pending
    usernameSnapshot :=
      truthy ((chargedUser pending).bind fun userId => (pending.find? (·.userId == some userId)).map (·.username))
    sessionId := pending.head?.bind (·.sessionId)
    runId := some runId
    reversesLedgerId := none
    creditsDeltaMicro := -usageCredits policy pricing pending
    balanceBeforeMicro := before
    balanceAfterMicro := before - usageCredits policy pricing pending
    creditValueYuanMicro := pricing.creditValueYuanMicro
    revenueYuanMicro := revenue
    actualCostYuanMicro := actualCost
    grossProfitYuanMicro := revenue - actualCost
    grossMarginBps := grossMarginBps revenue (revenue - actualCost)
    pricingVersion := pricing.version
    billingPolicyVersion := policy.policyVersion
    note := some s!"run usage debit ({pending.length} usage event{plural})"
    createdBy := some "system"
    createdAt := outside.now }

/-- The answer of `settleRunDebit`, with the billable rows its `SELECT` returned:
those are not part of the source's result. -/
structure Settlement where
  debit : Option BillingLedgerEntry
  visible : List BillingUsageEvent
  deriving DecidableEq, Repr

/-- `usedMicro` moves only for a positive charge of one known user. -/
def chargeMember (entry : BillingLedgerEntry) (credits time : Int) : Session Unit :=
  match entry.userId with
  | some userId =>
    if credits > 0 then do
      query (ensureMemberPeriodAccount entry.tenantId userId (beijingMonth time))
      query (updateMemberPeriod entry.tenantId userId (beijingMonth time) (· + credits))
    else return ()
  | none => return ()

def settleRunDebitLocked (hashing : Hashing) (tenantId runId : String) (policy : TenantBillingPolicy)
    (pricing : BillingPricingVersion) (before : Int) : Session (Except BillingError Settlement) := do
  let charged ← query (listDebitedUsageEventIds tenantId runId)
  let visible ← query (selectBillableUsage tenantId runId)
  match visible.filter fun event => !charged.contains event.id with
  | [] => finish ⟨none, visible⟩
  | first :: rest =>
    let pending := first :: rest
    match ← query (getLedgerByIdempotencyKey (usageDebitKey hashing runId (pending.map (·.id)))) with
    | some existing => finish ⟨some existing, visible⟩
    | none =>
      let outside ← receive
      let entry := usageDebitEntry hashing tenantId runId policy pricing pending before outside
      let inserted ← insertLedgerAndUpdateAccount entry
      if inserted then
        chargeMember entry (usageCredits policy pricing pending) first.createdAt
        finish ⟨some (normalizeLedgerEntry entry), visible⟩
      else abort .uniqueViolation

/-- `none` when the tenant is not billed. -/
def settleRunDebit (hashing : Hashing) (tenantId runId : String) :
    Session (Except BillingError (Option Settlement)) := do
  match ← getTenantPolicy tenantId with
  | none => return .error .missingRow
  | some policy =>
    if policy.charges then
      let pricing ← getActivePricingVersion
      ensureAccount tenantId
      query (lockRun tenantId runId)
      match ← query (selectAccount tenantId) with
      | none => abort .missingRow
      | some before =>
        let settled ← settleRunDebitLocked hashing tenantId runId policy pricing before
        return settled.map some
    else return .ok none

structure FixedDebitInput where
  tenantId : String
  userId : Option String
  username : Option String
  idempotencyKey : String
  source : String
  creditsMicro : Rat
  actualCostYuanMicro : Rat
  relatedUsageEventIds : Option (List String)
  sessionId : Option String
  runId : Option String
  note : Option String
  deriving DecidableEq, Repr

def fixedCredits (input : FixedDebitInput) : Int := roundUpCreditsMicro (max 0 (mathTrunc input.creditsMicro))

def fixedDebitEntry (input : FixedDebitInput) (policy : TenantBillingPolicy) (pricing : BillingPricingVersion)
    (before : Int) (outside : Outside) : BillingLedgerEntry :=
  let revenue := mathTrunc ((fixedCredits input * pricing.creditValueYuanMicro : Int) / (creditMicro : Rat))
  let actualCost := max 0 (mathTrunc input.actualCostYuanMicro)
  { id := outside.uuid
    idempotencyKey := input.idempotencyKey
    tenantId := input.tenantId
    type := .debit
    source := input.source
    relatedUsageEventIds := input.relatedUsageEventIds.getD []
    userId := truthy input.userId
    usernameSnapshot := truthy input.username
    sessionId := truthy input.sessionId
    runId := truthy input.runId
    reversesLedgerId := none
    creditsDeltaMicro := -fixedCredits input
    balanceBeforeMicro := before
    balanceAfterMicro := before - fixedCredits input
    creditValueYuanMicro := pricing.creditValueYuanMicro
    revenueYuanMicro := revenue
    actualCostYuanMicro := actualCost
    grossProfitYuanMicro := revenue - actualCost
    grossMarginBps := grossMarginBps revenue (revenue - actualCost)
    pricingVersion := pricing.version
    billingPolicyVersion := policy.policyVersion
    note := truthy input.note
    createdBy := some "system"
    createdAt := outside.now }

/-- Without a run the member's period row is left alone. -/
def chargeFixedDebitLocked (input : FixedDebitInput) (policy : TenantBillingPolicy)
    (pricing : BillingPricingVersion) (before : Int) : Session (Except BillingError BillingLedgerEntry) := do
  match ← query (getLedgerByIdempotencyKey input.idempotencyKey) with
  | some existing => finish existing
  | none =>
    let outside ← receive
    let entry := fixedDebitEntry input policy pricing before outside
    let inserted ← insertLedgerAndUpdateAccount entry
    if inserted then finish (normalizeLedgerEntry entry) else abort .uniqueViolation

/-- The source checks the amount a second time, which cannot fail after the check
of its only caller. -/
def chargeRunFixedDebit (input : FixedDebitInput) (runId : String) (policy : TenantBillingPolicy)
    (pricing : BillingPricingVersion) : Session (Except BillingError BillingLedgerEntry) := do
  ensureAccount input.tenantId
  query (lockRun input.tenantId runId)
  match ← query (selectAccount input.tenantId) with
  | none => abort .missingRow
  | some before =>
    match ← query (getLedgerByIdempotencyKey input.idempotencyKey) with
    | some existing => finish existing
    | none =>
      let outside ← receive
      let entry := fixedDebitEntry input policy pricing before outside
      let inserted ← insertLedgerAndUpdateAccount entry
      if inserted then
        let charged ← receive
        chargeMember entry (fixedCredits input) charged.now
        finish (normalizeLedgerEntry entry)
      else abort .uniqueViolation

def chargeFixedDebit (input : FixedDebitInput) : Session (Except BillingError (Option BillingLedgerEntry)) := do
  match ← getTenantPolicy input.tenantId with
  | none => return .error .missingRow
  | some policy =>
    if policy.charges && fixedCredits input > 0 then
      let pricing ← getActivePricingVersion
      let entry ← match truthy input.runId with
        | some runId => chargeRunFixedDebit input runId policy pricing
        | none => withAccountLock input.tenantId (chargeFixedDebitLocked input policy pricing)
      return entry.map some
    else return .ok none

/-! The calls that meet in the database. -/

inductive Request where
  | adjustAccount (input : AdjustAccountInput)
  | reverseDebit (input : ReverseDebitInput)
  | insertUsageEvent (input : ProjectedRuntimeUsageInput)
  | settleRunDebit (tenantId runId : String)
  | chargeFixedDebit (input : FixedDebitInput)
  | changeSettings (pricing : Option BillingPricingVersion → Option BillingPricingVersion)
      (policies : (String → Option TenantBillingPolicy) → String → Option TenantBillingPolicy)

inductive Reply where
  | adjusted (input : AdjustAccountInput) (result : Except BillingError BillingLedgerEntry)
  | reversed (input : ReverseDebitInput) (result : Except BillingError BillingLedgerEntry)
  | recorded (input : ProjectedRuntimeUsageInput) (result : Except BillingError (Option BillingUsageEvent))
  | settled (tenantId runId : String) (result : Except BillingError (Option Settlement))
  | charged (input : FixedDebitInput) (result : Except BillingError (Option BillingLedgerEntry))
  | changed

def Request.run (hashing : Hashing) : Request → Session Reply
  | .adjustAccount input => do return .adjusted input (← Billing.adjustAccount input)
  | .reverseDebit input => do return .reversed input (← Billing.reverseDebit input)
  | .insertUsageEvent input => do return .recorded input (← Billing.insertUsageEvent input)
  | .settleRunDebit tenantId runId => do return .settled tenantId runId (← Billing.settleRunDebit hashing tenantId runId)
  | .chargeFixedDebit input => do return .charged input (← Billing.chargeFixedDebit input)
  | .changeSettings pricing policies => do
    execute (Billing.changeSettings pricing policies)
    return .changed

/-- Any number of calls of the allowed kinds, in any interleaving. -/
def store (hashing : Hashing) (allowed : Request → Prop) : System Database Lock Outside Reply where
  admits _ program := ∃ request, allowed request ∧ program = request.run hashing
  permits _ _ _ _ := True

end AgentSaas.Billing
