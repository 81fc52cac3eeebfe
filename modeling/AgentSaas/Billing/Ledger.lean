import AgentSaas.Transactions
import Mathlib.Data.List.Sort
import Mathlib.Data.Rat.Floor
import Mathlib.Logic.Function.Basic

/-! The billing tables and the statements that read and write them. Amounts are
integers of a millionth of a credit or of a yuan, times are milliseconds. -/

namespace AgentSaas.Billing
open AgentSaas.Transactions

def creditMicro : Int := 1000000

inductive BillingMode where
  | prepaid | postpaid | trial | internal
  deriving DecidableEq, Repr

inductive LedgerType where
  | recharge | grant | debit | refund | adjustment | expire | reversal | reserve | release
  deriving DecidableEq, Repr

structure BillingPricingVersion where
  version : String
  creditValueYuanMicro : Int
  defaultTargetMarginBps : Int
  fxRateToCny : Rat
  deriving DecidableEq, Repr

structure TenantBillingPolicy where
  policyVersion : String
  billingEnabled : Bool
  pricingVersion : String
  billingMode : BillingMode
  defaultTargetMarginBps : Int
  organizationMultiplierBps : Int
  allowNegativeBalance : Bool
  negativeLimitCreditsMicro : Int
  deriving DecidableEq, Repr

structure BillingUsageEvent where
  id : String
  idempotencyKey : String
  tenantId : String
  userId : Option String
  username : String
  sessionId : Option String
  runId : Option String
  billable : Bool
  actualCostYuanMicro : Int
  pricingVersion : String
  createdAt : Int
  deriving DecidableEq, Repr

structure BillingLedgerEntry where
  id : String
  idempotencyKey : String
  tenantId : String
  type : LedgerType
  source : String
  relatedUsageEventIds : List String
  userId : Option String
  usernameSnapshot : Option String
  sessionId : Option String
  runId : Option String
  reversesLedgerId : Option String
  creditsDeltaMicro : Int
  balanceBeforeMicro : Int
  balanceAfterMicro : Int
  creditValueYuanMicro : Int
  revenueYuanMicro : Int
  actualCostYuanMicro : Int
  grossProfitYuanMicro : Int
  grossMarginBps : Option Int
  pricingVersion : String
  billingPolicyVersion : String
  note : Option String
  createdBy : Option String
  createdAt : Int
  deriving DecidableEq, Repr

/-- An empty string is falsy. -/
def truthy (text : Option String) : Option String := text.filter (· ≠ "")

def normalizeUsageEvent (row : BillingUsageEvent) : BillingUsageEvent :=
  { row with userId := truthy row.userId, sessionId := truthy row.sessionId, runId := truthy row.runId }

def normalizeLedgerEntry (row : BillingLedgerEntry) : BillingLedgerEntry :=
  { row with
    userId := truthy row.userId
    usernameSnapshot := truthy row.usernameSnapshot
    sessionId := truthy row.sessionId
    runId := truthy row.runId
    reversesLedgerId := truthy row.reversesLedgerId
    note := truthy row.note
    createdBy := truthy row.createdBy }

/-- `Math.trunc`: toward zero. -/
def mathTrunc (value : Rat) : Int := value.num.tdiv value.den

/-- `Math.round`: halves go up. -/
def mathRound (value : Rat) : Int := ⌊value + 1 / 2⌋

def computeRevenueYuanMicro (actualCostYuanMicro defaultTargetMarginBps organizationMultiplierBps : Int) : Int :=
  if actualCostYuanMicro ≤ 0 then 0
  else
    let margin : Rat := (max 0 (min defaultTargetMarginBps 9500) : Int) / 10000
    let required : Int := ⌈(actualCostYuanMicro : Rat) / max (1 / 100) (1 - margin)⌉
    ⌈(required : Rat) * ((organizationMultiplierBps : Rat) / 10000)⌉

/-- The step is 0.01 credit. -/
def roundUpCreditsMicro (value : Int) : Int := ⌈(value : Rat) / 10000⌉ * 10000

/-- A calendar month in Asia/Shanghai, which has no daylight saving. -/
structure BeijingMonth where
  year : Int
  month : Int
  deriving DecidableEq, Repr

/-- The civil date of the day that begins at midnight +08:00. -/
def beijingMonth (time : Int) : BeijingMonth :=
  let day := (time + 8 * 3600000) / 86400000 + 719468
  let dayOfEra := day % 146097
  let yearOfEra := (dayOfEra - dayOfEra / 1460 + dayOfEra / 36524 - dayOfEra / 146096) / 365
  let dayOfYear := dayOfEra - (365 * yearOfEra + yearOfEra / 4 - yearOfEra / 100)
  let shifted := (5 * dayOfYear + 2) / 153
  let month := if shifted < 10 then shifted + 3 else shifted - 9
  ⟨yearOfEra + day / 146097 * 400 + (if month ≤ 2 then 1 else 0), month⟩

example : beijingMonth 1785513600000 = ⟨2026, 8⟩ := by decide

example : beijingMonth 1785513599999 = ⟨2026, 7⟩ := by decide

structure Database where
  pricing : Option BillingPricingVersion
  policies : String → Option TenantBillingPolicy
  /-- `balance_micro` -/
  accounts : String → Option Int
  ledger : List BillingLedgerEntry
  usageEvents : List BillingUsageEvent
  /-- `used_micro` -/
  memberPeriods : String → String → BeijingMonth → Option Int

inductive Lock where
  | run (tenantId runId : String)
  | account (tenantId : String)
  | ledgerId (id : String)
  | ledgerKey (idempotencyKey : String)
  | ledgerReversal (reversesLedgerId : String)
  | ledgerRow (id : String)
  | usageId (id : String)
  | usageKey (idempotencyKey : String)
  | memberPeriod (tenantId userId : String) (period : BeijingMonth)
  | policy (tenantId : String)
  deriving DecidableEq, Repr

/-- What a call gets from `randomUUID()` and from the clock. -/
structure Outside where
  uuid : String
  now : Int

abbrev Query := Statement Database Lock

abbrev Session := Program Database Lock Outside

namespace Database

def setAccount (db : Database) (tenantId : String) (balance : Int) : Database :=
  { db with accounts := Function.update db.accounts tenantId (some balance) }

def appendLedger (db : Database) (entry : BillingLedgerEntry) : Database :=
  { db with ledger := db.ledger ++ [entry] }

def appendUsage (db : Database) (event : BillingUsageEvent) : Database :=
  { db with usageEvents := db.usageEvents ++ [event] }

def setMemberPeriod (db : Database) (tenantId userId : String) (period : BeijingMonth) (used : Int) : Database :=
  { db with
    memberPeriods := Function.update db.memberPeriods tenantId
      (Function.update (db.memberPeriods tenantId) userId
        (Function.update (db.memberPeriods tenantId userId) period (some used))) }

/-- The primary key and the two unique indexes of the ledger. -/
def conflicts (db : Database) (entry : BillingLedgerEntry) : Bool :=
  db.ledger.any fun other => other.id == entry.id || other.idempotencyKey == entry.idempotencyKey ||
    (entry.reversesLedgerId.isSome && other.reversesLedgerId == entry.reversesLedgerId)

/-- A reversal counts in the month of the debit it reverses. -/
def ledgerTime (db : Database) (entry : BillingLedgerEntry) : Int :=
  match entry.reversesLedgerId.bind fun id => db.ledger.find? (·.id == id) with
  | some original => original.createdAt
  | none => entry.createdAt

def memberUsage (db : Database) (tenantId userId : String) (period : BeijingMonth) : Int :=
  let rows := db.ledger.filter fun entry =>
    entry.tenantId == tenantId && entry.userId == some userId && beijingMonth (db.ledgerTime entry) == period
  max 0 (rows.map fun entry =>
    if entry.type = .debit ∨ entry.type = .refund ∨ entry.type = .reversal then -entry.creditsDeltaMicro else 0).sum

def isUsageDebit (entry : BillingLedgerEntry) (tenantId runId : String) : Bool :=
  entry.tenantId == tenantId && entry.runId == some runId && entry.type == .debit && entry.source == "usage_event"

def debitedUsageEventIds (db : Database) (tenantId runId : String) : List String :=
  (db.ledger.filter (isUsageDebit · tenantId runId)).flatMap (·.relatedUsageEventIds)

end Database

/-- `ORDER BY created_at ASC, id ASC` -/
def billableUsage (rows : List BillingUsageEvent) (tenantId runId : String) : List BillingUsageEvent :=
  let selected := rows.filter fun event => event.tenantId == tenantId && event.runId == some runId && event.billable
  (selected.insertionSort fun left right =>
    left.createdAt < right.createdAt ∨ left.createdAt = right.createdAt ∧ left.id ≤ right.id).map normalizeUsageEvent

def selectPricing : Query (Option BillingPricingVersion) := .read (·.pricing)

def selectPolicy (tenantId : String) : Query (Option TenantBillingPolicy) := .read (·.policies tenantId)

/-- `ON CONFLICT (tenant_id) DO NOTHING`, which does not wait for a locked row
that is already there. -/
def insertPolicy (tenantId : String) (policy : TenantBillingPolicy) : Query Unit where
  locks db := if (db.policies tenantId).isSome then [] else [.policy tenantId]
  result _ := ()
  write _ db :=
    if (db.policies tenantId).isSome then db
    else { db with policies := Function.update db.policies tenantId (some policy) }

def insertAccount (tenantId : String) : Query Unit where
  locks db := if (db.accounts tenantId).isSome then [] else [.account tenantId]
  result _ := ()
  write _ db := if (db.accounts tenantId).isSome then db else db.setAccount tenantId 0

def lockRun (tenantId runId : String) : Query Unit := .lock (fun _ => [.run tenantId runId]) (fun _ => ())

/-- `SELECT ... FOR UPDATE` -/
def selectAccount (tenantId : String) : Query (Option Int) :=
  .lock (fun _ => [.account tenantId]) (·.accounts tenantId)

def getLedgerByIdempotencyKey (idempotencyKey : String) : Query (Option BillingLedgerEntry) :=
  .read fun db => (db.ledger.find? (·.idempotencyKey == idempotencyKey)).map normalizeLedgerEntry

/-- `SELECT ... WHERE type = 'debit' FOR UPDATE` -/
def selectDebit (tenantId ledgerId : String) : Query (Option BillingLedgerEntry) :=
  .lock (fun _ => [.ledgerRow ledgerId]) fun db =>
    (db.ledger.find? fun entry =>
      entry.tenantId == tenantId && entry.id == ledgerId && entry.type == .debit).map normalizeLedgerEntry

def selectReversal (tenantId ledgerId : String) : Query (Option BillingLedgerEntry) :=
  .read fun db => (db.ledger.find? fun entry =>
    entry.tenantId == tenantId && entry.reversesLedgerId == some ledgerId).map normalizeLedgerEntry

/-- The inserted row's index entries block a concurrent insert of the same keys.
The result is false when an index already holds one. -/
def insertLedger (entry : BillingLedgerEntry) : Query Bool where
  locks _ := .ledgerId entry.id :: .ledgerKey entry.idempotencyKey ::
    (entry.reversesLedgerId.map Lock.ledgerReversal).toList
  result db := !db.conflicts entry
  write snapshot db := if snapshot.conflicts entry then db else db.appendLedger entry

def updateAccount (tenantId : String) (balance : Int) : Query Unit where
  locks _ := [.account tenantId]
  result _ := ()
  write _ db := if (db.accounts tenantId).isSome then db.setAccount tenantId balance else db

def listDebitedUsageEventIds (tenantId runId : String) : Query (List String) :=
  .read (·.debitedUsageEventIds tenantId runId)

def selectBillableUsage (tenantId runId : String) : Query (List BillingUsageEvent) :=
  .read fun db => billableUsage db.usageEvents tenantId runId

/-- `ON CONFLICT (idempotency_key) DO NOTHING`; a repeated id raises instead. -/
def insertUsage (event : BillingUsageEvent) : Query (Option (Option BillingUsageEvent)) where
  locks db :=
    if db.usageEvents.any (·.idempotencyKey == event.idempotencyKey) then []
    else [.usageId event.id, .usageKey event.idempotencyKey]
  result db :=
    if db.usageEvents.any (·.idempotencyKey == event.idempotencyKey) then some none
    else if db.usageEvents.any (·.id == event.id) then none
    else some (some event)
  write snapshot db :=
    if snapshot.usageEvents.any (fun other => other.idempotencyKey == event.idempotencyKey || other.id == event.id)
    then db else db.appendUsage event

/-- `ON CONFLICT (tenant_id, user_id, period_start) DO NOTHING` -/
def ensureMemberPeriodAccount (tenantId userId : String) (period : BeijingMonth) : Query Unit where
  locks db := if (db.memberPeriods tenantId userId period).isSome then [] else [.memberPeriod tenantId userId period]
  result _ := ()
  write snapshot db :=
    if (db.memberPeriods tenantId userId period).isSome then db
    else db.setMemberPeriod tenantId userId period (snapshot.memberUsage tenantId userId period)

def updateMemberPeriod (tenantId userId : String) (period : BeijingMonth) (change : Int → Int) : Query Unit where
  locks _ := [.memberPeriod tenantId userId period]
  result _ := ()
  write _ db :=
    match db.memberPeriods tenantId userId period with
    | some used => db.setMemberPeriod tenantId userId period (change used)
    | none => db

def changeSettings (pricing : Option BillingPricingVersion → Option BillingPricingVersion)
    (policies : (String → Option TenantBillingPolicy) → String → Option TenantBillingPolicy) : Query Unit where
  locks _ := []
  result _ := ()
  write _ db := { db with pricing := pricing db.pricing, policies := policies db.policies }

end AgentSaas.Billing
