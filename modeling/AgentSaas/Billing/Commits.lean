import AgentSaas.Billing.Store
import Mathlib.Logic.Relation

/-! The billing tables as one sequence of commits. Each commit is a whole
operation on the tables as they are at that moment, with nothing in flight. -/

namespace AgentSaas.Billing

namespace Database

def empty : Database where
  pricing := none
  policies _ := none
  accounts _ := none
  ledger := []
  usageEvents := []
  memberPeriods _ _ _ := none

def post (db : Database) (entry : BillingLedgerEntry) : Database :=
  (db.appendLedger entry).setAccount entry.tenantId entry.balanceAfterMicro

def openMemberPeriod (db : Database) (tenantId userId : String) (period : BeijingMonth) : Database :=
  if (db.memberPeriods tenantId userId period).isSome then db
  else db.setMemberPeriod tenantId userId period (db.memberUsage tenantId userId period)

def moveMemberPeriod (db : Database) (tenantId userId : String) (period : BeijingMonth) (change : Int → Int) :
    Database :=
  match db.memberPeriods tenantId userId period with
  | some used => db.setMemberPeriod tenantId userId period (change used)
  | none => db

def chargeMember (db : Database) (entry : BillingLedgerEntry) (credits time : Int) : Database :=
  match entry.userId with
  | some userId =>
    if credits > 0 then
      (db.openMemberPeriod entry.tenantId userId (beijingMonth time)).moveMemberPeriod entry.tenantId userId
        (beijingMonth time) (· + credits)
    else db
  | none => db

def postReversal (db : Database) (original entry : BillingLedgerEntry) : Database :=
  match original.userId with
  | some userId =>
    let period := beijingMonth original.createdAt
    ((db.openMemberPeriod entry.tenantId userId period).post entry).moveMemberPeriod entry.tenantId userId period
      fun used => max 0 (used - entry.creditsDeltaMicro)
  | none => db.post entry

/-- The rows a settlement that saw `rows` still has to charge. -/
def pendingUsage (db : Database) (rows : List BillingUsageEvent) (tenantId runId : String) : List BillingUsageEvent :=
  (billableUsage rows tenantId runId).filter fun event => !(db.debitedUsageEventIds tenantId runId).contains event.id

end Database

/-- One commit. `allowed` says which calls take part. -/
inductive Commit (hashing : Hashing) (allowed : Request → Prop) : Database → Database → Prop
  | settings (db pricing policies) : Commit hashing allowed db { db with pricing := pricing, policies := policies }
  | account {db tenantId} (absent : db.accounts tenantId = none) :
      Commit hashing allowed db (db.setAccount tenantId 0)
  | usage {db input policy pricing outside} (permitted : allowed (.insertUsageEvent input))
      (unused : ∀ other ∈ db.usageEvents, other.idempotencyKey ≠ input.idempotencyKey ∧ other.id ≠ outside.uuid) :
      Commit hashing allowed db (db.appendUsage (usageEvent input policy pricing outside))
  | adjusted {db input pricing policy before outside} {key generated : String}
      (permitted : allowed (.adjustAccount input))
      (keyed : key = input.idempotencyKey.getD s!"manual:{input.type.text}:{input.tenantId}:{generated}")
      (balance : db.accounts input.tenantId = some before)
      (unused : db.conflicts (adjustmentEntry input pricing policy key before outside) = false) :
      Commit hashing allowed db (db.post (adjustmentEntry input pricing policy key before outside))
  | reversed {db input original before outside} (permitted : allowed (.reverseDebit input))
      (balance : db.accounts input.tenantId = some before)
      (found : original ∈ db.ledger) (same : original.tenantId = input.tenantId ∧ original.id = input.ledgerId)
      (debit : original.type = .debit) (positive : 0 < reversalCredits original)
      (unused : db.conflicts (reversalEntry input (normalizeLedgerEntry original) before outside) = false) :
      Commit hashing allowed db (db.postReversal (normalizeLedgerEntry original)
        (reversalEntry input (normalizeLedgerEntry original) before outside))
  | settled {db tenantId runId policy pricing before outside first rest} {rows : List BillingUsageEvent}
      (permitted : allowed (.settleRunDebit tenantId runId))
      (charges : policy.charges = true) (balance : db.accounts tenantId = some before)
      (seen : rows <+: db.usageEvents) (pending : db.pendingUsage rows tenantId runId = first :: rest)
      (unused : db.conflicts
        (usageDebitEntry hashing tenantId runId policy pricing (first :: rest) before outside) = false) :
      Commit hashing allowed db
        ((db.post (usageDebitEntry hashing tenantId runId policy pricing (first :: rest) before outside)).chargeMember
          (usageDebitEntry hashing tenantId runId policy pricing (first :: rest) before outside)
          (usageCredits policy pricing (first :: rest)) first.createdAt)
  | charged {db input policy pricing before outside} (permitted : allowed (.chargeFixedDebit input))
      (charges : policy.charges = true) (positive : 0 < fixedCredits input) (account : truthy input.runId = none)
      (balance : db.accounts input.tenantId = some before)
      (unused : db.conflicts (fixedDebitEntry input policy pricing before outside) = false) :
      Commit hashing allowed db (db.post (fixedDebitEntry input policy pricing before outside))
  | runCharged {db input policy pricing before outside runId} {time : Int}
      (permitted : allowed (.chargeFixedDebit input))
      (charges : policy.charges = true) (positive : 0 < fixedCredits input) (run : truthy input.runId = some runId)
      (balance : db.accounts input.tenantId = some before)
      (unused : db.conflicts (fixedDebitEntry input policy pricing before outside) = false) :
      Commit hashing allowed db ((db.post (fixedDebitEntry input policy pricing before outside)).chargeMember
        (fixedDebitEntry input policy pricing before outside) (fixedCredits input) time)

def Commits (hashing : Hashing) (allowed : Request → Prop) : Database → Database → Prop :=
  Relation.ReflTransGen (Commit hashing allowed)

def Reachable (hashing : Hashing) (allowed : Request → Prop) : Database → Prop :=
  Commits hashing allowed .empty

/-- What a settlement knows at its commit: nothing it saw is left to charge, or
its own key is already in the ledger. -/
structure Settled (hashing : Hashing) (tenantId runId : String) (settlement : Settlement) (db : Database) : Prop where
  seen : ∃ rows, rows <+: db.usageEvents ∧ settlement.visible = billableUsage rows tenantId runId
  covered :
    let pending := settlement.visible.filter fun event => !(db.debitedUsageEventIds tenantId runId).contains event.id
    pending = [] ∨ ∃ entry ∈ db.ledger, entry.idempotencyKey = usageDebitKey hashing runId (pending.map (·.id))

def Answered (hashing : Hashing) (allowed : Request → Prop) : Reply → Database → Prop
  | .settled tenantId runId (.ok (some settlement)), db =>
    ∃ committed, Reachable hashing allowed committed ∧ Commits hashing allowed committed db ∧
      Settled hashing tenantId runId settlement committed
  | .reversed input (.ok entry), db =>
    ∃ row ∈ db.ledger, row.reversesLedgerId = some input.ledgerId ∧ entry = normalizeLedgerEntry row
  | _, _ => True

end AgentSaas.Billing
