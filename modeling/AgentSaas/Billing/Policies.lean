import AgentSaas.Billing.Ledger
import AgentSaas.Interleaving

/-! The policy row of a tenant, and the calls that patch it. A call reads the whole policy,
merges its patch into what it read and writes every column back, each in a statement of its
own. -/

namespace AgentSaas.Billing.Policies
open Interleaving

inductive HardCapMode | none | stopBeforeRun
  deriving DecidableEq, Repr

inductive PolicyField
  | billingEnabled
  | billingMode
  | pricingVersion
  | defaultTargetMarginBps
  | organizationMultiplierBps
  | allowNegativeBalance
  | negativeLimitCreditsMicro
  | lowBalanceThresholdCreditsMicro
  | hardCapMode
  | maxRunCreditsMicro
  | showBalance
  | showUsageCredits
  | showCost
  | showGrossMargin
  deriving DecidableEq, Repr

def PolicyField.Value : PolicyField → Type
  | .billingEnabled | .allowNegativeBalance | .showBalance | .showUsageCredits | .showCost | .showGrossMargin => Bool
  | .billingMode => BillingMode
  | .pricingVersion => String
  | .defaultTargetMarginBps | .organizationMultiplierBps | .negativeLimitCreditsMicro
  | .lowBalanceThresholdCreditsMicro => Int
  | .hardCapMode => HardCapMode
  | .maxRunCreditsMicro => Option Int

instance (field : PolicyField) : DecidableEq field.Value := by
  cases field <;> unfold PolicyField.Value <;> infer_instance

structure TenantBillingPolicy where
  fields : (field : PolicyField) → field.Value
  policyVersion : String
  updatedBy : String
  updatedAt : Int

def BillingPolicyPatch := (field : PolicyField) → Option field.Value

structure PricingVersion where
  version : String
  defaultTargetMarginBps : Int

def DEFAULT_BILLING_POLICY_VERSION := "2026-06-27-default"

/-- The row that `ensureTenantPolicy` inserts. -/
def defaultPolicy (isInternalTenant : Bool) (pricing : PricingVersion) (actor : String) (now : Int) : TenantBillingPolicy where
  fields
    | .billingEnabled => false
    | .billingMode => if isInternalTenant then BillingMode.internal else BillingMode.prepaid
    | .pricingVersion => pricing.version
    | .defaultTargetMarginBps => pricing.defaultTargetMarginBps
    | .organizationMultiplierBps => (10000 : Int)
    | .allowNegativeBalance => false
    | .negativeLimitCreditsMicro => (0 : Int)
    | .lowBalanceThresholdCreditsMicro => (0 : Int)
    | .hardCapMode => HardCapMode.none
    | .maxRunCreditsMicro => (none : Option Int)
    | .showBalance => true
    | .showUsageCredits => true
    | .showCost => false
    | .showGrossMargin => false
  policyVersion := DEFAULT_BILLING_POLICY_VERSION
  updatedBy := actor
  updatedAt := now

/-- `{ ...current, ...patch, ... }` -/
def merge (current : TenantBillingPolicy) (patch : BillingPolicyPatch) (actor : String) (now : Int) : TenantBillingPolicy where
  fields field := (patch field).getD (current.fields field)
  policyVersion := DEFAULT_BILLING_POLICY_VERSION ++ "-" ++ toString now
  updatedBy := actor
  updatedAt := now

def capWithoutLimit (hardCapMode : HardCapMode) (maxRunCreditsMicro : Option Int) : Bool :=
  hardCapMode = .stopBeforeRun && maxRunCreditsMicro.all (· ≤ 0)

/-- The patches that were written, in the order of the writes, are kept for the record. -/
structure Store where
  policies : String → Option TenantBillingPolicy
  written : List (String × BillingPolicyPatch)

/-- The patches of one tenant that were written. -/
def Store.patches (store : Store) (tenantId : String) : List BillingPolicyPatch :=
  (store.written.filter (·.1 = tenantId)).map Prod.snd

/-- What a statement gets from outside: the active pricing version and the clock. -/
structure Move where
  pricing : PricingVersion
  now : Int

def ensureTenantPolicy (isInternalTenant : String → Bool) (tenantId actor : String) (move : Move) (store : Store) : Store :=
  match store.policies tenantId with
  | some _ => store
  | none =>
    let policy := defaultPolicy (isInternalTenant tenantId) move.pricing actor move.now
    { store with policies := Function.update store.policies tenantId (some policy) }

def updatePolicy (tenantId : String) (patch : BillingPolicyPatch) (next : TenantBillingPolicy) (store : Store) : Store :=
  match store.policies tenantId with
  | none => store
  | some _ =>
    { policies := Function.update store.policies tenantId (some next), written := store.written ++ [(tenantId, patch)] }

/-- `getTenantPolicy` ensures the row once more before it reads. -/
inductive Stage
  | ensuring
  | ensuringAgain
  | reading
  | writing (current : TenantBillingPolicy)
  | ensuringLast
  | answering

structure Call where
  tenantId : String
  patch : BillingPolicyPatch
  actor : String
  stage : Stage

/-- `updateTenantPolicy`; a call that throws is over. -/
def advance (isInternalTenant : String → Bool) (store : Store) (call : Call) (move : Move) : Option (Store × Option Call) :=
  match call.stage with
  | .ensuring =>
    some (ensureTenantPolicy isInternalTenant call.tenantId call.actor move store, some { call with stage := .ensuringAgain })
  | .ensuringAgain =>
    some (ensureTenantPolicy isInternalTenant call.tenantId "system" move store, some { call with stage := .reading })
  | .reading => some (store, (store.policies call.tenantId).map fun current => { call with stage := .writing current })
  | .writing current =>
    let next := merge current call.patch call.actor move.now
    if capWithoutLimit (next.fields .hardCapMode) (next.fields .maxRunCreditsMicro) then some (store, none)
    else some (updatePolicy call.tenantId call.patch next store, some { call with stage := .ensuringLast })
  | .ensuringLast =>
    some (ensureTenantPolicy isInternalTenant call.tenantId "system" move store, some { call with stage := .answering })
  | .answering => some (store, none)

def starts (_ : Store) (call : Call) : Prop :=
  match call.stage with
  | .ensuring => True
  | _ => False

instance (store : Store) (call : Call) : Decidable (starts store call) := by
  unfold starts
  split <;> infer_instance

def service (isInternalTenant : String → Bool) (permits : Store → Call → Move → Prop) : System Store Call Move :=
  ⟨starts, permits, advance isInternalTenant⟩

end AgentSaas.Billing.Policies
