import AgentSaas.Billing.Policies
import Mathlib.Algebra.Order.Ring.Int

/-! Who may start a run or pay a fixed fee: the rule that authorises, the two checks of a
tenant that come before it, and what the budget overview says of a member. -/

namespace AgentSaas.Billing.Policies.TenantBillingPolicy

def billingEnabled (policy : TenantBillingPolicy) : Bool := policy.fields .billingEnabled

def billingMode (policy : TenantBillingPolicy) : BillingMode := policy.fields .billingMode

def allowNegativeBalance (policy : TenantBillingPolicy) : Bool := policy.fields .allowNegativeBalance

def negativeLimitCreditsMicro (policy : TenantBillingPolicy) : Int := policy.fields .negativeLimitCreditsMicro

def hardCapMode (policy : TenantBillingPolicy) : HardCapMode := policy.fields .hardCapMode

def maxRunCreditsMicro (policy : TenantBillingPolicy) : Option Int := policy.fields .maxRunCreditsMicro

/-- `!policy.billingEnabled || policy.billingMode === 'internal'` -/
def exempt (policy : TenantBillingPolicy) : Bool := !policy.billingEnabled || policy.billingMode == .internal

end AgentSaas.Billing.Policies.TenantBillingPolicy

namespace AgentSaas.Billing

/-- What a run has been charged, less what was given back. -/
def Database.runUsage (db : Database) (tenantId runId : String) : Int :=
  let rows := db.ledger.filter fun entry => entry.tenantId == tenantId && entry.runId == some runId
  max 0 (rows.map fun entry =>
    if entry.type = .debit ∨ entry.type = .refund ∨ entry.type = .reversal then -entry.creditsDeltaMicro else 0).sum

namespace Allowance

inductive EnforcementMode | notify | stopNewRuns
  deriving DecidableEq, Repr

inductive DecisionCode
  | orgBalanceExhausted | runLimitNotConfigured | memberMonthlyLimitExceeded | memberPerRunLimitExceeded | runLimitExceeded
  deriving DecidableEq, Repr

inductive Decision
  | ok
  | denied (code : DecisionCode) (reason : String)
  deriving DecidableEq, Repr

structure Member where
  active : Bool
  enforcementMode : EnforcementMode
  monthUsedCreditsMicro : Int
  monthlyLimitCreditsMicro : Option Int
  perRunLimitCreditsMicro : Option Int
  deriving DecidableEq, Repr

/-- Of the account only the balance is read. -/
structure RunAllowanceSnapshot where
  balanceCreditsMicro : Int
  policy : Policies.TenantBillingPolicy
  runUsedCreditsMicro : Int
  prospectiveCreditsMicro : Option Rat
  member : Option Member

def availableOrganizationCreditsMicro (balanceCreditsMicro : Int) (policy : Policies.TenantBillingPolicy) : Int :=
  balanceCreditsMicro + if policy.allowNegativeBalance then policy.negativeLimitCreditsMicro else 0

def limitReached (current prospective limit : Int) : Bool :=
  if prospective > 0 then current + prospective > limit else current ≥ limit

/-- `Math.max(0, Math.trunc(input.prospectiveCreditsMicro ?? 0))` -/
def RunAllowanceSnapshot.prospective (input : RunAllowanceSnapshot) : Int :=
  max 0 (mathTrunc (input.prospectiveCreditsMicro.getD 0))

/-- A run that is only about to start needs one unit. -/
def RunAllowanceSnapshot.minimumRequired (input : RunAllowanceSnapshot) : Int :=
  if input.prospective > 0 then input.prospective else 1

/-- `runLimit === undefined || runLimit <= 0` refuses before any balance is looked at. -/
def organizationDenial (input : RunAllowanceSnapshot) : Option Decision :=
  match input.policy.hardCapMode with
  | .none => none
  | .stopBeforeRun =>
    match input.policy.maxRunCreditsMicro.filter (0 < ·) with
    | none => some (.denied .runLimitNotConfigured "组织已启用积分硬封顶，但尚未配置正数的组织单 Run 上限。")
    | some runLimit =>
      if availableOrganizationCreditsMicro input.balanceCreditsMicro input.policy < input.minimumRequired then
        some (.denied .orgBalanceExhausted "组织积分余额不足，已停止后续计费动作。")
      else if limitReached input.runUsedCreditsMicro input.prospective runLimit then
        some (.denied .runLimitExceeded "该运行已达到组织单 Run 积分上限。")
      else none

/-- A limit that is absent is never reached. -/
def memberDenial (runUsedCreditsMicro prospective : Int) (member : Member) : Option Decision :=
  if member.active ∧ member.enforcementMode = .stopNewRuns then
    if member.monthlyLimitCreditsMicro.any (limitReached member.monthUsedCreditsMicro prospective) then
      some (.denied .memberMonthlyLimitExceeded "员工本月积分额度已用尽。")
    else if member.perRunLimitCreditsMicro.any (limitReached runUsedCreditsMicro prospective) then
      some (.denied .memberPerRunLimitExceeded "该运行已达到员工单 Run 积分上限。")
    else none
  else none

def evaluateRunAllowance (input : RunAllowanceSnapshot) : Decision :=
  match organizationDenial input with
  | some denial => denial
  | none => (input.member.bind (memberDenial input.runUsedCreditsMicro input.prospective)).getD .ok

/-! The checks of `BillingService`, over the account and the policy they read. -/

def assertTenantCanStartRun (balanceCreditsMicro : Int) (policy : Policies.TenantBillingPolicy) : Decision :=
  if policy.exempt || policy.hardCapMode = .none then .ok
  else
    match policy.maxRunCreditsMicro.filter (0 < ·) with
    | none => .denied .runLimitNotConfigured "组织已启用积分硬封顶，但尚未配置正数的组织单 Run 上限。"
    | some _ =>
      if balanceCreditsMicro > 0 then .ok
      else if policy.allowNegativeBalance && |balanceCreditsMicro| < policy.negativeLimitCreditsMicro then .ok
      else .denied .orgBalanceExhausted "组织积分余额不足，当前计费策略已启用硬封顶。"

def assertTenantCanAffordFixedFee (balanceCreditsMicro : Int) (policy : Policies.TenantBillingPolicy)
    (creditsMicro : Rat) : Except String Unit :=
  let required := max 0 (mathTrunc creditsMicro)
  if required ≤ 0 then .ok ()
  else if policy.exempt || policy.hardCapMode = .none then .ok ()
  else if balanceCreditsMicro ≥ required then .ok ()
  else if policy.allowNegativeBalance && required - balanceCreditsMicro < policy.negativeLimitCreditsMicro then .ok ()
  else .error "组织积分余额不足，当前计费策略已启用硬封顶。"

/-! The rows of the member budgets, and what is read through them. -/

structure MemberBudget where
  monthlyLimitCreditsMicro : Option Int
  enforcementMode : EnforcementMode
  perRunLimitCreditsMicro : Option Int
  active : Bool
  version : Int
  createdBy : String
  createdAt : Int
  updatedBy : String
  updatedAt : Int
  deriving DecidableEq, Repr

def MemberBudget.member (budget : MemberBudget) (monthUsedCreditsMicro : Int) : Member where
  active := budget.active
  enforcementMode := budget.enforcementMode
  monthUsedCreditsMicro
  monthlyLimitCreditsMicro := budget.monthlyLimitCreditsMicro
  perRunLimitCreditsMicro := budget.perRunLimitCreditsMicro

structure RunAllowanceInput where
  tenantId : String
  userId : Option String
  runId : String
  now : Int
  deriving DecidableEq, Repr

/-- The member counts only where there is a budget row. -/
def evaluateRunAllowanceLocked (db : Database) (budgets : String → String → Option MemberBudget)
    (input : RunAllowanceInput) (policy : Policies.TenantBillingPolicy) (balanceCreditsMicro : Int)
    (prospectiveCreditsMicro : Rat) : Decision :=
  evaluateRunAllowance {
    balanceCreditsMicro, policy
    runUsedCreditsMicro := db.runUsage input.tenantId input.runId
    prospectiveCreditsMicro := some prospectiveCreditsMicro
    member := (truthy input.userId).bind fun userId => (budgets input.tenantId userId).map fun budget =>
      budget.member (db.memberUsage input.tenantId userId (beijingMonth input.now)) }

/-- `getMemberBudgetOverview` of one member. -/
structure MemberBudgetUsage where
  userId : String
  monthlyLimitCreditsMicro : Option Int
  enforcementMode : EnforcementMode
  perRunLimitCreditsMicro : Option Int
  active : Bool
  version : Int
  monthUsedCreditsMicro : Int
  remainingCreditsMicro : Option Int
  canStartRun : Bool
  lastUsedAt : Option Int
  updatedBy : Option String
  updatedAt : Option Int
  deriving DecidableEq, Repr

def memberRows (db : Database) (tenantId userId : String) (period : BeijingMonth) : List BillingLedgerEntry :=
  db.ledger.filter fun entry =>
    entry.tenantId == tenantId && entry.userId == some userId && beijingMonth (db.ledgerTime entry) == period

/-- One row of the full outer join of the budgets and the usage of the month. -/
def budgetUsage (userId : String) (budget : Option MemberBudget) (used : Int) (lastUsedAt : Option Int) : MemberBudgetUsage :=
  let monthlyLimit := budget.bind (·.monthlyLimitCreditsMicro)
  let perRunLimit := budget.bind (·.perRunLimitCreditsMicro)
  let enforcementMode := (budget.map (·.enforcementMode)).getD .notify
  let active := (budget.map (·.active)).getD false
  let remaining := monthlyLimit.map fun limit => max 0 (limit - used)
  { userId
    monthlyLimitCreditsMicro := monthlyLimit
    enforcementMode
    perRunLimitCreditsMicro := perRunLimit
    active
    version := (budget.map (·.version)).getD 0
    monthUsedCreditsMicro := used
    remainingCreditsMicro := remaining
    canStartRun := enforcementMode != .stopNewRuns || !active || (remaining.any (· > 0) && perRunLimit.any (· > 0))
    lastUsedAt
    updatedBy := budget.map (·.updatedBy)
    updatedAt := budget.map (·.updatedAt) }

/-- A member has a row when a budget or some ledger entry of the month names the member. -/
def getMemberBudgetOverview (db : Database) (budgets : String → String → Option MemberBudget) (tenantId userId : String)
    (now : Int) : Option MemberBudgetUsage :=
  let rows := memberRows db tenantId userId (beijingMonth now)
  let budget := budgets tenantId userId
  if budget.isNone && rows.isEmpty then none
  else some (budgetUsage userId budget (db.memberUsage tenantId userId (beijingMonth now))
    ((rows.filter (·.type == .debit)).map (·.createdAt)).max?)

end Allowance

end AgentSaas.Billing
