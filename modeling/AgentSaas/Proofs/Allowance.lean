import AgentSaas.Billing.Allowance
import AgentSaas.Proofs.BillingPeriods

/-! The checks before a run and before a fixed fee, and what the budget overview says of a
member, beside the rule that authorises a run. -/

namespace AgentSaas.Proofs.Allowance
open AgentSaas.Billing AgentSaas.Billing.Allowance

/-- The credit line that a policy patch may set is not negative. -/
def LineBounded (policy : Policies.TenantBillingPolicy) : Prop :=
  policy.allowNegativeBalance = true → 0 ≤ policy.negativeLimitCreditsMicro

/-- The fee takes the balance to the very end of the credit line. -/
def EndsLine (balance : Int) (policy : Policies.TenantBillingPolicy) (fee : Int) : Prop :=
  policy.allowNegativeBalance = true ∧ 0 < policy.negativeLimitCreditsMicro ∧
    fee - balance = policy.negativeLimitCreditsMicro

/-- An enforced budget has both limits. -/
def Limited (budget : MemberBudget) : Prop :=
  budget.active = true → budget.enforcementMode = .stopNewRuns →
    budget.monthlyLimitCreditsMicro.isSome ∧ budget.perRunLimitCreditsMicro.isSome

def starting (balance : Int) (policy : Policies.TenantBillingPolicy) (member : Option Member) : RunAllowanceSnapshot :=
  ⟨balance, policy, 0, some 0, member⟩

def paying (balance : Int) (policy : Policies.TenantBillingPolicy) (runUsed fee : Int) (member : Option Member) :
    RunAllowanceSnapshot :=
  ⟨balance, policy, runUsed, some fee, member⟩

theorem mathTrunc_intCast (value : Int) : mathTrunc value = value := by simp [mathTrunc]

theorem starting_prospective (balance : Int) (policy : Policies.TenantBillingPolicy) (member : Option Member) :
    (starting balance policy member).prospective = 0 := by
  have zero : mathTrunc 0 = 0 := mathTrunc_intCast 0
  simp [starting, RunAllowanceSnapshot.prospective, zero]

theorem starting_minimum (balance : Int) (policy : Policies.TenantBillingPolicy) (member : Option Member) :
    (starting balance policy member).minimumRequired = 1 := by
  simp [RunAllowanceSnapshot.minimumRequired, starting_prospective]

section fee

variable {balance runUsed fee : Int} {policy : Policies.TenantBillingPolicy} {member : Option Member}

theorem paying_prospective (positive : 0 < fee) : (paying balance policy runUsed fee member).prospective = fee := by
  simp only [paying, RunAllowanceSnapshot.prospective, Option.getD_some, mathTrunc_intCast]
  omega

theorem paying_minimum (positive : 0 < fee) : (paying balance policy runUsed fee member).minimumRequired = fee := by
  simp [RunAllowanceSnapshot.minimumRequired, paying_prospective positive, positive]

end fee

section line

variable {balance : Int} {policy : Policies.TenantBillingPolicy}

theorem start_within (bounded : LineBounded policy) : ¬availableOrganizationCreditsMicro balance policy < 1 ↔
    balance > 0 ∨ policy.allowNegativeBalance = true ∧ |balance| < policy.negativeLimitCreditsMicro := by
  unfold availableOrganizationCreditsMicro
  cases allowed : policy.allowNegativeBalance with
  | false => simp; omega
  | true =>
    have line := bounded allowed
    simp only [if_true, true_and]
    rcases le_or_gt balance 0 with low | high
    · rw [abs_of_nonpos low]
      omega
    · omega

theorem fee_within {fee : Int} (bounded : LineBounded policy) (inside : ¬EndsLine balance policy fee) :
    ¬availableOrganizationCreditsMicro balance policy < fee ↔
      balance ≥ fee ∨ policy.allowNegativeBalance = true ∧ fee - balance < policy.negativeLimitCreditsMicro := by
  unfold availableOrganizationCreditsMicro
  cases allowed : policy.allowNegativeBalance with
  | false => simp
  | true =>
    have line := bounded allowed
    have apart : ¬(0 < policy.negativeLimitCreditsMicro ∧ fee - balance = policy.negativeLimitCreditsMicro) :=
      fun ends => inside ⟨allowed, ends⟩
    simp only [if_true, true_and]
    omega

end line

section rule

variable {input : RunAllowanceSnapshot}

theorem organizationDenial_ne_ok : organizationDenial input ≠ some .ok := by
  unfold organizationDenial
  split
  · simp
  · split
    · simp
    · split
      · simp
      · split <;> simp

theorem memberDenial_ne_ok (used prospective : Int) (member : Member) : memberDenial used prospective member ≠ some .ok := by
  unfold memberDenial
  split
  · split
    · simp
    · split <;> simp
  · simp

theorem evaluate_ok : evaluateRunAllowance input = .ok ↔ organizationDenial input = none ∧
    ∀ member ∈ input.member, memberDenial input.runUsedCreditsMicro input.prospective member = none := by
  unfold evaluateRunAllowance
  cases refused : organizationDenial input with
  | some denial =>
    have other : denial ≠ .ok := fun same => organizationDenial_ne_ok (same ▸ refused)
    simp [other]
  | none =>
    cases present : input.member with
    | none => simp
    | some member =>
      have other := memberDenial_ne_ok input.runUsedCreditsMicro input.prospective member
      cases denied : memberDenial input.runUsedCreditsMicro input.prospective member with
      | none => simp [denied]
      | some denial =>
        rw [denied] at other
        simpa [denied] using other

theorem memberDenial_code (used prospective : Int) (member : Member) (reason : String) :
    memberDenial used prospective member ≠ some (.denied .orgBalanceExhausted reason) := by
  unfold memberDenial
  split
  · split
    · simp
    · split <;> simp
  · simp

theorem evaluate_exhausted : (∃ reason, evaluateRunAllowance input = .denied .orgBalanceExhausted reason) ↔
    ∃ reason, organizationDenial input = some (.denied .orgBalanceExhausted reason) := by
  unfold evaluateRunAllowance
  cases refused : organizationDenial input with
  | some denial => simp
  | none =>
    cases input.member with
    | none => simp
    | some member =>
      have other := memberDenial_code input.runUsedCreditsMicro input.prospective member
      cases denied : memberDenial input.runUsedCreditsMicro input.prospective member with
      | none => simp [denied]
      | some denial =>
        simp only [denied] at other
        simpa [denied] using other

end rule

theorem organizationDenial_starting (balance : Int) (policy : Policies.TenantBillingPolicy) (member : Option Member) :
    organizationDenial (starting balance policy member) = none ↔ policy.hardCapMode = .none ∨
      (policy.maxRunCreditsMicro.filter (0 < ·)).isSome ∧ ¬availableOrganizationCreditsMicro balance policy < 1 := by
  unfold organizationDenial
  rw [starting_prospective, starting_minimum]
  simp only [starting]
  cases policy.hardCapMode with
  | none => simp
  | stopBeforeRun =>
    cases configured : policy.maxRunCreditsMicro.filter (0 < ·) with
    | none => simp
    | some runLimit =>
      have positive : 0 < runLimit := by simpa using (Option.filter_eq_some_iff.mp configured).2
      have unreached : limitReached 0 0 runLimit = false := by
        simp only [limitReached]
        simp
        omega
      simp [unreached]

/-- A tenant is let in by the check exactly when it is exempt or the rule lets the run start. -/
theorem start_agrees (balance : Int) {policy : Policies.TenantBillingPolicy} (bounded : LineBounded policy) :
    assertTenantCanStartRun balance policy = .ok ↔
      policy.exempt = true ∨ evaluateRunAllowance (starting balance policy none) = .ok := by
  have within := @start_within balance policy bounded
  rw [evaluate_ok, organizationDenial_starting, within]
  unfold assertTenantCanStartRun
  cases policy.exempt with
  | true => simp
  | false =>
    cases policy.hardCapMode with
    | none => simp [starting]
    | stopBeforeRun =>
      cases policy.maxRunCreditsMicro.filter (0 < ·) with
      | none => simp
      | some runLimit =>
        by_cases positive : balance > 0
        · simp [positive, starting]
        · by_cases line : policy.allowNegativeBalance = true ∧ |balance| < policy.negativeLimitCreditsMicro
          · simp [line, starting]
          · simp only [positive, false_or, starting]
            simp [line]

theorem organizationDenial_paying {balance runUsed fee : Int} {policy : Policies.TenantBillingPolicy}
    {member : Option Member} (configured : ∃ runLimit ∈ policy.maxRunCreditsMicro, 0 < runLimit) (positive : 0 < fee) :
    (∃ reason, organizationDenial (paying balance policy runUsed fee member) =
        some (.denied .orgBalanceExhausted reason)) ↔
      policy.hardCapMode ≠ .none ∧ availableOrganizationCreditsMicro balance policy < fee := by
  obtain ⟨runLimit, limited, above⟩ := configured
  have kept : policy.maxRunCreditsMicro.filter (0 < ·) = some runLimit :=
    Option.filter_eq_some_iff.mpr ⟨limited, by simpa using above⟩
  unfold organizationDenial
  rw [paying_prospective positive, paying_minimum positive]
  simp only [paying, kept]
  cases policy.hardCapMode with
  | none => simp
  | stopBeforeRun =>
    by_cases short : availableOrganizationCreditsMicro balance policy < fee
    · simp [short]
    · by_cases reached : limitReached runUsed fee runLimit = true
      · simp [short, reached]
      · simp [short, reached]

/-- Inside the credit line the check refuses a fee exactly when the rule finds the balance exhausted. -/
theorem fee_agrees (balance runUsed : Int) {policy : Policies.TenantBillingPolicy} {fee : Int} (member : Option Member)
    (bounded : LineBounded policy) (configured : ∃ runLimit ∈ policy.maxRunCreditsMicro, 0 < runLimit)
    (positive : 0 < fee) (inside : ¬EndsLine balance policy fee) :
    (∃ reason, assertTenantCanAffordFixedFee balance policy fee = .error reason) ↔ policy.exempt = false ∧
      ∃ reason, evaluateRunAllowance (paying balance policy runUsed fee member) =
        .denied .orgBalanceExhausted reason := by
  have within := fee_within bounded inside
  have required : max 0 (mathTrunc fee) = fee := by
    rw [mathTrunc_intCast]
    omega
  rw [evaluate_exhausted, organizationDenial_paying configured positive]
  unfold assertTenantCanAffordFixedFee
  simp only [required, not_le.mpr positive, if_false]
  cases policy.exempt with
  | true => simp
  | false =>
    cases policy.hardCapMode with
    | none => simp
    | stopBeforeRun =>
      by_cases short : availableOrganizationCreditsMicro balance policy < fee
      · have refused := mt within.mpr (not_not.mpr short)
        rw [not_or] at refused
        simp [refused.1, refused.2, short]
      · rcases within.mp short with enough | line
        · simp [enough, short]
        · simp [line, short]

theorem memberDenial_starting (member : Member) : memberDenial 0 0 member = none ↔
    (member.active = true → member.enforcementMode = .stopNewRuns →
      (∀ limit ∈ member.monthlyLimitCreditsMicro, member.monthUsedCreditsMicro < limit) ∧
        ∀ limit ∈ member.perRunLimitCreditsMicro, 0 < limit) := by
  unfold memberDenial
  by_cases enforced : member.active = true ∧ member.enforcementMode = .stopNewRuns
  · rw [if_pos enforced]
    have reached : ∀ used limit : Int, limitReached used 0 limit = false ↔ used < limit := by simp [limitReached]
    split
    next some =>
      obtain ⟨limit, present, exceeded⟩ := Option.any_eq_true _ _ |>.mp some
      have below : ¬member.monthUsedCreditsMicro < limit := by simp [← reached, exceeded]
      simp only [reduceCtorEq, false_iff]
      exact fun asked => below ((asked enforced.1 enforced.2).1 limit present)
    next none =>
      have monthly : ∀ limit ∈ member.monthlyLimitCreditsMicro, member.monthUsedCreditsMicro < limit := by
        simpa [Option.any_eq_false, reached] using none
      split
      next some =>
        obtain ⟨limit, present, exceeded⟩ := Option.any_eq_true _ _ |>.mp some
        have below : ¬0 < limit := by simp [← reached, exceeded]
        simp only [reduceCtorEq, false_iff]
        exact fun asked => below ((asked enforced.1 enforced.2).2 limit present)
      next none =>
        have perRun : ∀ limit ∈ member.perRunLimitCreditsMicro, 0 < limit := by
          simpa [Option.any_eq_false, reached] using none
        exact iff_of_true rfl fun _ _ => ⟨monthly, perRun⟩
  · rw [if_neg enforced]
    exact iff_of_true rfl fun active mode => absurd ⟨active, mode⟩ enforced

theorem canStartRun_budget (userId : String) (budget : MemberBudget) (used : Int) (lastUsedAt : Option Int) :
    (budgetUsage userId (some budget) used lastUsedAt).canStartRun = true ↔
      Limited budget ∧ memberDenial 0 0 (budget.member used) = none := by
  rw [memberDenial_starting]
  simp only [budgetUsage, MemberBudget.member, Limited]
  by_cases enforced : budget.active = true ∧ budget.enforcementMode = .stopNewRuns
  · obtain ⟨active, mode⟩ := enforced
    cases monthly : budget.monthlyLimitCreditsMicro with
    | none => simp [active, mode, monthly]
    | some limit =>
      cases perRun : budget.perRunLimitCreditsMicro with
      | none => simp [active, mode, monthly, perRun]
      | some runLimit => simp [active, mode, monthly, perRun]
  · have free : budget.enforcementMode != .stopNewRuns || !budget.active := by
      cases active : budget.active with
      | false => simp
      | true => simpa using fun mode => enforced ⟨active, mode⟩
    simp only [Option.map_some, Option.getD_some, free, Bool.true_or]
    exact iff_of_true trivial ⟨fun active mode => absurd ⟨active, mode⟩ enforced,
      fun active mode => absurd ⟨active, mode⟩ enforced⟩

/-- Where the organization lets the run start, the overview says the member may start one exactly when
the rule does not deny it and an enforced budget has both limits. -/
theorem member_agrees {db : Database} {budgets : String → String → Option MemberBudget} {tenantId userId : String}
    {now : Int} {item : MemberBudgetUsage} (listed : getMemberBudgetOverview db budgets tenantId userId now = some item)
    {balance : Int} {policy : Policies.TenantBillingPolicy}
    (organization : evaluateRunAllowance (starting balance policy none) = .ok) :
    item.canStartRun = true ↔ (∀ budget ∈ budgets tenantId userId, Limited budget) ∧
      evaluateRunAllowance (starting balance policy
        ((budgets tenantId userId).map (·.member item.monthUsedCreditsMicro))) = .ok := by
  have passes : ∀ member, organizationDenial (starting balance policy member) = none := fun member =>
    (organizationDenial_starting balance policy member).mpr
      ((organizationDenial_starting balance policy none).mp (evaluate_ok.mp organization).1)
  have shown : item = budgetUsage userId (budgets tenantId userId) item.monthUsedCreditsMicro item.lastUsedAt := by
    simp only [getMemberBudgetOverview] at listed
    split at listed
    · cases listed
    · rw [← Option.some.inj listed]
      rfl
  rw [evaluate_ok, and_iff_right (passes _)]
  generalize item.monthUsedCreditsMicro = used at shown ⊢
  rw [shown]
  cases found : budgets tenantId userId with
  | none => simp [budgetUsage, starting]
  | some budget =>
    rw [canStartRun_budget, starting_prospective]
    simp [starting]

/-- The three views beside the rule. -/
theorem views_agree :
    (∀ balance policy, LineBounded policy → (assertTenantCanStartRun balance policy = .ok ↔
      policy.exempt = true ∨ evaluateRunAllowance (starting balance policy none) = .ok)) ∧
    (∀ balance policy runUsed fee member, LineBounded policy → (∃ runLimit ∈ policy.maxRunCreditsMicro, 0 < runLimit) →
      0 < fee → ¬EndsLine balance policy fee →
      ((∃ reason, assertTenantCanAffordFixedFee balance policy fee = .error reason) ↔ policy.exempt = false ∧
        ∃ reason, evaluateRunAllowance (paying balance policy runUsed fee member) =
          .denied .orgBalanceExhausted reason)) ∧
    ∀ db budgets tenantId userId now item, getMemberBudgetOverview db budgets tenantId userId now = some item →
      ∀ balance policy, evaluateRunAllowance (starting balance policy none) = .ok →
      (item.canStartRun = true ↔ (∀ budget ∈ budgets tenantId userId, Limited budget) ∧
        evaluateRunAllowance (starting balance policy
          ((budgets tenantId userId).map (·.member item.monthUsedCreditsMicro))) = .ok) := by
  refine ⟨?_, ?_, ?_⟩
  · exact fun balance _ => start_agrees balance
  · exact fun balance _ runUsed _ member => fee_agrees balance runUsed member
  · exact fun _ _ _ _ _ _ listed _ _ => member_agrees listed

/-! A tenant with a hard cap, a limit for a run and a credit line. -/

def capped (billed : Bool) (line : Int) : Policies.TenantBillingPolicy where
  fields
    | .billingEnabled => billed
    | .hardCapMode => Policies.HardCapMode.stopBeforeRun
    | .maxRunCreditsMicro => some (1000000 : Int)
    | .allowNegativeBalance => decide (0 < line)
    | .negativeLimitCreditsMicro => line
    | field => (Policies.defaultPolicy false ⟨"2026-06-27-v1", 6000⟩ "system" 0).fields field
  policyVersion := Policies.DEFAULT_BILLING_POLICY_VERSION
  updatedBy := "system"
  updatedAt := 0

def enforced (monthly perRun : Option Int) : MemberBudget :=
  ⟨monthly, .stopNewRuns, perRun, true, 1, "root", 0, "root", 0⟩

def onlyBudget (budget : MemberBudget) (tenantId userId : String) : Option MemberBudget :=
  if tenantId = "acme" ∧ userId = "u1" then some budget else none

theorem line_bounded (billed : Bool) {line : Int} (bounded : 0 ≤ line) : LineBounded (capped billed line) :=
  fun _ => bounded

/-- One unit of the credit line is enough for a run, not for a fee beyond its end; a member with both
limits may start a run. -/
theorem views_agree_capped :
    assertTenantCanStartRun 0 (capped true 1000000) = .ok ∧
    (∃ reason, assertTenantCanAffordFixedFee 0 (capped true 1000000) (1000001 : Int) = .error reason) ∧
    ∃ item, getMemberBudgetOverview .empty (onlyBudget (enforced (some 5) (some 5))) "acme" "u1" 0 = some item ∧
      item.canStartRun = true := by
  have bounded : LineBounded (capped true 1000000) := line_bounded true (by omega)
  have lets : evaluateRunAllowance (starting 0 (capped true 1000000) none) = .ok := rfl
  refine ⟨?_, ?_, _, rfl, ?_⟩
  · exact (views_agree.1 0 (capped true 1000000) bounded).mpr (.inr lets)
  · have beyond : ¬EndsLine 0 (capped true 1000000) 1000001 := fun ends => absurd ends.2.2 (by decide)
    exact (views_agree.2.1 0 (capped true 1000000) 0 1000001 none bounded ⟨1000000, rfl, by omega⟩ (by omega) beyond).mpr
      ⟨rfl, _, rfl⟩
  · apply (views_agree.2.2 .empty (onlyBudget (enforced (some 5) (some 5))) "acme" "u1" 0 _ rfl 0
      (capped true 1000000) lets).mpr
    refine ⟨fun budget found => ?_, rfl⟩
    rw [← Option.some.inj found]
    exact fun _ _ => ⟨rfl, rfl⟩

/-- An exempt tenant has no balance to exhaust, a fee that ends the credit line is refused, and the
overview holds an absent limit against the member. -/
theorem views_differ :
    (¬∀ balance policy, assertTenantCanStartRun balance policy = .ok ↔
      evaluateRunAllowance (starting balance policy none) = .ok) ∧
    (¬∀ balance policy runUsed (fee : Int) member, (∃ runLimit ∈ policy.maxRunCreditsMicro, 0 < runLimit) → 0 < fee →
      ((∃ reason, assertTenantCanAffordFixedFee balance policy fee = .error reason) ↔
        ∃ reason, evaluateRunAllowance (paying balance policy runUsed fee member) =
          .denied .orgBalanceExhausted reason)) ∧
    ¬∀ db budgets tenantId userId now item, getMemberBudgetOverview db budgets tenantId userId now = some item →
      ∀ balance policy, evaluateRunAllowance (starting balance policy none) = .ok →
      (item.canStartRun = true ↔ evaluateRunAllowance (starting balance policy
        ((budgets tenantId userId).map (·.member item.monthUsedCreditsMicro))) = .ok) := by
  refine ⟨fun agree => ?_, fun agree => ?_, fun agree => ?_⟩
  · have allowed := (agree 0 (capped false 0)).mp rfl
    cases allowed
  · obtain ⟨reason, denied⟩ :=
      (agree 0 (capped true 1000000) 0 1000000 none ⟨1000000, rfl, by omega⟩ (by omega)).mp ⟨_, rfl⟩
    cases denied
  · have offered := (agree .empty (onlyBudget (enforced none (some 5))) "acme" "u1" 0 _ rfl 1 (capped true 0) rfl).mpr rfl
    cases offered

section charge

variable {db later : Database} {budgets : String → String → Option MemberBudget} {input : RunAllowanceInput}
  {policy : Policies.TenantBillingPolicy} {balance fee : Int} {entry : BillingLedgerEntry}

structure WithinLimits (db : Database) (budgets : String → String → Option MemberBudget) (input : RunAllowanceInput)
    (policy : Policies.TenantBillingPolicy) (balance : Int) : Prop where
  organization : policy.hardCapMode = .stopBeforeRun → 0 ≤ availableOrganizationCreditsMicro balance policy ∧
    ∃ limit ∈ policy.maxRunCreditsMicro, db.runUsage input.tenantId input.runId ≤ limit
  member : ∀ userId ∈ truthy input.userId, ∀ budget ∈ budgets input.tenantId userId,
    budget.active = true → budget.enforcementMode = .stopNewRuns →
    (∀ limit ∈ budget.monthlyLimitCreditsMicro, db.memberUsage input.tenantId userId (beijingMonth input.now) ≤ limit) ∧
    ∀ limit ∈ budget.perRunLimitCreditsMicro, db.runUsage input.tenantId input.runId ≤ limit

theorem counted_le (amount : entry.creditsDeltaMicro = -fee) (nonneg : 0 ≤ fee) : BillingPeriods.counted entry ≤ fee := by
  unfold BillingPeriods.counted
  split <;> omega

theorem runUsage_charged (posted : later.ledger = db.ledger ++ [entry]) (amount : entry.creditsDeltaMicro = -fee) (nonneg : 0 ≤ fee)
    (tenantId runId : String) : later.runUsage tenantId runId ≤ db.runUsage tenantId runId + fee := by
  let own (row : BillingLedgerEntry) : Bool := row.tenantId == tenantId && row.runId == some runId
  have charged := counted_le amount nonneg
  change max 0 ((later.ledger.filter own).map BillingPeriods.counted).sum ≤
    max 0 ((db.ledger.filter own).map BillingPeriods.counted).sum + fee
  rw [posted, List.filter_append, List.map_append, List.sum_append]
  cases same : own entry with
  | false => simp [same]; omega
  | true => simp [same]; omega

theorem memberUsage_charged (found : BillingCommits.OriginalsFound db) (posted : later.ledger = db.ledger ++ [entry])
    (amount : entry.creditsDeltaMicro = -fee) (nonneg : 0 ≤ fee) (tenantId userId : String) (period : BeijingMonth) :
    later.memberUsage tenantId userId period ≤ db.memberUsage tenantId userId period + fee := by
  have charged := counted_le amount nonneg
  rw [BillingPeriods.memberUsage_eq, BillingPeriods.memberUsage_eq, BillingPeriods.owed_append found posted]
  split <;> omega

theorem within_of_not_reached {current limit : Int} (nonneg : 0 ≤ fee) (room : limitReached current fee limit = false) :
    current + fee ≤ limit := by
  unfold limitReached at room
  split at room
  next => simpa using room
  next => have := of_decide_eq_false room; omega

theorem within_of_any {limits : Option Int} {current : Int} (nonneg : 0 ≤ fee) (room : ¬limits.any (limitReached current fee) = true)
    (limit : Int) (set : limit ∈ limits) : current + fee ≤ limit := by
  apply within_of_not_reached nonneg
  rw [Option.mem_def.mp set] at room
  exact Bool.eq_false_iff.mpr room

theorem organization_fits {input : RunAllowanceSnapshot} (asked : input.prospective = fee) (nonneg : 0 ≤ fee)
    (unrefused : organizationDenial input = none) (capped : input.policy.hardCapMode = .stopBeforeRun) :
    0 ≤ availableOrganizationCreditsMicro (input.balanceCreditsMicro - fee) input.policy ∧
      ∃ limit ∈ input.policy.maxRunCreditsMicro, input.runUsedCreditsMicro + fee ≤ limit := by
  unfold organizationDenial at unrefused
  rw [capped] at unrefused
  dsimp only at unrefused
  split at unrefused
  next => cases unrefused
  next limit set =>
    split at unrefused
    next => cases unrefused
    next enough =>
      split at unrefused
      next => cases unrefused
      next room =>
        rw [asked] at room
        refine ⟨?_, limit, (Option.filter_eq_some_iff.mp set).1, within_of_not_reached nonneg (Bool.eq_false_iff.mpr room)⟩
        have least : fee ≤ if fee > 0 then fee else 1 := by split <;> omega
        unfold RunAllowanceSnapshot.minimumRequired at enough
        rw [asked] at enough
        unfold availableOrganizationCreditsMicro at enough ⊢
        omega

theorem member_fits {member : Member} {used : Int} (nonneg : 0 ≤ fee) (unrefused : memberDenial used fee member = none)
    (enforced : member.active ∧ member.enforcementMode = .stopNewRuns) :
    (∀ limit ∈ member.monthlyLimitCreditsMicro, member.monthUsedCreditsMicro + fee ≤ limit) ∧
      ∀ limit ∈ member.perRunLimitCreditsMicro, used + fee ≤ limit := by
  rw [memberDenial, if_pos enforced] at unrefused
  split at unrefused
  next => cases unrefused
  next monthly =>
    split at unrefused
    next => cases unrefused
    next perRun => exact ⟨within_of_any nonneg monthly, within_of_any nonneg perRun⟩

/-- Where a fee is authorised, the tenant and the member are within all their limits after it is charged. -/
theorem authorised_fits (found : BillingCommits.OriginalsFound db) (nonneg : 0 ≤ fee)
    (authorised : evaluateRunAllowanceLocked db budgets input policy balance fee = .ok)
    (posted : later.ledger = db.ledger ++ [entry]) (amount : entry.creditsDeltaMicro = -fee) :
    WithinLimits later budgets input policy (balance - fee) := by
  obtain ⟨organization, member⟩ := evaluate_ok.mp authorised
  have prospective (input : RunAllowanceSnapshot) (asked : input.prospectiveCreditsMicro = some (fee : Rat)) : input.prospective = fee := by
    simp only [RunAllowanceSnapshot.prospective, asked, Option.getD_some, mathTrunc_intCast]
    omega
  have run := runUsage_charged posted amount nonneg input.tenantId input.runId
  refine ⟨fun capped => ?_, fun userId named budget present active enforced => ?_⟩
  · obtain ⟨balanced, limit, set, within⟩ := organization_fits (prospective _ rfl) nonneg organization capped
    exact ⟨balanced, limit, set, run.trans within⟩
  · have month := memberUsage_charged found posted amount nonneg input.tenantId userId (beijingMonth input.now)
    have unrefused := member (budget.member (db.memberUsage input.tenantId userId (beijingMonth input.now))) (by
      rw [Option.mem_def] at named present
      simp [named, present])
    rw [prospective _ rfl] at unrefused
    obtain ⟨monthly, perRun⟩ := member_fits nonneg unrefused ⟨active, enforced⟩
    exact ⟨fun limit set => month.trans (monthly limit set), fun limit set => run.trans (perRun limit set)⟩

end charge

def posted : BillingLedgerEntry :=
  fixedDebitEntry ⟨"acme", some "u1", none, "fee", "tool", 20000, 0, none, none, some "r1", none⟩ BillingUsage.billed
    Billing.defaultPricingVersion 0 ⟨"l-1", 0⟩

theorem authorised_fits_fee :
    WithinLimits (Database.empty.post posted) (onlyBudget (enforced (some 20000) (some 20000))) ⟨"acme", some "u1", "r1", 0⟩
      (capped true 1000000) (0 - 20000) := by
  have authorised : evaluateRunAllowanceLocked .empty (onlyBudget (enforced (some 20000) (some 20000))) ⟨"acme", some "u1", "r1", 0⟩
      (capped true 1000000) 0 (20000 : Int) = .ok := by decide +kernel
  have amount : posted.creditsDeltaMicro = -20000 := by decide +kernel
  exact authorised_fits (fun _ absent => absurd absent List.not_mem_nil) (by omega) authorised rfl amount

end AgentSaas.Proofs.Allowance
