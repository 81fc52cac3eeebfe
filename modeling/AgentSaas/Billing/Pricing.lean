import AgentSaas.Billing.Store

/-! From a cost to credits: the cost, its margin and the organization's multiplier make the
revenue, and the revenue is charged in credits. -/

namespace AgentSaas.Billing

/-- What `settleRunDebit` charges for the cost of the usage it settles. -/
def creditsToChargeMicro (actualCostYuanMicro defaultTargetMarginBps organizationMultiplierBps creditValueYuanMicro : Int) :
    Int :=
  let revenueYuanMicro := computeRevenueYuanMicro actualCostYuanMicro defaultTargetMarginBps organizationMultiplierBps
  roundUpCreditsMicro ⌈(revenueYuanMicro * creditMicro : Rat) / (max 1 creditValueYuanMicro : Int)⌉

def costUsdMicroToCreditsMicro (costUsdMicro fxRateToCny : Rat)
    (creditValueYuanMicro defaultTargetMarginBps organizationMultiplierBps : Int) : Int :=
  let actualCostYuanMicro := ⌈max 0 costUsdMicro * fxRateToCny⌉
  creditsToChargeMicro actualCostYuanMicro defaultTargetMarginBps organizationMultiplierBps creditValueYuanMicro

end AgentSaas.Billing
