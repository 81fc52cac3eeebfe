import AgentSaas.Billing.Pricing
import AgentSaas.Roundings

/-! The credits that a cost is charged: in steps of a hundredth, growing with the cost, and for
parts of it never less than for the whole. -/

namespace AgentSaas.Proofs.Pricing
open AgentSaas.Billing AgentSaas.Roundings

/-- The margin as the price uses it. -/
def marginShare (defaultTargetMarginBps : Int) : Rat := (max 0 (min defaultTargetMarginBps 9500) : Int) / 10000

/-- What one more settlement of the same cost can add. -/
def roundingExcess (organizationMultiplierBps creditValueYuanMicro : Int) : Int :=
  roundUpCreditsMicro
    (⌈((⌈(organizationMultiplierBps : Rat) / 10000⌉ + 1 : Int) : Rat) * (creditMicro / creditValueYuanMicro)⌉ + 1) + 10000

section margin

variable (margin : Int)

theorem share_le : marginShare margin ≤ 95 / 100 := by
  unfold marginShare
  have clamped : max 0 (min margin 9500) ≤ 9500 := by omega
  have cast : ((max 0 (min margin 9500) : Int) : Rat) ≤ 9500 := by exact_mod_cast clamped
  linarith

theorem share_below : 0 < 1 - marginShare margin := by
  have := share_le margin
  linarith

theorem kept_share : (actual : Rat) / max (1 / 100) (1 - marginShare margin) = actual * (1 - marginShare margin)⁻¹ := by
  have above : 1 / 100 ≤ 1 - marginShare margin := by
    have := share_le margin
    linarith
  rw [max_eq_right above, div_eq_mul_inv]

end margin

theorem revenue_eq {cost : Int} (nonneg : 0 ≤ cost) (margin multiplier : Int) :
    computeRevenueYuanMicro cost margin multiplier =
      ⌈((⌈(cost : Rat) * (1 - marginShare margin)⁻¹⌉ : Int) : Rat) * ((multiplier : Rat) / 10000)⌉ := by
  rw [← kept_share]
  unfold computeRevenueYuanMicro
  split
  next low =>
    have zero : cost = 0 := by omega
    simp [zero]
  next => rfl

theorem revenue_rounds (margin : Int) {multiplier : Int} (positive : 0 ≤ multiplier) :
    RoundsUp (fun cost => computeRevenueYuanMicro cost margin multiplier) (⌈(multiplier : Rat) / 10000⌉ + 1) := by
  have required := roundsUp_times (inv_nonneg.mpr (share_below margin).le)
  have factor : (0 : Rat) ≤ (multiplier : Rat) / 10000 := div_nonneg (Int.cast_nonneg positive) (by norm_num)
  have revenue := (required.comp (roundsUp_times factor)).congr fun above => revenue_eq above margin multiplier
  simpa using revenue

theorem step_rounds : RoundsUp roundUpCreditsMicro 10000 := by
  have stepped : RoundsUp (fun value : Int => ⌈(value : Rat) / (10000 : Int)⌉ * 10000) 10000 := roundsUp_step (by omega)
  refine stepped.congr fun {value} _ => ?_
  simp [roundUpCreditsMicro]

theorem charge_rounds (margin : Int) {multiplier creditValue : Int} (positive : 0 ≤ multiplier) (valued : 0 < creditValue) :
    RoundsUp (fun cost => creditsToChargeMicro cost margin multiplier creditValue)
      (roundingExcess multiplier creditValue) := by
  have rate : (0 : Rat) ≤ (creditMicro : Rat) / creditValue := by
    exact div_nonneg (by norm_num [creditMicro]) (Int.cast_nonneg valued.le)
  have worth : max 1 creditValue = creditValue := by omega
  have credits := ((revenue_rounds margin positive).comp (roundsUp_times rate)).comp step_rounds
  refine credits.congr fun {cost} _ => ?_
  simp only [creditsToChargeMicro, worth, mul_div_assoc]

theorem margin_covered {cost : Int} (nonneg : 0 ≤ cost) (margin : Int) {multiplier : Int} (full : 10000 ≤ multiplier) :
    marginShare margin * computeRevenueYuanMicro cost margin multiplier ≤
      computeRevenueYuanMicro cost margin multiplier - cost := by
  have below := share_below margin
  have factor : (1 : Rat) ≤ (multiplier : Rat) / 10000 := by
    rw [le_div_iff₀ (by norm_num), one_mul]
    exact_mod_cast full
  have required : (cost : Rat) ≤ ⌈(cost : Rat) * (1 - marginShare margin)⁻¹⌉ * (1 - marginShare margin) := by
    rw [← div_le_iff₀ below, div_eq_mul_inv]
    exact Int.le_ceil _
  have revenue : ((⌈(cost : Rat) * (1 - marginShare margin)⁻¹⌉ : Int) : Rat) ≤
      computeRevenueYuanMicro cost margin multiplier := by
    have above : (0 : Rat) ≤ (⌈(cost : Rat) * (1 - marginShare margin)⁻¹⌉ : Int) :=
      Int.cast_nonneg (Int.ceil_nonneg (mul_nonneg (Int.cast_nonneg nonneg) (inv_nonneg.mpr below.le)))
    rw [revenue_eq nonneg]
    exact (le_mul_of_one_le_right above factor).trans (Int.le_ceil _)
  have covered := required.trans (mul_le_mul_of_nonneg_right revenue below.le)
  linarith

/-- The price of a cost: in whole steps, monotone, never less for its parts than for the whole nor
much more, and with the margin in it. -/
theorem cost_plus (margin : Int) {multiplier creditValue : Int} (positive : 0 ≤ multiplier) (valued : 0 < creditValue) :
    (∀ cost, 10000 ∣ creditsToChargeMicro cost margin multiplier creditValue) ∧
    (∀ low high, 0 ≤ low → low ≤ high → creditsToChargeMicro low margin multiplier creditValue ≤
      creditsToChargeMicro high margin multiplier creditValue) ∧
    (∀ first last, 0 ≤ first → 0 ≤ last →
      creditsToChargeMicro (first + last) margin multiplier creditValue ≤
        creditsToChargeMicro first margin multiplier creditValue +
          creditsToChargeMicro last margin multiplier creditValue ∧
      creditsToChargeMicro first margin multiplier creditValue +
          creditsToChargeMicro last margin multiplier creditValue ≤
        creditsToChargeMicro (first + last) margin multiplier creditValue + roundingExcess multiplier creditValue) ∧
    (10000 ≤ multiplier → ∀ cost, 0 ≤ cost → marginShare margin * computeRevenueYuanMicro cost margin multiplier ≤
      computeRevenueYuanMicro cost margin multiplier - cost) := by
  have rounds := charge_rounds margin positive valued
  refine ⟨fun cost => ?_, fun low high above grows => ?_, fun first last above nonneg => ⟨?_, ?_⟩, fun full cost above => ?_⟩
  · exact Dvd.intro_left _ rfl
  · exact rounds.mono above grows
  · exact rounds.together above nonneg
  · exact rounds.apart above nonneg
  · exact margin_covered above margin full

/-- A margin of three fifths and no discount, at a yuan for a hundred credits. -/
theorem cost_plus_default : creditsToChargeMicro 5000 6000 10000 10000 + creditsToChargeMicro 1 6000 10000 10000 ≤
    creditsToChargeMicro 5001 6000 10000 10000 + roundingExcess 10000 10000 :=
  ((cost_plus 6000 (by omega) (by omega)).2.2.1 5000 1 (by omega) (by omega)).2

end AgentSaas.Proofs.Pricing
