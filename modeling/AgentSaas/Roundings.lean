import Mathlib.Algebra.Order.Floor.Ring
import Mathlib.Data.Int.ConditionallyCompleteOrder
import Mathlib.Algebra.BigOperators.Group.List.Basic
import Mathlib.Algebra.Order.BigOperators.Group.List

/-! Maps that round up. Applied to the parts of a whole they give at least what they give for the
whole, and at most an excess more for each further part. -/

namespace AgentSaas.Roundings

section groups

variable {α β γ : Type} [AddCommGroup α] [PartialOrder α] [IsOrderedAddMonoid α]
  [AddCommGroup β] [PartialOrder β] [IsOrderedAddMonoid β] [AddCommGroup γ] [PartialOrder γ] [IsOrderedAddMonoid γ]

structure RoundsUp (f : α → β) (excess : β) : Prop where
  nonneg : ∀ {a}, 0 ≤ a → 0 ≤ f a
  mono : ∀ {a b}, 0 ≤ a → a ≤ b → f a ≤ f b
  together : ∀ {a b}, 0 ≤ a → 0 ≤ b → f (a + b) ≤ f a + f b
  apart : ∀ {a b}, 0 ≤ a → 0 ≤ b → f a + f b ≤ f (a + b) + excess

variable {f : α → β} {g : β → γ} {excess : β} {more : γ}

omit [IsOrderedAddMonoid α] in
theorem RoundsUp.excess_nonneg (rounds : RoundsUp f excess) : 0 ≤ excess := by
  have zero : f 0 + f 0 ≤ f 0 + excess := by simpa using rounds.apart (le_refl (0 : α)) (le_refl 0)
  exact (rounds.nonneg le_rfl).trans (le_of_add_le_add_left zero)

theorem RoundsUp.congr {f' : α → β} (rounds : RoundsUp f excess) (same : ∀ {a}, 0 ≤ a → f' a = f a) : RoundsUp f' excess where
  nonneg above := by
    rw [same above]
    exact rounds.nonneg above
  mono above low := by
    rw [same above, same (above.trans low)]
    exact rounds.mono above low
  together low high := by
    rw [same (add_nonneg low high), same low, same high]
    exact rounds.together low high
  apart low high := by
    rw [same (add_nonneg low high), same low, same high]
    exact rounds.apart low high

/-- Rounding again adds the second map's excess to what it makes of the first one's. -/
theorem RoundsUp.comp (first : RoundsUp f excess) (last : RoundsUp g more) :
    RoundsUp (fun a => g (f a)) (g excess + more) where
  nonneg above := last.nonneg (first.nonneg above)
  mono above low := last.mono (first.nonneg above) (first.mono above low)
  together {a b} low high := by
    have total : 0 ≤ f (a + b) := first.nonneg (add_nonneg low high)
    exact (last.mono total (first.together low high)).trans (last.together (first.nonneg low) (first.nonneg high))
  apart {a b} low high := by
    have parts : 0 ≤ f a + f b := add_nonneg (first.nonneg low) (first.nonneg high)
    have total : 0 ≤ f (a + b) := first.nonneg (add_nonneg low high)
    calc g (f a) + g (f b) ≤ g (f a + f b) + more := last.apart (first.nonneg low) (first.nonneg high)
      _ ≤ g (f (a + b) + excess) + more := add_le_add_left (last.mono parts (first.apart low high)) more
      _ ≤ g (f (a + b)) + g excess + more := add_le_add_left (last.together total first.excess_nonneg) more
      _ = g (f (a + b)) + (g excess + more) := add_assoc ..

end groups

variable {K : Type} [Field K] [LinearOrder K] [IsStrictOrderedRing K] [FloorRing K]

theorem roundsUp_times {factor : K} (positive : 0 ≤ factor) : RoundsUp (fun a : Int => ⌈(a : K) * factor⌉) 1 where
  nonneg above := Int.ceil_nonneg (mul_nonneg (Int.cast_nonneg above) positive)
  mono _ low := Int.ceil_le_ceil (mul_le_mul_of_nonneg_right (Int.cast_le.mpr low) positive)
  together {a b} low high := by
    rw [Int.cast_add, add_mul]
    exact Int.ceil_add_le ..
  apart {a b} low high := by
    rw [Int.cast_add, add_mul]
    exact Int.ceil_add_ceil_le ..

theorem roundsUp_step {step : Int} (positive : 0 < step) : RoundsUp (fun a : Int => ⌈(a : K) / step⌉ * step) step := by
  have inverse : (0 : K) ≤ (step : K)⁻¹ := inv_nonneg.mpr (Int.cast_nonneg positive.le)
  have scale : RoundsUp (fun a : Int => a * step) 0 := {
    nonneg := fun above => mul_nonneg above positive.le
    mono := fun _ low => Int.mul_le_mul_of_nonneg_right low positive.le
    together := fun _ _ => (add_mul ..).le
    apart := fun _ _ => by rw [add_zero, add_mul] }
  simpa [div_eq_mul_inv] using (roundsUp_times inverse).comp scale

end AgentSaas.Roundings
