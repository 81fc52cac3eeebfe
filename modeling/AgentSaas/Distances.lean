import Mathlib.Logic.Relation

/-! How many steps of a relation lead from a start, at least. -/

namespace AgentSaas.Distances

variable {α : Type} (related : α → α → Prop) (start : α)

inductive Path : Nat → α → Prop
  | here : Path 0 start
  | step {count item next} (path : Path count item) (one : related item next) : Path (count + 1) next

def AtDistance (count : Nat) (item : α) : Prop := Path related start count item ∧ ∀ fewer < count, ¬ Path related start fewer item

variable {related start}

theorem atDistance_zero {item : α} : AtDistance related start 0 item ↔ item = start := by
  constructor
  · rintro ⟨path, _⟩
    cases path
    rfl
  · rintro rfl
    exact ⟨.here, fun fewer before => absurd before (Nat.not_lt_zero _)⟩

theorem Path.shortest {count : Nat} {item : α} (path : Path related start count item) : ∃ fewer ≤ count, AtDistance related start fewer item := by
  induction count using Nat.strongRecOn generalizing item with
  | ind count ih =>
    by_cases shorter : ∃ fewer < count, Path related start fewer item
    · obtain ⟨fewer, before, other⟩ := shorter
      obtain ⟨least, within, found⟩ := ih fewer before other
      exact ⟨least, Nat.le_trans within (Nat.le_of_lt before), found⟩
    · exact ⟨count, Nat.le_refl count, path, fun fewer before other => shorter ⟨fewer, before, other⟩⟩

/-- The next level: what a step leads to from this one, and is not on an earlier one. -/
theorem atDistance_succ {count : Nat} {item : α} : AtDistance related start (count + 1) item ↔
    (∃ previous, AtDistance related start count previous ∧ related previous item) ∧ ∀ fewer ≤ count, ¬ AtDistance related start fewer item := by
  constructor
  · rintro ⟨path, least⟩
    refine ⟨?_, fun fewer within other => least fewer (Nat.lt_succ_of_le within) other.1⟩
    cases path with
    | @step _ previous _ path one =>
      refine ⟨previous, ⟨path, fun fewer before other => ?_⟩, one⟩
      exact least (fewer + 1) (Nat.succ_lt_succ before) (.step other one)
  · rintro ⟨⟨previous, at_previous, one⟩, fresh⟩
    refine ⟨.step at_previous.1 one, fun fewer before other => ?_⟩
    obtain ⟨least, within, found⟩ := other.shortest
    exact fresh least (by omega) found

end AgentSaas.Distances
