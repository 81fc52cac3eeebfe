import Mathlib.Tactic.ByContra
import Mathlib.Data.List.Basic

/-! Scans of a list for the last and the first item that is wanted. -/

namespace AgentSaas.Scans

variable {α : Type} (wanted : α → Bool)

def lastIndex : List α → Option Nat
  | [] => none
  | item :: rest =>
    match lastIndex rest with
    | some index => some (index + 1)
    | none => if wanted item then some 0 else none

variable {wanted} {items : List α} {index : Nat}

theorem lastIndex_eq_none : lastIndex wanted items = none ↔ ∀ item ∈ items, wanted item = false := by
  induction items with
  | nil => simp [lastIndex]
  | cons item rest ih =>
    simp only [lastIndex, List.forall_mem_cons]
    split
    next index found =>
      refine ⟨fun wrong => (by cases wrong), fun absent => ?_⟩
      rw [ih.mpr absent.2] at found
      cases found
    next missing =>
      have rest := ih.mp missing
      cases wanted item
      · simpa using rest
      · simp

theorem lastIndex_spec (found : lastIndex wanted items = some index) :
    (∃ item, items[index]? = some item ∧ wanted item = true) ∧
      ∀ later item, index < later → items[later]? = some item → wanted item = false := by
  induction items generalizing index with
  | nil => simp [lastIndex] at found
  | cons first rest ih =>
    simp only [lastIndex] at found
    split at found
    next here inside =>
      cases found
      obtain ⟨there, after⟩ := ih inside
      refine ⟨by simpa using there, fun later item beyond member => ?_⟩
      obtain ⟨later, rfl⟩ := Nat.exists_eq_succ_of_ne_zero (Nat.ne_of_gt (Nat.zero_lt_of_lt beyond))
      exact after later item (Nat.lt_of_succ_lt_succ beyond) (by simpa using member)
    next missing =>
      split at found
      next chosen =>
        cases found
        refine ⟨⟨first, rfl, chosen⟩, fun later item beyond member => ?_⟩
        obtain ⟨later, rfl⟩ := Nat.exists_eq_succ_of_ne_zero (Nat.ne_of_gt beyond)
        exact lastIndex_eq_none.mp missing item (List.mem_of_getElem? (by simpa using member))
      next => cases found

theorem le_lastIndex (found : lastIndex wanted items = some index) {other : Nat} {item : α}
    (member : items[other]? = some item) (chosen : wanted item = true) : other ≤ index := by
  by_contra beyond
  have refused := (lastIndex_spec found).2 other item (Nat.lt_of_not_le beyond) member
  rw [chosen] at refused
  cases refused

theorem lastIndex_isSome {item : α} (member : item ∈ items) (chosen : wanted item = true) :
    ∃ index, lastIndex wanted items = some index := by
  cases found : lastIndex wanted items with
  | some index => exact ⟨index, rfl⟩
  | none =>
    rw [lastIndex_eq_none.mp found item member] at chosen
    cases chosen

end AgentSaas.Scans
