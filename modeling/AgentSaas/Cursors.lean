import AgentSaas.Sorting

/-! Items in the order of a number that no two of them share, and the part of them between
two cursors. -/

namespace AgentSaas.Cursors
open Sorting

variable {α : Type} (key : α → Nat)

def byKey : Comparator α where
  compare left right := (key left : Int) - key right
  swap left right := by omega
  trans first second third := by omega

def ordered (items : List α) : List α := (byKey key).sort items

/-- Those after the cursor, the next one first. -/
def after (cursor : Nat) (items : List α) : List α := ordered key (items.filter fun item => cursor < key item)

/-- Those after the first cursor and not after the second. -/
def between (low high : Nat) (items : List α) : List α :=
  ordered key (items.filter fun item => low < key item ∧ key item ≤ high)

variable {key} {low middle high cursor : Nat} {items : List α}

@[simp] theorem mem_after {item : α} : item ∈ after key cursor items ↔ item ∈ items ∧ cursor < key item := by
  simp [after, ordered]

@[simp] theorem mem_between {item : α} :
    item ∈ between key low high items ↔ item ∈ items ∧ low < key item ∧ key item ≤ high := by
  simp [between, ordered]

theorem ordered_ascends (distinct : (items.map key).Nodup) : (ordered key items).Pairwise fun left right => key left < key right := by
  have sorted := (byKey key).pairwise_sort items
  have apart : ((ordered key items).map key).Nodup :=
    (((items.perm_insertionSort (byKey key).le).map key).nodup_iff).mpr distinct
  have different := List.pairwise_map.mp apart
  apply (sorted.and different).imp
  intro left right ⟨order, other⟩
  simp only [Comparator.le, byKey] at order
  omega

theorem after_eq (cursor : Nat) (items : List α) :
    after key cursor items = (ordered key items).filter fun item => cursor < key item :=
  ((byKey key).filter_sort _ _).symm

theorem between_eq (low high : Nat) (items : List α) :
    between key low high items = (ordered key items).filter fun item => low < key item ∧ key item ≤ high :=
  ((byKey key).filter_sort _ _).symm

theorem after_ascends (distinct : (items.map key).Nodup) (cursor : Nat) :
    (after key cursor items).Pairwise fun left right => key left < key right := by
  rw [after_eq]
  exact (ordered_ascends distinct).filter _

theorem between_ascends (distinct : (items.map key).Nodup) (low high : Nat) :
    (between key low high items).Pairwise fun left right => key left < key right := by
  rw [between_eq]
  exact (ordered_ascends distinct).filter _

@[simp] theorem between_self : between key low low items = [] := by
  rw [between, List.filter_eq_nil_iff.mpr]
  · rfl
  · intro item _ inside
    have := of_decide_eq_true inside
    omega

theorem filter_le_append_filter_gt (ascends : items.Pairwise fun left right => key left < key right) (cut : Nat) :
    (items.filter fun item => key item ≤ cut) ++ (items.filter fun item => cut < key item) = items := by
  induction items with
  | nil => rfl
  | cons first rest ih =>
    obtain ⟨later, ascends⟩ := List.pairwise_cons.mp ascends
    by_cases early : key first ≤ cut
    · have small : ¬cut < key first := by omega
      simp only [List.filter_cons, early, small, decide_true, decide_false, if_true, Bool.false_eq_true, if_false, List.cons_append,
        ih ascends]
    · have none : (rest.filter fun item => key item ≤ cut) = [] := by
        apply List.filter_eq_nil_iff.mpr
        intro item member small
        have := later item member
        have := of_decide_eq_true small
        omega
      have all : (rest.filter fun item => cut < key item) = rest := by
        apply List.filter_eq_self.mpr
        intro item member
        have := later item member
        exact decide_eq_true (by omega)
      have large : cut < key first := by omega
      simp only [List.filter_cons, early, large, decide_true, decide_false, if_true, Bool.false_eq_true, if_false, none, all,
        List.nil_append]

theorem between_append_after (distinct : (items.map key).Nodup) (order : low ≤ high) :
    between key low high items ++ after key high items = after key low items := by
  have parts := filter_le_append_filter_gt (after_ascends distinct low) high
  rw [after_eq low, List.filter_filter, List.filter_filter] at parts
  rw [between_eq, after_eq, after_eq, ← parts]
  congr 2
  · funext item
    simp only [Bool.decide_and]
    exact Bool.and_comm _ _
  · funext item
    by_cases large : high < key item
    · have beyond : low < key item := by omega
      simp [large, beyond]
    · simp [large]

/-- What a cursor has passed is the beginning of what was after it. -/
theorem between_eq_take (distinct : (items.map key).Nodup) (order : low ≤ high) :
    between key low high items = (after key low items).take (between key low high items).length := by
  rw [← between_append_after distinct order, List.take_left']
  rfl

theorem take_after (distinct : (items.map key).Nodup) (low count : Nat) :
    ∃ high, low ≤ high ∧ (high = low ∨ ∃ item ∈ items, key item = high) ∧
      (after key low items).take count = between key low high items := by
  have ascends := after_ascends distinct low
  rcases List.eq_nil_or_concat' ((after key low items).take count) with none | ⟨init, last, page⟩
  · exact ⟨low, Nat.le_refl _, .inl rfl, by rw [none, between_self]⟩
  · have parts := List.take_append_drop count (after key low items)
    have member : last ∈ after key low items := by
      rw [← parts, page]
      simp
    obtain ⟨present, beyond⟩ := mem_after.mp member
    refine ⟨key last, by omega, .inr ⟨last, present, rfl⟩, ?_⟩
    rw [page] at parts ⊢
    rw [← parts] at ascends
    obtain ⟨first, -, apart⟩ := List.pairwise_append.mp ascends
    have below : ∀ item ∈ init ++ [last], key item ≤ key last := by
      intro item member
      rcases List.mem_append.mp member with earlier | own
      · exact Nat.le_of_lt ((List.pairwise_append.mp first).2.2 item earlier last (List.mem_singleton_self _))
      · rw [List.mem_singleton.mp own]
    have upTo : (after key low items).filter (fun item => key item ≤ key last) = init ++ [last] := by
      rw [← parts, List.filter_append, List.filter_eq_self.mpr, List.filter_eq_nil_iff.mpr, List.append_nil]
      · intro item member small
        have := apart last (by simp) item member
        have := of_decide_eq_true small
        omega
      · intro item member
        exact decide_eq_true (below item member)
    rw [← upTo, after_eq, List.filter_filter, between_eq]
    congr 1
    funext item
    simp only [Bool.decide_and]
    exact Bool.and_comm _ _

theorem between_cons (distinct : (items.map key).Nodup) {first : α} {rest : List α}
    (part : between key middle high items = first :: rest) (order : low ≤ middle) :
    between key low (key first) items = between key low middle items ++ [first] ∧
      between key (key first) high items = rest := by
  have member : first ∈ between key middle high items := part ▸ List.mem_cons_self ..
  obtain ⟨-, beyond, within⟩ := mem_between.mp member
  have ascends := between_ascends distinct middle high
  have halves := filter_le_append_filter_gt ascends (key first)
  rw [part] at ascends
  obtain ⟨later, -⟩ := List.pairwise_cons.mp ascends
  have upper : between key (key first) high items = rest := by
    have kept : (between key middle high items).filter (fun item => key first < key item) = rest := by
      rw [part, List.filter_cons_of_neg (by simp)]
      apply List.filter_eq_self.mpr
      intro item member
      exact decide_eq_true (later item member)
    rw [← kept, between_eq, between_eq, List.filter_filter]
    congr 1
    funext item
    by_cases large : key first < key item
    · have passed : middle < key item := by omega
      simp [large, passed]
    · simp [large]
  refine ⟨?_, upper⟩
  have whole := filter_le_append_filter_gt (between_ascends distinct low (key first)) middle
  rw [← whole]
  congr 1
  · rw [between_eq, between_eq, List.filter_filter]
    congr 1
    funext item
    by_cases early : key item ≤ middle
    · have small : key item ≤ key first := by omega
      simp [early, small]
    · simp [early]
  · have own : (between key middle high items).filter (fun item => key item ≤ key first) = [first] := by
      rw [part, List.filter_cons_of_pos (by simp)]
      congr 1
      apply List.filter_eq_nil_iff.mpr
      intro item member small
      have := later item member
      have := of_decide_eq_true small
      omega
    rw [← own, between_eq, between_eq, List.filter_filter, List.filter_filter]
    congr 1
    funext item
    by_cases passed : middle < key item
    · by_cases early : key item ≤ key first
      · have inside : low < key item ∧ key item ≤ high := by omega
        simp [passed, early, inside]
      · simp [early]
    · simp [passed]

theorem between_append (low : Nat) {more : List α} (beyond : ∀ item ∈ more, high < key item) :
    between key low high (items ++ more) = between key low high items := by
  have none : (more.filter fun item => low < key item ∧ key item ≤ high) = [] := by
    apply List.filter_eq_nil_iff.mpr
    intro item member inside
    have := beyond item member
    have := of_decide_eq_true inside
    omega
  rw [between, List.filter_append, none, List.append_nil, between]

end AgentSaas.Cursors
