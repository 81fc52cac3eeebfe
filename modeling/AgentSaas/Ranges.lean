import Mathlib.Data.List.Basic

/-! Ranges of indices, both ends included, and their merging where they touch. -/

namespace AgentSaas.Ranges

structure Range where
  first : Nat
  last : Nat
  deriving DecidableEq, Repr

namespace Range

def Contains (range : Range) (index : Nat) : Prop := range.first ≤ index ∧ index ≤ range.last

instance (range : Range) (index : Nat) : Decidable (range.Contains index) :=
  inferInstanceAs (Decidable (_ ∧ _))

end Range

def mergeStep (merged : List Range) (range : Range) : List Range :=
  match merged.getLast? with
  | some previous =>
    if range.first ≤ previous.last then merged.dropLast ++ [{ previous with last := max previous.last range.last }]
    else merged ++ [range]
  | none => [range]

def merge (ranges : List Range) : List Range := ranges.foldl mergeStep []

/-- Each range ends before the next one begins. -/
def Apart (ranges : List Range) : Prop := ranges.Pairwise fun left right => left.last < right.first

theorem Apart.cases {ranges : List Range} (apart : Apart ranges) {left right : Range} (leftIn : left ∈ ranges)
    (rightIn : right ∈ ranges) : left = right ∨ left.last < right.first ∨ right.last < left.first := by
  have forward : ranges.Pairwise fun left right =>
      left = right ∨ left.last < right.first ∨ right.last < left.first := apart.imp fun before => .inr (.inl before)
  exact forward.forall_of_forall_of_flip (fun _ _ => .inl rfl) (apart.imp fun before => .inr (.inr before)) leftIn rightIn

/-- What merging has made of the ranges so far: they are apart, each of the old ranges is
inside one of them, and each of them begins and ends as one of the old ranges does. -/
structure Merged (ranges merged : List Range) : Prop where
  apart : Apart merged
  covers : ∀ range ∈ ranges, ∃ whole ∈ merged, whole.first ≤ range.first ∧ range.last ≤ whole.last
  ends : ∀ whole ∈ merged, ∃ range ∈ ranges, whole.last = range.last
  starts : ∀ whole ∈ merged, ∃ range ∈ ranges, whole.first = range.first

theorem mergeStep_merged {ranges merged : List Range} {range : Range} (before : Merged ranges merged)
    (sorted : ∀ earlier ∈ ranges, earlier.first ≤ range.first) : Merged (ranges ++ [range]) (mergeStep merged range) := by
  have old (shown : Range → Nat) {whole : Range} (found : ∃ other ∈ ranges, shown whole = shown other) :
      ∃ other ∈ ranges ++ [range], shown whole = shown other := by
    obtain ⟨other, member, same⟩ := found
    exact ⟨other, List.mem_append_left _ member, same⟩
  rcases List.eq_nil_or_concat' merged with rfl | ⟨init, previous, rfl⟩
  · have none : ranges = [] := by
      cases ranges with
      | nil => rfl
      | cons first rest =>
        obtain ⟨whole, wrong, -⟩ := before.covers first (List.mem_cons_self ..)
        cases wrong
    subst none
    refine ⟨List.pairwise_singleton _ _, ?_, ?_, ?_⟩ <;> simp [mergeStep]
  · obtain ⟨initApart, -, below⟩ := List.pairwise_append.mp before.apart
    have below : ∀ whole ∈ init, whole.last < previous.first := fun whole member =>
      below whole member previous (List.mem_singleton_self _)
    obtain ⟨oldest, oldestIn, oldestFirst⟩ := before.starts previous (by simp)
    have order : previous.first ≤ range.first := oldestFirst ▸ sorted oldest oldestIn
    simp only [mergeStep, List.getLast?_append, List.getLast?_singleton, Option.some_or, List.dropLast_concat]
    split
    next touches =>
      constructor
      · apply List.pairwise_append.mpr
        refine ⟨initApart, List.pairwise_singleton _ _, ?_⟩
        intro whole member joined here
        rw [List.mem_singleton.mp here]
        exact below whole member
      · intro other member
        rcases List.mem_append.mp member with earlier | here
        · obtain ⟨whole, wholeIn, first, last⟩ := before.covers other earlier
          rcases List.mem_append.mp wholeIn with kept | joined
          · exact ⟨whole, List.mem_append_left _ kept, first, last⟩
          · rw [List.mem_singleton.mp joined] at first last
            exact ⟨_, List.mem_append_right _ (List.mem_singleton_self _), first, Nat.le_trans last (Nat.le_max_left ..)⟩
        · rw [List.mem_singleton.mp here]
          exact ⟨_, List.mem_append_right _ (List.mem_singleton_self _), order, Nat.le_max_right ..⟩
      · intro whole member
        rcases List.mem_append.mp member with kept | joined
        · exact old Range.last (before.ends whole (List.mem_append_left _ kept))
        · rw [List.mem_singleton.mp joined]
          rcases Nat.le_total previous.last range.last with longer | shorter
          · exact ⟨range, by simp, Nat.max_eq_right longer⟩
          · obtain ⟨other, member, same⟩ := before.ends previous (by simp)
            exact ⟨other, List.mem_append_left _ member, (Nat.max_eq_left shorter).trans same⟩
      · intro whole member
        rcases List.mem_append.mp member with kept | joined
        · exact old Range.first (before.starts whole (List.mem_append_left _ kept))
        · rw [List.mem_singleton.mp joined]
          exact ⟨oldest, List.mem_append_left _ oldestIn, oldestFirst⟩
    next beyond =>
      constructor
      · apply List.pairwise_append.mpr
        refine ⟨before.apart, List.pairwise_singleton _ _, ?_⟩
        intro whole member next here
        rw [List.mem_singleton.mp here]
        rcases List.mem_append.mp member with earlier | last
        · exact Nat.lt_of_lt_of_le (below whole earlier) order
        · rw [List.mem_singleton.mp last]
          omega
      · intro other member
        rcases List.mem_append.mp member with earlier | here
        · obtain ⟨whole, wholeIn, first, last⟩ := before.covers other earlier
          exact ⟨whole, List.mem_append_left _ wholeIn, first, last⟩
        · rw [List.mem_singleton.mp here]
          exact ⟨range, List.mem_append_right _ (List.mem_singleton_self _), Nat.le_refl _, Nat.le_refl _⟩
      · intro whole member
        rcases List.mem_append.mp member with kept | joined
        · exact old Range.last (before.ends whole kept)
        · exact ⟨range, by simp, congrArg _ (List.mem_singleton.mp joined)⟩
      · intro whole member
        rcases List.mem_append.mp member with kept | joined
        · exact old Range.first (before.starts whole kept)
        · exact ⟨range, by simp, congrArg _ (List.mem_singleton.mp joined)⟩

theorem merge_merged {ranges : List Range} (sorted : ranges.Pairwise fun left right => left.first ≤ right.first) :
    Merged ranges (merge ranges) := by
  have each (rest done merged : List Range) (before : Merged done merged)
      (sorted : (done ++ rest).Pairwise fun left right => left.first ≤ right.first) :
      Merged (done ++ rest) (rest.foldl mergeStep merged) := by
    induction rest generalizing done merged with
    | nil => rwa [List.append_nil]
    | cons range rest ih =>
      obtain ⟨-, -, order⟩ := List.pairwise_append.mp sorted
      have step := mergeStep_merged before fun earlier member => order earlier member range (List.mem_cons_self ..)
      rw [List.append_cons] at sorted ⊢
      exact ih _ _ step sorted
  exact each ranges [] [] ⟨.nil, by simp, by simp, by simp⟩ sorted

end AgentSaas.Ranges
