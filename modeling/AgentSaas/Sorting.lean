import Mathlib.Data.List.Sort

/-! Stable sorting by a comparator. -/

namespace AgentSaas.Sorting

section Insertion

variable {α : Type} (order : α → α → Prop) [DecidableRel order]

theorem filter_orderedInsert [IsTrans α order] (wanted : α → Bool) (item : α) {items : List α}
    (sorted : items.Pairwise order) :
    (items.orderedInsert order item).filter wanted =
      if wanted item then (items.filter wanted).orderedInsert order item else items.filter wanted := by
  induction items with
  | nil => cases chosen : wanted item <;> simp [chosen]
  | cons first rest ih =>
    obtain ⟨below, sorted⟩ := List.pairwise_cons.mp sorted
    simp only [List.orderedInsert]
    split
    next before =>
      -- The item goes before whatever is left of a sorted list.
      have front : ∀ kept : List α, kept ⊆ first :: rest → kept.orderedInsert order item = item :: kept := by
        intro kept inside
        cases kept with
        | nil => rfl
        | cons head tail =>
          have related : order item head := by
            cases List.mem_cons.mp (inside (List.mem_cons_self ..)) with
            | inl same => exact same ▸ before
            | inr later => exact IsTrans.trans _ _ _ before (below head later)
          simp [List.orderedInsert, related]
      cases chosen : wanted item
      · simp [chosen]
      · rw [List.filter_cons_of_pos chosen, if_pos rfl, front _ List.filter_sublist.subset]
    next after =>
      cases kept : wanted first
      · simp only [List.filter_cons, kept, Bool.false_eq_true, if_false]
        exact ih sorted
      · simp only [List.filter_cons, kept, if_true, ih sorted]
        cases wanted item <;> simp [List.orderedInsert, after]

theorem filter_insertionSort [IsTrans α order] [Std.Total order] (wanted : α → Bool) (items : List α) :
    (items.insertionSort order).filter wanted = (items.filter wanted).insertionSort order := by
  induction items with
  | nil => rfl
  | cons first rest ih =>
    rw [List.insertionSort_cons, filter_orderedInsert order wanted first (rest.pairwise_insertionSort order), ih]
    cases chosen : wanted first <;> simp [chosen]

end Insertion

/-- A comparator that is consistent: negative, zero or positive as the first goes before,
with or after the second. -/
structure Comparator (α : Type) where
  compare : α → α → Int
  swap : ∀ left right, 0 ≤ compare left right ↔ compare right left ≤ 0
  trans : ∀ first second third, compare first second ≤ 0 → compare second third ≤ 0 → compare first third ≤ 0

namespace Comparator

variable {α κ : Type} (order : Comparator α)

theorem self (item : α) : order.compare item item = 0 := by
  have both := order.swap item item
  omega

def le (left right : α) : Prop := order.compare left right ≤ 0

instance : DecidableRel order.le := fun left right => inferInstanceAs (Decidable (order.compare left right ≤ 0))

instance : IsTrans α order.le := ⟨order.trans⟩

instance : Std.Total order.le where
  total left right := by
    have both := order.swap left right
    unfold le
    omega

def sort (items : List α) : List α := items.insertionSort order.le

@[simp] theorem mem_sort {items : List α} {item : α} : item ∈ order.sort items ↔ item ∈ items :=
  List.mem_insertionSort ..

theorem pairwise_sort (items : List α) : (order.sort items).Pairwise order.le := List.pairwise_insertionSort ..

theorem filter_sort (wanted : α → Bool) (items : List α) :
    (order.sort items).filter wanted = order.sort (items.filter wanted) :=
  filter_insertionSort order.le wanted items

theorem map_sort {f : α → α} {items : List α}
    (same : ∀ left ∈ items, ∀ right ∈ items, order.le left right ↔ order.le (f left) (f right)) :
    (order.sort items).map f = order.sort (items.map f) :=
  List.map_insertionSort order.le order.le f items same

def ofLinearOrder (α : Type) [LinearOrder α] : Comparator α where
  compare left right := if left < right then -1 else if right < left then 1 else 0
  swap left right := by
    rcases lt_trichotomy left right with before | rfl | after
    · simp [before, before.not_gt]
    · simp
    · simp [after, after.not_gt]
  trans first second third := by
    have le (left right : α) : (if left < right then -1 else if right < left then 1 else 0 : Int) ≤ 0 ↔ left ≤ right := by
      rcases lt_trichotomy left right with before | rfl | after
      · simp [before, before.le]
      · simp
      · simp [after, after.not_gt]
    rw [le, le, le]
    exact le_trans

/-- By the difference. -/
def numbers : Comparator Int where
  compare left right := left - right
  swap _ _ := by omega
  trans _ _ _ _ _ := by omega

def onKey (names : Comparator κ) (key : α → κ) : Comparator α where
  compare left right := names.compare (key left) (key right)
  swap _ _ := names.swap ..
  trans _ _ _ := names.trans _ _ _

/-- `first || last` -/
def andThen (first last : Comparator α) : Comparator α where
  compare left right := if first.compare left right ≠ 0 then first.compare left right else last.compare left right
  swap left right := by
    have first_swap := first.swap left right
    have first_back := first.swap right left
    have last_swap := last.swap left right
    split <;> split <;> omega
  trans one two three := by
    have first_trans := first.trans one two three
    have first_back := first.trans three one two
    have first_turn := first.trans two three one
    have first_ends := first.swap one three
    have first_start := first.swap one two
    have first_rest := first.swap two three
    have last_trans := last.trans one two three
    split <;> split <;> split <;> omega

def missingLast (names : Comparator α) : Comparator (Option α) where
  compare
    | none, none => 0
    | none, some _ => 1
    | some _, none => -1
    | some left, some right => names.compare left right
  swap left right := by
    cases left <;> cases right <;> simp [names.swap]
  trans one two three := by
    cases one <;> cases two <;> cases three <;> simp
    exact names.trans _ _ _

def newestFirst (names : Comparator κ) (time : α → Int) (name : α → κ) : Comparator α where
  compare left right :=
    if time right - time left ≠ 0 then time right - time left else names.compare (name right) (name left)
  swap left right := by
    have names := names.swap (name right) (name left)
    split <;> split <;> omega
  trans first second third := by
    have names := names.trans (name third) (name second) (name first)
    split <;> split <;> split <;> omega

end Comparator

end AgentSaas.Sorting
