import Mathlib.Algebra.BigOperators.Group.List.Basic
import Mathlib.Algebra.Order.BigOperators.Group.List
import Mathlib.Algebra.Order.Floor.Ring
import Mathlib.Data.Int.ConditionallyCompleteOrder
import Mathlib.Data.Int.Cast.Lemmas

/-! A whole in whole parts. Each part is its exact share, rounded down; what is missing then goes, one
by one, to places whose shares had a fraction. -/

namespace AgentSaas.Apportionment

/-- One more at each of the places, in turn, unless one of them is not there. -/
def raise (values : List Int) (places : List Nat) : Option (List Int) :=
  places.foldlM (fun values place => values[place]?.map fun value => values.set place (value + 1)) values

theorem sum_set {values : List Int} {place : Nat} {value : Int} (found : values[place]? = some value) (more : Int) :
    (values.set place (value + more)).sum = values.sum + more := by
  induction values generalizing place with
  | nil => cases found
  | cons first rest ih =>
    cases place with
    | zero =>
      obtain rfl := Option.some.inj found
      rw [List.set_cons_zero, List.sum_cons, List.sum_cons]
      omega
    | succ place =>
      rw [List.getElem?_cons_succ] at found
      rw [List.set_cons_succ, List.sum_cons, List.sum_cons, ih found]
      omega

theorem raise_spec {values : List Int} {places : List Nat} (apart : places.Nodup) (inside : ∀ place ∈ places, place < values.length) :
    ∃ raised, raise values places = some raised ∧ raised.length = values.length ∧
      raised.sum = values.sum + places.length ∧
      ∀ index : Nat, raised[index]? = values[index]?.map fun value => value + if index ∈ places then 1 else 0 := by
  induction places generalizing values with
  | nil =>
    refine ⟨values, rfl, rfl, (Int.add_zero _).symm, fun index => ?_⟩
    cases values[index]? with
    | none => rfl
    | some value => simp
  | cons place rest ih =>
    obtain ⟨absent, apart⟩ := List.nodup_cons.mp apart
    have here := inside place List.mem_cons_self
    have found : values[place]? = some values[place] := List.getElem?_eq_getElem here
    obtain ⟨raised, same, length, sum, each⟩ := @ih (values.set place (values[place] + 1)) apart fun other member => by
      rw [List.length_set]
      exact inside other (List.mem_cons_of_mem _ member)
    refine ⟨raised, ?_, ?_, ?_, fun index => ?_⟩
    · rw [raise, List.foldlM_cons, found]
      exact same
    · rw [length, List.length_set]
    · rw [sum, sum_set found, List.length_cons]
      omega
    · rw [each, List.getElem?_set]
      by_cases own : place = index
      · subst own
        rw [if_pos rfl, if_pos here, found, if_neg absent]
        simp
      · have other : index ∈ place :: rest ↔ index ∈ rest := by
          rw [List.mem_cons]
          exact or_iff_right (Ne.symm own)
        rw [if_neg own]
        simp only [other]

section Shares

variable {α : Type} [Field α] [LinearOrder α] [IsStrictOrderedRing α] [FloorRing α] {exact : List α} {whole : Int}

def floors (exact : List α) : List Int := exact.map (⌊·⌋)

/-- What is left of the whole when every share is rounded down. -/
def missing (exact : List α) (whole : Int) : Int := whole - (floors exact).sum

/-- Whole parts of a whole, none of them a whole one away from its share. -/
structure Apportioned (exact : List α) (whole : Int) (values : List Int) : Prop where
  length : values.length = exact.length
  sum : values.sum = whole
  near : ∀ (index : Nat) (share : α) (value : Int), exact[index]? = some share → values[index]? = some value → |(value : α) - share| < 1

omit [IsStrictOrderedRing α] in
theorem sum_floors (exact : List α) : (((floors exact).sum : Int) : α) + (exact.map Int.fract).sum = exact.sum := by
  induction exact with
  | nil => simp [floors]
  | cons first rest ih =>
    have split := Int.floor_add_fract first
    simp only [floors, List.map_cons, List.sum_cons, Int.cast_add] at ih ⊢
    rw [← ih, add_add_add_comm, split]

omit [IsStrictOrderedRing α] in
theorem missing_eq (total : exact.sum = whole) : ((missing exact whole : Int) : α) = (exact.map Int.fract).sum := by
  rw [missing, Int.cast_sub, ← total, ← sum_floors exact, add_sub_cancel_left]

theorem missing_nonneg (total : exact.sum = whole) : 0 ≤ missing exact whole := by
  have nonneg : (0 : α) ≤ (exact.map Int.fract).sum := by
    apply List.sum_nonneg
    intro fraction member
    obtain ⟨share, -, rfl⟩ := List.mem_map.mp member
    exact Int.fract_nonneg share
  rw [← missing_eq total] at nonneg
  exact Int.cast_nonneg_iff.mp nonneg

theorem sum_fract_le (exact : List α) : (exact.map Int.fract).sum ≤ (exact.countP (0 < Int.fract ·) : α) := by
  induction exact with
  | nil => simp
  | cons first rest ih =>
    rw [List.map_cons, List.sum_cons, List.countP_cons, Nat.cast_add, add_comm]
    apply add_le_add ih
    split
    next => exact (Int.fract_lt_one first).le.trans_eq Nat.cast_one.symm
    next whole_ =>
      rw [decide_eq_true_eq, not_lt] at whole_
      exact whole_.trans_eq Nat.cast_zero.symm

theorem missing_le (total : exact.sum = whole) : missing exact whole ≤ exact.countP (0 < Int.fract ·) := by
  have bound := sum_fract_le exact
  rw [← missing_eq total] at bound
  exact_mod_cast bound

theorem apportioned_of_places {places : List Nat} (apart : places.Nodup)
    (enough : (places.length : Int) = missing exact whole)
    (partial_ : ∀ place ∈ places, ∃ share : α, exact[place]? = some share ∧ 0 < Int.fract share) :
    ∃ values, raise (floors exact) places = some values ∧ Apportioned exact whole values ∧
      ∀ (index : Nat) (value : Int), values[index]? = some value → ∃ share : α, exact[index]? = some share ∧ ⌊share⌋ ≤ value := by
  have length : (floors exact).length = exact.length := List.length_map _
  obtain ⟨values, raised, same, sum, each⟩ := @raise_spec (floors exact) places apart fun place member => by
    obtain ⟨share, found, -⟩ := partial_ place member
    rw [length]
    exact (List.getElem?_eq_some_iff.mp found).1
  have at_ (index : Nat) : values[index]? = exact[index]?.map fun share => ⌊share⌋ + if index ∈ places then 1 else 0 := by
    rw [each, floors, List.getElem?_map, Option.map_map]
    rfl
  refine ⟨values, raised, ⟨same.trans length, ?_, fun index share value found there => ?_⟩, fun index value there => ?_⟩
  · rw [sum, enough, missing]
    omega
  · rw [at_, found, Option.map_some] at there
    have split := Int.floor_add_fract share
    have below := Int.fract_lt_one share
    have above := Int.fract_nonneg share
    rw [← Option.some.inj there, abs_sub_lt_iff, Int.cast_add]
    split
    next member =>
      obtain ⟨other, same, positive⟩ := partial_ index member
      obtain rfl := Option.some.inj (found.symm.trans same)
      rw [Int.cast_one]
      constructor <;> linarith
    next =>
      rw [Int.cast_zero]
      constructor <;> linarith
  · rw [at_] at there
    obtain ⟨share, found, rfl⟩ := Option.map_eq_some_iff.mp there
    refine ⟨share, found, ?_⟩
    split <;> omega

end Shares

/-- With the greatest first, the first items are among those above zero, if there are as many. -/
theorem pos_of_mem_take {ι α : Type} [LinearOrder α] [Zero α] {size : ι → α} {items : List ι} {count : Nat}
    (sorted : items.Pairwise fun first second => size second ≤ size first) (enough : count ≤ items.countP (0 < size ·)) :
    ∀ item ∈ items.take count, 0 < size item := by
  induction items generalizing count with
  | nil => simp
  | cons first rest ih =>
    obtain ⟨greatest, sorted⟩ := List.pairwise_cons.mp sorted
    cases count with
    | zero => simp
    | succ count =>
      by_cases positive : 0 < size first
      · rw [List.countP_cons_of_pos (by rwa [decide_eq_true_eq])] at enough
        intro item member
        rw [List.take_succ_cons, List.mem_cons] at member
        obtain rfl | later := member
        · exact positive
        · exact ih sorted (by omega) item later
      · have none : rest.countP (0 < size ·) = 0 := by
          apply List.countP_eq_zero.mpr
          intro item member
          rw [decide_eq_true_eq]
          exact fun wrong => positive (wrong.trans_le (greatest item member))
        rw [List.countP_cons_of_neg (by rwa [decide_eq_true_eq]), none] at enough
        omega

end AgentSaas.Apportionment
