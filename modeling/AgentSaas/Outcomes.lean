import Mathlib.Data.List.Basic
import Mathlib.Data.List.Nodup

/-! What a computation that may throw went through when it returns. -/

namespace AgentSaas.Outcomes

variable {α β ε : Type}

theorem of_ok_bind {first : Except ε α} {next : α → Except ε β} {result : β}
    (returned : first >>= next = .ok result) : ∃ value, first = .ok value ∧ next value = .ok result := by
  cases first with
  | error error => cases returned
  | ok value => exact ⟨value, rfl, returned⟩

theorem of_ok_check {failed : Prop} [Decidable failed] {error : ε} {next : PUnit → Except ε β} {result : β}
    (returned : (if failed then throw error >>= next else next ⟨⟩) = .ok result) : ¬ failed ∧ next ⟨⟩ = .ok result := by
  split at returned
  next => cases returned
  next passed => exact ⟨passed, returned⟩

theorem ok_iff_check {failed : Prop} [Decidable failed] {error : ε} :
    (if failed then throw error else pure ⟨⟩ : Except ε PUnit) = .ok ⟨⟩ ↔ ¬ failed := by
  split
  next wrong =>
    constructor
    · intro returned
      cases returned
    · exact fun passed => (passed wrong).elim
  next passed => exact ⟨fun _ => passed, fun _ => rfl⟩

theorem mapM_ok_iff {f : α → Except ε β} {accepted : α → Prop} {g : α → β} {items : List α}
    (each : ∀ item ∈ items, ∀ result, f item = .ok result ↔ accepted item ∧ result = g item) (results : List β) :
    items.mapM f = .ok results ↔ (∀ item ∈ items, accepted item) ∧ results = items.map g := by
  induction items generalizing results with
  | nil =>
    rw [List.mapM_nil]
    constructor
    · intro same
      cases same
      exact ⟨nofun, rfl⟩
    · rintro ⟨_, rfl⟩
      rfl
  | cons item items ih =>
    have own := each item List.mem_cons_self
    have later := ih fun item member => each item (.tail _ member)
    rw [List.mapM_cons]
    constructor
    · intro returned
      obtain ⟨first, found, returned⟩ := of_ok_bind returned
      obtain ⟨others, rest, returned⟩ := of_ok_bind returned
      obtain ⟨accepted, rfl⟩ := (own _).mp found
      obtain ⟨all, rfl⟩ := (later _).mp rest
      cases returned
      exact ⟨List.forall_mem_cons.mpr ⟨accepted, all⟩, rfl⟩
    · rintro ⟨all, rfl⟩
      obtain ⟨accepted, all⟩ := List.forall_mem_cons.mp all
      rw [(own _).mpr ⟨accepted, rfl⟩, (later _).mpr ⟨all, rfl⟩]
      rfl

/-- Where items fail with one error if they do, there is that error or all results. -/
theorem mapM_eq {f : α → Except ε β} {failed : α → Bool} {error : ε} {g : α → β} {items : List α}
    (each : ∀ item ∈ items, f item = if failed item = true then .error error else .ok (g item)) :
    items.mapM f = if items.any failed = true then .error error else .ok (items.map g) := by
  induction items with
  | nil => rfl
  | cons item items ih =>
    rw [List.mapM_cons, each item List.mem_cons_self, ih fun item member => each item (.tail _ member), List.any_cons]
    cases failed item with
    | true => rfl
    | false =>
      cases items.any failed with
      | true => rfl
      | false => rfl

theorem forM_ok_iff {check : α → Except ε Unit} {items : List α} :
    items.forM check = .ok () ↔ ∀ item ∈ items, check item = .ok () := by
  induction items with
  | nil => exact ⟨fun _ => nofun, fun _ => rfl⟩
  | cons item items ih =>
    rw [List.forall_mem_cons, ← ih]
    change (check item >>= fun _ => items.forM check) = _ ↔ _
    constructor
    · intro returned
      obtain ⟨_, first, rest⟩ := of_ok_bind returned
      exact ⟨first, rest⟩
    · rintro ⟨first, rest⟩
      rw [first]
      exact rest

theorem collect_ok_iff {κ : Type} {key : β → κ} {one : List β → α → Except ε β} {collect : List β → List α → Except ε (List β)}
    {related : α → β → Prop} (nil : ∀ found, collect found [] = .ok found)
    (cons : ∀ found value rest, collect found (value :: rest) = one found value >>= fun item => collect (found ++ [item]) rest)
    (each : ∀ found value item, one found value = .ok item ↔ related value item ∧ key item ∉ found.map key) {found : List β}
    {values : List α} {result : List β} (nodup : (found.map key).Nodup) : collect found values = .ok result ↔
      ∃ items, result = found ++ items ∧ List.Forall₂ related values items ∧ (result.map key).Nodup := by
  induction values generalizing found with
  | nil =>
    rw [nil]
    constructor
    · intro same
      cases same
      exact ⟨[], (List.append_nil _).symm, .nil, nodup⟩
    · rintro ⟨items, rfl, none, _⟩
      cases none
      rw [List.append_nil]
  | cons value rest ih =>
    have grown {item : β} (fresh : key item ∉ found.map key) : ((found ++ [item]).map key).Nodup := by
      rw [List.map_append]
      exact List.nodup_append_comm.mp (List.nodup_cons.mpr ⟨fresh, nodup⟩)
    rw [cons]
    constructor
    · intro returned
      obtain ⟨item, first, later⟩ := of_ok_bind returned
      obtain ⟨own, fresh⟩ := (each found value item).mp first
      obtain ⟨items, rfl, others, distinct⟩ := (ih (grown fresh)).mp later
      exact ⟨item :: items, by rw [List.append_assoc]; rfl, .cons own others, distinct⟩
    · rintro ⟨items, rfl, all, distinct⟩
      cases all with
      | @cons _ item _ items own others =>
        have fresh : key item ∉ found.map key := by
          rw [List.map_append] at distinct
          exact fun member => List.disjoint_of_nodup_append distinct member List.mem_cons_self
        rw [(each found value item).mpr ⟨own, fresh⟩]
        have assoc : found ++ item :: items = found ++ [item] ++ items := by simp
        exact (ih (grown fresh)).mpr ⟨items, assoc, others, distinct⟩

theorem collect_nil_ok_iff {κ : Type} {key : β → κ} {one : List β → α → Except ε β} {collect : List β → List α → Except ε (List β)}
    {related : α → β → Prop} (nil : ∀ found, collect found [] = .ok found)
    (cons : ∀ found value rest, collect found (value :: rest) = one found value >>= fun item => collect (found ++ [item]) rest)
    (each : ∀ found value item, one found value = .ok item ↔ related value item ∧ key item ∉ found.map key) {values : List α}
    {result : List β} : collect [] values = .ok result ↔ List.Forall₂ related values result ∧ (result.map key).Nodup := by
  have none : (([] : List β).map key).Nodup := List.nodup_nil
  rw [collect_ok_iff nil cons each none]
  constructor
  · rintro ⟨items, rfl, all⟩
    exact all
  · exact fun all => ⟨result, rfl, all⟩

end AgentSaas.Outcomes
