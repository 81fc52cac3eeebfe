import Mathlib.Data.List.Rotate

/-! A ring buffer: when it is full, the next item takes the place of the oldest one. -/

namespace AgentSaas.Rings

structure RingBuffer (α : Type) where
  cells : List α
  cursor : Nat

namespace RingBuffer

variable {α : Type} (capacity : Nat)

def empty : RingBuffer α := ⟨[], 0⟩

def push (ring : RingBuffer α) (item : α) : RingBuffer α :=
  if ring.cells.length < capacity then ⟨ring.cells ++ [item], ring.cursor⟩
  else ⟨ring.cells.set ring.cursor item, (ring.cursor + 1) % capacity⟩

/-- The items, the oldest first. -/
def items [Inhabited α] (ring : RingBuffer α) : List α :=
  if ring.cells.length < capacity then ring.cells
  else (List.range capacity).map fun index => ring.cells.getD ((ring.cursor + index) % capacity) default

variable {capacity}

structure Holds (capacity : Nat) (ring : RingBuffer α) (pushed : List α) : Prop where
  length : ring.cells.length = min pushed.length capacity
  cursor : ring.cursor < capacity
  start : pushed.length ≤ capacity → ring.cursor = 0
  kept : ring.cells.rotate ring.cursor = pushed.drop (pushed.length - capacity)

theorem holds_empty (positive : 0 < capacity) : Holds capacity (empty : RingBuffer α) [] :=
  ⟨by simp [empty], positive, fun _ => rfl, by simp [empty]⟩

theorem rotate_set {cells : List α} {cursor : Nat} (inside : cursor < cells.length) (item : α) :
    (cells.set cursor item).rotate ((cursor + 1) % cells.length) = (cells.rotate cursor).tail ++ [item] := by
  have turned := List.rotate_mod (cells.set cursor item) (cursor + 1)
  rw [List.length_set] at turned
  have filled : cells.drop cursor ≠ [] := by
    intro empty
    have := congrArg List.length empty
    simp at this
    omega
  rw [turned, List.rotate_eq_drop_append_take (by rw [List.length_set]; omega),
    List.rotate_eq_drop_append_take (by omega), List.tail_append_of_ne_nil filled, List.tail_drop,
    List.drop_set_of_lt (by omega), List.append_assoc]
  congr 1
  rw [List.take_succ_eq_append_getElem (by rw [List.length_set]; omega), List.take_set_of_le (Nat.le_refl _),
    List.getElem_set_self]

theorem Holds.push {ring : RingBuffer α} {pushed : List α} (holds : Holds capacity ring pushed) (item : α) :
    Holds capacity (ring.push capacity item) (pushed ++ [item]) := by
  obtain ⟨length, cursor, start, kept⟩ := holds
  unfold RingBuffer.push
  split
  next room =>
    have few : pushed.length < capacity := by omega
    rw [start (by omega), Nat.sub_eq_zero_of_le (by omega), List.rotate_zero, List.drop_zero] at kept
    refine ⟨by simp; omega, cursor, fun _ => start (by omega), ?_⟩
    simp only [start (show pushed.length ≤ capacity by omega), List.rotate_zero, kept, List.length_append, List.length_singleton]
    rw [Nat.sub_eq_zero_of_le (by omega), List.drop_zero]
  next full =>
    have many : capacity ≤ pushed.length := by omega
    have size : ring.cells.length = capacity := by omega
    refine ⟨by simp; omega, Nat.mod_lt _ (by omega), fun few => ?_, ?_⟩
    · simp at few
      omega
    · have turned := rotate_set (show ring.cursor < ring.cells.length by omega) item
      rw [size] at turned
      simp only [turned, kept, List.tail_drop, List.length_append, List.length_singleton]
      rw [List.drop_append_of_le_length (by omega)]
      congr 2
      omega

theorem items_eq [Inhabited α] {ring : RingBuffer α} {pushed : List α} (holds : Holds capacity ring pushed) :
    ring.items capacity = pushed.drop (pushed.length - capacity) := by
  obtain ⟨length, cursor, start, kept⟩ := holds
  unfold items
  split
  next room =>
    rw [← kept, start (by omega), List.rotate_zero]
  next full =>
    have size : ring.cells.length = capacity := by omega
    rw [← kept]
    apply List.ext_getElem
    · simp [size]
    · intro index inside other
      simp only [List.getElem_map, List.getElem_range, List.getElem_rotate, size]
      have bound : (index + ring.cursor) % capacity < ring.cells.length := by
        rw [size]
        exact Nat.mod_lt _ (by omega)
      rw [Nat.add_comm ring.cursor, List.getD_eq_getElem?_getD, List.getElem?_eq_getElem bound, Option.getD_some]

end RingBuffer

end AgentSaas.Rings
