import Mathlib.Data.List.Basic
import Mathlib.Logic.Function.Basic

/-! A table with a primary key. The keys are kept in insertion order, so that a
query can scan the rows, and every row is found by the scan. -/

namespace AgentSaas.Tables

structure Table (κ α : Type) where
  keys : List κ
  row : κ → Option α
  listed : ∀ key, (row key).isSome → key ∈ keys

namespace Table

variable {κ α : Type}

def empty : Table κ α := ⟨[], fun _ => none, fun _ found => by cases found⟩

/-- `UPDATE ... WHERE`: a row that the `WHERE` leaves out is changed into itself. -/
def modify (table : Table κ α) (change : κ → α → α) : Table κ α where
  keys := table.keys
  row key := (table.row key).map (change key)
  listed key found := table.listed key (by simpa using found)

/-- The rows that satisfy a `WHERE`, in insertion order. -/
def select (table : Table κ α) (wanted : κ → α → Bool) : List κ :=
  table.keys.filter fun key => (table.row key).any (wanted key)

/-- `EXISTS (SELECT ...)` -/
def has (table : Table κ α) (wanted : κ → α → Bool) : Bool := !(table.select wanted).isEmpty

@[simp] theorem modify_row (table : Table κ α) (change : κ → α → α) (key : κ) :
    (table.modify change).row key = (table.row key).map (change key) := rfl

theorem mem_select {table : Table κ α} {wanted : κ → α → Bool} {key : κ} :
    key ∈ table.select wanted ↔ ∃ row, table.row key = some row ∧ wanted key row = true := by
  simp only [select, List.mem_filter]
  constructor
  · rintro ⟨_, chosen⟩
    cases found : table.row key with
    | none => simp [found] at chosen
    | some row => exact ⟨row, rfl, by simpa [found] using chosen⟩
  · rintro ⟨row, found, wanted⟩
    exact ⟨table.listed key (by simp [found]), by simpa [found] using wanted⟩

theorem has_iff {table : Table κ α} {wanted : κ → α → Bool} :
    table.has wanted = true ↔ ∃ key row, table.row key = some row ∧ wanted key row = true := by
  simp only [has, Bool.not_eq_true', List.isEmpty_eq_false_iff_exists_mem, mem_select]

theorem has_eq_false {table : Table κ α} {wanted : κ → α → Bool} :
    table.has wanted = false ↔ ∀ key row, table.row key = some row → wanted key row = false := by
  rw [← Bool.not_eq_true, has_iff]
  push Not
  simp only [ne_eq, Bool.not_eq_true]

section Insert

variable [DecidableEq κ] {table : Table κ α} {key other : κ}

/-- `INSERT ... ON CONFLICT DO NOTHING` -/
def insert (table : Table κ α) (key : κ) (value : α) : Table κ α where
  keys := if (table.row key).isSome then table.keys else table.keys ++ [key]
  row := if (table.row key).isSome then table.row else Function.update table.row key (some value)
  listed other found := by
    split at found
    next present => simpa [present] using table.listed other found
    next absent =>
      by_cases same : other = key
      · simp [absent, same]
      · rw [Function.update_of_ne same] at found
        simp [absent, table.listed other found]

theorem insert_row_of_none (absent : table.row key = none) (value : α) :
    (table.insert key value).row = Function.update table.row key (some value) := by
  simp [insert, absent]

theorem insert_of_some (present : (table.row key).isSome) (value : α) :
    (table.insert key value).row = table.row := by
  simp [insert, present]

theorem insert_row_other (apart : other ≠ key) (value : α) :
    (table.insert key value).row other = table.row other := by
  by_cases present : (table.row key).isSome
  · rw [insert_of_some present]
  · rw [insert_row_of_none (by simpa using present), Function.update_of_ne apart]

theorem insert_row_kept {value row : α} (found : table.row other = some row) :
    (table.insert key value).row other = some row := by
  by_cases present : (table.row key).isSome
  · rw [insert_of_some present, found]
  · have apart : other ≠ key := by
      rintro rfl
      simp [found] at present
    rw [insert_row_other apart, found]

end Insert

end Table

end AgentSaas.Tables
