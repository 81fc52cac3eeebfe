import Mathlib.Data.List.Nodup
import Mathlib.Tactic.Tauto

/-! Objects used as dictionaries: every key once, in the order of insertion. Setting a
key that is present keeps its place. -/

namespace AgentSaas.Dictionaries

structure Dictionary (κ α : Type) where
  entries : List (κ × α)
  nodup : (entries.map Prod.fst).Nodup

namespace Dictionary

variable {κ α β : Type}

def empty : Dictionary κ α := ⟨[], .nil⟩

def keys (table : Dictionary κ α) : List κ := table.entries.map Prod.fst

def values (table : Dictionary κ α) : List α := table.entries.map Prod.snd

/-- The entries that satisfy a test. -/
def filter (table : Dictionary κ α) (wanted : κ → α → Bool) : Dictionary κ α where
  entries := table.entries.filter fun entry => wanted entry.1 entry.2
  nodup := (List.filter_sublist.map _).nodup table.nodup

def mapValues (table : Dictionary κ α) (f : α → β) : Dictionary κ β where
  entries := table.entries.map (Prod.map id f)
  nodup := by
    rw [List.map_map]
    exact table.nodup

/-- The last entries, as many as the limit says. -/
def newest (table : Dictionary κ α) (limit : Nat) : Dictionary κ α where
  entries := table.entries.drop (table.entries.length - limit)
  nodup := ((List.drop_sublist _ _).map _).nodup table.nodup

theorem keys_mapValues (table : Dictionary κ α) (f : α → β) : (table.mapValues f).keys = table.keys := by
  rw [keys, mapValues, List.map_map]
  rfl

variable [DecidableEq κ]

def get (table : Dictionary κ α) (key : κ) : Option α := (table.entries.find? (·.1 = key)).map Prod.snd

def has (table : Dictionary κ α) (key : κ) : Bool := (table.get key).isSome

def erase (table : Dictionary κ α) (key : κ) : Dictionary κ α := table.filter fun other _ => other ≠ key

def setEntries (entries : List (κ × α)) (key : κ) (value : α) : List (κ × α) :=
  match entries with
  | [] => [(key, value)]
  | entry :: rest => if entry.1 = key then (key, value) :: rest else entry :: setEntries rest key value

theorem mem_keys_setEntries {entries : List (κ × α)} {key other : κ} {value : α} :
    other ∈ (setEntries entries key value).map Prod.fst ↔ other = key ∨ other ∈ entries.map Prod.fst := by
  induction entries with
  | nil => simp [setEntries]
  | cons entry rest ih =>
    simp only [setEntries]
    split
    next same => simp [same]
    next =>
      simp only [List.map_cons, List.mem_cons, ih]
      tauto

theorem nodup_setEntries {entries : List (κ × α)} (nodup : (entries.map Prod.fst).Nodup) (key : κ) (value : α) :
    ((setEntries entries key value).map Prod.fst).Nodup := by
  induction entries with
  | nil => simp [setEntries]
  | cons entry rest ih =>
    obtain ⟨absent, nodup⟩ := List.nodup_cons.mp nodup
    simp only [setEntries]
    split
    next same => exact List.nodup_cons.mpr ⟨same ▸ absent, nodup⟩
    next other =>
      refine List.nodup_cons.mpr ⟨fun member => ?_, ih nodup⟩
      exact (mem_keys_setEntries.mp member).elim other absent

def set (table : Dictionary κ α) (key : κ) (value : α) : Dictionary κ α :=
  ⟨setEntries table.entries key value, nodup_setEntries table.nodup key value⟩

variable {table : Dictionary κ α} {key other : κ} {value : α}

@[simp] theorem get_empty (key : κ) : (empty : Dictionary κ α).get key = none := rfl

theorem mem_entries : (key, value) ∈ table.entries ↔ table.get key = some value := by
  constructor
  · intro member
    cases found : table.entries.find? (·.1 = key) with
    | none => simpa using List.find?_eq_none.mp found (key, value) member
    | some entry =>
      have same : entry.1 = key := by simpa using List.find?_some found
      have one := List.inj_on_of_nodup_map table.nodup (List.mem_of_find?_eq_some found) member same
      simp [get, found, one]
  · intro found
    obtain ⟨entry, first, rfl⟩ := Option.map_eq_some_iff.mp found
    have same : entry.1 = key := by simpa using List.find?_some first
    exact same ▸ List.mem_of_find?_eq_some first

theorem mem_keys : key ∈ table.keys ↔ (table.get key).isSome := by
  rw [keys, List.mem_map, Option.isSome_iff_exists]
  constructor
  · rintro ⟨⟨_, value⟩, member, rfl⟩
    exact ⟨value, mem_entries.mp member⟩
  · rintro ⟨value, found⟩
    exact ⟨(key, value), mem_entries.mpr found, rfl⟩

theorem mem_values : value ∈ table.values ↔ ∃ key, table.get key = some value := by
  rw [values, List.mem_map]
  constructor
  · rintro ⟨⟨key, _⟩, member, rfl⟩
    exact ⟨key, mem_entries.mp member⟩
  · rintro ⟨key, found⟩
    exact ⟨(key, value), mem_entries.mpr found, rfl⟩

theorem get_filter (wanted : κ → α → Bool) : (table.filter wanted).get key = (table.get key).filter (wanted key) := by
  refine Option.ext fun value => ?_
  rw [← mem_entries, Option.filter_eq_some_iff, ← mem_entries]
  exact List.mem_filter

theorem get_mapValues (f : α → β) : (table.mapValues f).get key = (table.get key).map f := by
  rw [get, get, mapValues, List.find?_map, Option.map_map, Option.map_map]
  rfl

@[simp] theorem get_erase_self (key : κ) : (table.erase key).get key = none := by
  simp [erase, get_filter]

theorem get_erase_of_ne (apart : other ≠ key) : (table.erase key).get other = table.get other := by
  rw [erase, get_filter]
  cases table.get other <;> simp [apart]

theorem mem_setEntries {entries : List (κ × α)} (nodup : (entries.map Prod.fst).Nodup) {entry : κ × α} :
    entry ∈ setEntries entries key value ↔ entry = (key, value) ∨ entry ∈ entries ∧ entry.1 ≠ key := by
  induction entries with
  | nil => simp [setEntries]
  | cons first rest ih =>
    obtain ⟨absent, nodup⟩ := List.nodup_cons.mp nodup
    simp only [setEntries]
    split
    next same =>
      simp only [List.mem_cons]
      refine or_congr_right ⟨fun member => ⟨.inr member, fun wrong => absent ?_⟩, fun member => ?_⟩
      · exact List.mem_map.mpr ⟨entry, member, wrong.trans same.symm⟩
      · exact member.1.resolve_left fun wrong => member.2 (wrong ▸ same)
    next apart =>
      simp only [List.mem_cons, ih nodup]
      constructor
      · rintro (rfl | rfl | ⟨member, other⟩)
        · exact .inr ⟨.inl rfl, apart⟩
        · exact .inl rfl
        · exact .inr ⟨.inr member, other⟩
      · rintro (rfl | ⟨rfl | member, other⟩)
        · exact .inr (.inl rfl)
        · exact .inl rfl
        · exact .inr (.inr ⟨member, other⟩)

@[simp] theorem get_set_self (table : Dictionary κ α) (key : κ) (value : α) : (table.set key value).get key = some value :=
  mem_entries.mp ((mem_setEntries table.nodup).mpr (.inl rfl))

theorem get_set_of_ne (apart : other ≠ key) : (table.set key value).get other = table.get other := by
  refine Option.ext fun found => ?_
  rw [← mem_entries, ← mem_entries, set, mem_setEntries table.nodup]
  simp [apart]

theorem get_set (table : Dictionary κ α) (key other : κ) (value : α) :
    (table.set key value).get other = if other = key then some value else table.get other := by
  split
  next same => rw [same, get_set_self]
  next apart => exact get_set_of_ne apart

omit [DecidableEq κ] in
theorem keys_nodup (table : Dictionary κ α) : table.keys.Nodup := table.nodup

theorem entries_set_of_absent (missing : table.get key = none) : (table.set key value).entries = table.entries ++ [(key, value)] := by
  have each (entries : List (κ × α)) (absent : key ∉ entries.map Prod.fst) :
      setEntries entries key value = entries ++ [(key, value)] := by
    induction entries with
    | nil => rfl
    | cons entry rest ih =>
      rw [List.map_cons, List.mem_cons, not_or] at absent
      rw [setEntries, if_neg (Ne.symm absent.1), ih absent.2, List.cons_append]
  refine each table.entries fun member => ?_
  have found := mem_keys.mp member
  rw [missing] at found
  cases found

theorem entries_set_of_has {old : α} (found : table.get key = some old) :
    (table.set key value).entries = table.entries.map fun entry => if entry.1 = key then (key, value) else entry := by
  have each (entries : List (κ × α)) (member : (key, old) ∈ entries) (nodup : (entries.map Prod.fst).Nodup) :
      setEntries entries key value = entries.map fun entry => if entry.1 = key then (key, value) else entry := by
    induction entries with
    | nil => cases member
    | cons entry rest ih =>
      obtain ⟨absent, nodup⟩ := List.nodup_cons.mp nodup
      simp only [setEntries, List.map_cons]
      split
      next here =>
        -- The key stands here only, so the rest is as it was.
        have still : rest.map (fun entry => if entry.1 = key then (key, value) else entry) = rest := by
          have apart : ∀ other ∈ rest, (if other.1 = key then (key, value) else other) = other := by
            intro other listed
            apply if_neg
            intro same
            exact absent (List.mem_map.mpr ⟨other, listed, same.trans here.symm⟩)
          rw [List.map_congr_left apart, List.map_id']
        rw [still]
      next apart =>
        rw [ih ((List.mem_cons.mp member).resolve_left fun wrong => apart (wrong ▸ rfl)) nodup]
  exact each table.entries (mem_entries.mpr found) table.nodup

omit [DecidableEq κ] in
theorem values_filter {wanted : κ → α → Bool} (test : α → Bool)
    (agree : ∀ entry ∈ table.entries, wanted entry.1 entry.2 = test entry.2) :
    (table.filter wanted).values = table.values.filter test := by
  rw [values, values, List.filter_map]
  exact congrArg _ (List.filter_congr agree)

end Dictionary

end AgentSaas.Dictionaries
