import Mathlib.Data.List.Infix

/-! Occurrences of one list in another. A scan from the left that goes on behind whatever it has
found stops at some of them; the others are hidden, each by a stop that it overlaps. -/

namespace AgentSaas.Needles

variable {α : Type}

def Occurs (content needle : List α) (place : Nat) : Prop := needle <+: content.drop place

/-- The scan comes to an occurrence from outside of all earlier ones it has stopped at. -/
def Stops (content needle : List α) (place : Nat) : Prop :=
  Occurs content needle place ∧ ∀ earlier, earlier < place → Stops content needle earlier → earlier + needle.length ≤ place
termination_by place

def Hidden (content needle : List α) (place : Nat) : Prop :=
  ∃ earlier, earlier < place ∧ Stops content needle earlier ∧ place < earlier + needle.length

variable {content needle : List α} {place other : Nat}

theorem stops_iff : Stops content needle place ↔ Occurs content needle place ∧ ¬ Hidden content needle place := by
  rw [Stops]
  refine and_congr_right fun _ => ⟨?_, ?_⟩
  · intro apart ⟨earlier, before, stops, inside⟩
    have behind := apart earlier before stops
    omega
  · intro shown earlier before stops
    exact Nat.le_of_not_lt fun inside => shown ⟨earlier, before, stops, inside⟩

theorem Stops.occurs (stops : Stops content needle place) : Occurs content needle place := (stops_iff.mp stops).1

theorem Stops.shown (stops : Stops content needle place) : ¬ Hidden content needle place := (stops_iff.mp stops).2

theorem Stops.apart (first : Stops content needle place) (second : Stops content needle other) (before : place < other) :
    place + needle.length ≤ other := Nat.le_of_not_lt fun inside => second.shown ⟨place, before, first, inside⟩

theorem Occurs.stops (occurs : Occurs content needle place) : Stops content needle place ∨ Hidden content needle place := by
  by_cases hidden : Hidden content needle place
  · exact .inr hidden
  · exact .inl (stops_iff.mpr ⟨occurs, hidden⟩)

theorem Occurs.bounded (occurs : Occurs content needle place) (filled : needle ≠ []) : place + needle.length ≤ content.length := by
  have fits := List.IsPrefix.length_le occurs
  have positive := List.length_pos_iff.mpr filled
  rw [List.length_drop] at fits
  omega

/-- Where there is an occurrence the scan stops. -/
theorem Occurs.found (occurs : Occurs content needle place) : ∃ stop, Stops content needle stop := by
  rcases occurs.stops with stops | ⟨earlier, _, stops, _⟩
  · exact ⟨place, stops⟩
  · exact ⟨earlier, stops⟩

theorem occurs_cons (item : α) : Occurs (item :: content) needle (place + 1) ↔ Occurs content needle place := by
  rw [Occurs, Occurs, List.drop_succ_cons]

theorem stops_cons {item : α} (absent : ¬ Occurs (item :: content) needle 0) (place : Nat) :
    Stops (item :: content) needle (place + 1) ↔ Stops content needle place := by
  induction place using Nat.strongRecOn with
  | ind place ih =>
    rw [Stops, Stops, occurs_cons]
    refine and_congr_right fun _ => ⟨?_, ?_⟩
    · intro apart earlier before stops
      have behind := apart (earlier + 1) (by omega) ((ih earlier before).mpr stops)
      omega
    · intro apart earlier before stops
      cases earlier with
      | zero => exact absurd stops.occurs absent
      | succ earlier =>
        have behind := apart earlier (by omega) ((ih earlier (by omega)).mp stops)
        omega

/-- When the scan stops once at a place of this kind, it has missed none exactly when none is
hidden. -/
theorem unique_iff {kind : Nat → Prop} {stop : Nat} (alone : ∀ place, Stops content needle place ∧ kind place ↔ place = stop) :
    (∃ place, (Occurs content needle place ∧ kind place) ∧ ∀ other, Occurs content needle other ∧ kind other → other = place) ↔
      ∀ place, Occurs content needle place ∧ kind place → ¬ Hidden content needle place := by
  obtain ⟨stops, own⟩ := (alone stop).mpr rfl
  constructor
  · intro ⟨place, _, only⟩ other found
    have same := (only other found).trans (only stop ⟨stops.occurs, own⟩).symm
    exact same ▸ stops.shown
  · intro shown
    refine ⟨stop, ⟨stops.occurs, own⟩, fun other found => (alone other).mp ⟨?_, found.2⟩⟩
    exact stops_iff.mpr ⟨found.1, shown other found⟩

end AgentSaas.Needles
