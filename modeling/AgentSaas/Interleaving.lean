import Mathlib.Logic.Relation
import Mathlib.Data.List.Basic

/-! Calls that share a store. One step of a call reads and changes the store at once;
between two steps any other call may act, and any call may stop for good. A move is
what the step gets from outside. -/

namespace AgentSaas.Interleaving

structure System (σ τ μ : Type) where
  starts : σ → τ → Prop
  permits : σ → τ → μ → Prop
  /-- The store after the step, and what is left of the call. -/
  advance : σ → τ → μ → Option (σ × Option τ)

/-- A call that is over leaves its place empty, so that a place is never reused. -/
structure World (σ τ : Type) where
  shared : σ
  calls : List (Option τ)

variable {σ τ μ : Type}

inductive Step (system : System σ τ μ) : World σ τ → World σ τ → Prop
  | start {world call} (started : system.starts world.shared call) :
      Step system world { world with calls := world.calls ++ [some call] }
  | advance {world index call move after rest} (found : world.calls[index]? = some (some call))
      (permitted : system.permits world.shared call move)
      (moved : system.advance world.shared call move = some (after, rest)) :
      Step system world ⟨after, world.calls.set index rest⟩
  | crash {world index} : Step system world { world with calls := world.calls.set index none }

def Run (system : System σ τ μ) : World σ τ → World σ τ → Prop := Relation.ReflTransGen (Step system)

inductive Turn (τ μ : Type) where
  | start (call : τ)
  | advance (index : Nat) (move : μ)

namespace World

variable (system : System σ τ μ) [∀ shared call, Decidable (system.starts shared call)]
  [∀ shared call move, Decidable (system.permits shared call move)]

def act (world : World σ τ) : Turn τ μ → Option (World σ τ)
  | .start call =>
    if system.starts world.shared call then some { world with calls := world.calls ++ [some call] } else none
  | .advance index move =>
    match world.calls[index]? with
    | some (some call) =>
      if system.permits world.shared call move then
        (system.advance world.shared call move).map fun next => ⟨next.1, world.calls.set index next.2⟩
      else none
    | _ => none

def play (world : World σ τ) : List (Turn τ μ) → Option (World σ τ)
  | [] => some world
  | turn :: rest => (world.act system turn).bind fun next => next.play rest

theorem step_of_act {world next : World σ τ} {turn : Turn τ μ} (acted : world.act system turn = some next) :
    Step system world next := by
  cases turn with
  | start call =>
    simp only [act] at acted
    split at acted
    next started =>
      cases acted
      exact .start started
    next => cases acted
  | advance index move =>
    simp only [act] at acted
    split at acted
    next call found =>
      split at acted
      next permitted =>
        obtain ⟨⟨after, rest⟩, moved, rfl⟩ := Option.map_eq_some_iff.mp acted
        exact .advance found permitted moved
      next => cases acted
    next => cases acted

theorem run_of_play {schedule : List (Turn τ μ)} {world next : World σ τ}
    (played : world.play system schedule = some next) : Run system world next := by
  induction schedule generalizing world with
  | nil =>
    cases played
    exact .refl
  | cons turn rest ih =>
    obtain ⟨middle, acted, played⟩ := Option.bind_eq_some_iff.mp played
    exact .head (step_of_act system acted) (ih played)

end World

end AgentSaas.Interleaving
