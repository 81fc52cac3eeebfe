import Mathlib.Data.List.Flatten

/-! A gate in front of a stream holds back what arrives until its beginning says whether it
passes or is dropped. Where more text never takes a verdict back, the chunks do not matter. -/

namespace AgentSaas.StreamGates

variable {α : Type}

inductive Verdict | wait | pass | drop
  deriving DecidableEq

inductive Gate (α : Type)
  | waiting (held : List α)
  | passing
  | dropping

/-- The gate after a beginning of the stream that it has judged, and what it let through. -/
def settled (judge : List α → Verdict) (text : List α) : Gate α × List α :=
  match judge text with
  | .wait => (.waiting text, [])
  | .pass => (.passing, text)
  | .drop => (.dropping, [])

def push (judge : List α → Verdict) : Gate α → List α → Gate α × List α
  | .waiting held, chunk => settled judge (held ++ chunk)
  | .passing, chunk => (.passing, chunk)
  | .dropping, _ => (.dropping, [])

def pushAll (judge : List α → Verdict) (gate : Gate α) : List (List α) → Gate α × List α
  | [] => (gate, [])
  | chunk :: chunks =>
    let pushed := push judge gate chunk
    let later := pushAll judge pushed.1 chunks
    (later.1, pushed.2 ++ later.2)

structure Judge (judge : List α → Verdict) : Prop where
  start : judge [] = .wait
  stable : ∀ front back, judge front ≠ .wait → judge (front ++ back) = judge front

variable {judge : List α → Verdict}

theorem settled_nil (sound : Judge judge) : settled judge [] = (.waiting [], []) := by
  simp only [settled, sound.start]

theorem push_settled (sound : Judge judge) (front chunk : List α) :
    let before := settled judge front
    let after := push judge before.1 chunk
    (after.1, before.2 ++ after.2) = settled judge (front ++ chunk) := by
  cases verdict : judge front with
  | wait =>
    simp only [settled, verdict, push, List.nil_append]
  | pass =>
    have kept := sound.stable front chunk (by simp [verdict])
    simp only [settled, kept, verdict, push]
  | drop =>
    have kept := sound.stable front chunk (by simp [verdict])
    simp only [settled, kept, verdict, push, List.append_nil]

theorem pushAll_settled (sound : Judge judge) (front : List α) (chunks : List (List α)) :
    let before := settled judge front
    let after := pushAll judge before.1 chunks
    (after.1, before.2 ++ after.2) = settled judge (front ++ chunks.flatten) := by
  induction chunks generalizing front with
  | nil => simp [pushAll]
  | cons chunk chunks ih =>
    have pushed := push_settled sound front chunk
    have later := ih (front ++ chunk)
    simp only [Prod.ext_iff] at pushed later ⊢
    rw [← pushed.1, ← pushed.2] at later
    simp only [pushAll, List.flatten_cons, ← List.append_assoc]
    exact later

theorem pushAll_eq_settled (sound : Judge judge) (chunks : List (List α)) :
    pushAll judge (.waiting []) chunks = settled judge chunks.flatten := by
  have settles := pushAll_settled sound [] chunks
  rw [settled_nil sound] at settles
  exact settles

end AgentSaas.StreamGates
