import AgentSaas.Transactions

/-! What one call has written. The part of the database that belongs to a call is changed
by that call alone, so it can be followed through the program with no regard to the others. -/

namespace AgentSaas.Proofs.TransactionFootprints
open AgentSaas.Transactions

/-- `part` is what a call has committed, and `valid` what holds of it after each commit. -/
structure Footprint (σ τ : Type) where
  part : Nat → σ → τ
  valid : Nat → τ → Prop

namespace Footprint

variable {σ κ ε α β τ : Type} (footprint : Footprint σ τ) (index : Nat)

def Tracks (post : α → Open σ κ → τ → Prop) : Program σ κ ε α → Open σ κ → τ → Prop
  | .returned value, transaction, own => post value transaction own
  | .query statement next, transaction, own => ∀ db,
    Tracks post (next (statement.result (transaction.patch db))) (transaction.after statement db) own
  | .commit next, transaction, own => ∀ db, footprint.part index db = own →
    (∀ other, other ≠ index → footprint.part other (transaction.patch db) = footprint.part other db) ∧
    footprint.valid index (footprint.part index (transaction.patch db)) ∧
    Tracks post next .closed (footprint.part index (transaction.patch db))
  | .rollback next, _, own => Tracks post next .closed own
  | .receive next, transaction, own => ∀ answer, Tracks post (next answer) transaction own

variable {footprint index}

theorem Tracks.bind {program : Program σ κ ε α} {next : α → Program σ κ ε β} {first : α → Open σ κ → τ → Prop}
    {post : β → Open σ κ → τ → Prop} {transaction : Open σ κ} {own : τ}
    (tracks : footprint.Tracks index first program transaction own)
    (resume : ∀ value transaction own, first value transaction own →
      footprint.Tracks index post (next value) transaction own) :
    footprint.Tracks index post (program >>= next) transaction own := by
  change footprint.Tracks index post (program.bind next) transaction own
  induction program generalizing transaction own with
  | returned value => exact resume value transaction own tracks
  | query statement rest ih => exact fun db => ih _ (tracks db)
  | commit rest ih =>
    intro db same
    obtain ⟨apart, valid, rest⟩ := tracks db same
    exact ⟨apart, valid, ih rest⟩
  | rollback rest ih => exact ih tracks
  | receive rest ih => exact fun answer => ih answer (tracks answer)

section Steps

variable {post : α → Open σ κ → τ → Prop} {transaction : Open σ κ} {own : τ}

theorem Tracks.query {statement : Statement σ κ β} {next : β → Program σ κ ε α}
    (resume : ∀ db, footprint.Tracks index post (next (statement.result (transaction.patch db)))
      (transaction.after statement db) own) :
    footprint.Tracks index post (Transactions.query statement >>= next) transaction own := resume

theorem Tracks.answer {next : ε → Program σ κ ε α} (resume : ∀ answer, footprint.Tracks index post (next answer) transaction own) :
    footprint.Tracks index post (receive >>= next) transaction own := resume

theorem Tracks.commit {next : Unit → Program σ κ ε α}
    (resume : ∀ db, footprint.part index db = own →
      (∀ other, other ≠ index → footprint.part other (transaction.patch db) = footprint.part other db) ∧
      footprint.valid index (footprint.part index (transaction.patch db)) ∧
      footprint.Tracks index post (next ()) .closed (footprint.part index (transaction.patch db))) :
    footprint.Tracks index post (Transactions.commit >>= next) transaction own := resume

end Steps

section Runs

variable (footprint) (post : Nat → α → τ → Prop)

/-- What a call in this state has done to its part. -/
def Fits (index : Nat) (own : τ) : Call σ κ ε α → Prop
  | .running transaction program => footprint.Tracks index (fun value _ => post index value) program transaction own
  | .finished value => post index value own
  | .crashed => True

/-- Before it starts, a call owns the part `start`. -/
structure Holds (start : τ) (world : World σ κ ε α) : Prop where
  valid : ∀ index, footprint.valid index (footprint.part index world.db)
  fresh : ∀ index, world.calls.length ≤ index → footprint.part index world.db = start
  fits : ∀ {index call}, world.calls[index]? = some call →
    footprint.Fits post index (footprint.part index world.db) call

variable {footprint post} {start : τ} {world next : World σ κ ε α} {system : System σ κ ε α}

theorem Holds.replace (holds : footprint.Holds post start world) {index : Nat} {call : Call σ κ ε α} {db : σ}
    (inside : index < world.calls.length)
    (apart : ∀ other, other ≠ index → footprint.part other db = footprint.part other world.db)
    (valid : footprint.valid index (footprint.part index db))
    (fits : footprint.Fits post index (footprint.part index db) call) :
    footprint.Holds post start ⟨db, world.calls.set index call⟩ := by
  refine ⟨fun other => ?_, fun other outside => ?_, fun {other found} member => ?_⟩
  · by_cases same : other = index
    · exact same ▸ valid
    · rw [apart other same]
      exact holds.valid other
  · rw [List.length_set] at outside
    rw [apart other (by omega)]
    exact holds.fresh other outside
  · by_cases same : other = index
    · subst same
      rw [List.getElem?_set_self inside] at member
      exact Option.some.inj member ▸ fits
    · rw [List.getElem?_set_ne (Ne.symm same)] at member
      change footprint.Fits post other (footprint.part other db) found
      rw [apart other same]
      exact holds.fits member

theorem Holds.put (holds : footprint.Holds post start world) {index : Nat} {call : Call σ κ ε α}
    (inside : index < world.calls.length) (fits : footprint.Fits post index (footprint.part index world.db) call) :
    footprint.Holds post start (world.put index call) :=
  holds.replace inside (fun _ _ => rfl) (holds.valid index) fits

theorem Holds.entering (holds : footprint.Holds post start world) {program : Program σ κ ε α}
    (tracks : footprint.Tracks world.calls.length (fun value _ => post world.calls.length value) program .closed start) :
    footprint.Holds post start { world with calls := world.calls ++ [.running .closed program] } := by
  refine ⟨holds.valid, fun index outside => ?_, fun {index call} member => ?_⟩
  · simp only [List.length_append, List.length_singleton] at outside
    exact holds.fresh index (by omega)
  · simp only [List.getElem?_append, List.getElem?_singleton] at member
    split at member
    · exact holds.fits member
    next outside =>
      split at member
      next first =>
        have last : index = world.calls.length := by omega
        subst last
        cases member
        change footprint.Tracks _ _ _ _ (footprint.part world.calls.length world.db)
        rw [holds.fresh _ (Nat.le_refl _)]
        exact tracks
      next => cases member

variable [DecidableEq κ]

theorem Holds.advance (holds : footprint.Holds post start world) {index : Nat} {answer : ε}
    (advanced : world.advance index answer = some next) : footprint.Holds post start next := by
  unfold World.advance at advanced
  split at advanced
  next transaction program member =>
    have inside : index < world.calls.length := (List.getElem?_eq_some_iff.mp member).1
    have tracks : footprint.Tracks index (fun value _ => post index value) program transaction
        (footprint.part index world.db) := holds.fits member
    cases program with
    | returned value =>
      cases advanced
      exact holds.put inside tracks
    | query statement next =>
      simp only at advanced
      split at advanced
      · cases advanced
      next =>
        cases advanced
        exact holds.put inside (tracks world.db)
    | commit rest =>
      cases advanced
      obtain ⟨apart, valid, rest⟩ := tracks world.db rfl
      exact holds.replace inside apart valid rest
    | rollback rest =>
      cases advanced
      exact holds.put inside tracks
    | receive rest =>
      cases advanced
      exact holds.put inside (tracks answer)
  next => cases advanced

theorem Holds.run (admits : ∀ {index program}, system.admits index program →
      footprint.Tracks index (fun value _ => post index value) program .closed start)
    (holds : footprint.Holds post start world) (run : Run system world next) : footprint.Holds post start next := by
  induction run with
  | refl => exact holds
  | tail _ moved ih =>
    cases moved with
    | start admitted => exact ih.entering (admits admitted)
    | advance advanced permitted => exact ih.advance advanced
    | crash inside => exact ih.put inside trivial

end Runs

end Footprint

end AgentSaas.Proofs.TransactionFootprints
