import AgentSaas.AppServer.Jwks
import AgentSaas.Proofs.InterleavingSafety

/-! When a revoked key stays out. A fetch that has let a key through brings it back when it
installs its keys, unless the key was not revoked meanwhile. -/

namespace AgentSaas.Proofs.SigningKeys
open AgentSaas.AppServer.Jwks Dictionaries Interleaving InterleavingSafety

variable {shared after : Shared}

/-- What a fetch installs was not revoked since it was let through. -/
def StillTrusted (shared : Shared) : Call → Move → Prop
  | .turn fetch, .next =>
    match shared.fetches[fetch]? with
    | some (.importing kid jwk rest keys) =>
      shared.unrevoked rest = [] → ∀ known ∈ (keys.set kid jwk).keys, known ∉ shared.state.revoked
    | _ => True
  | _, _ => True

/-- No key is used once it is revoked, and none beyond the limit after its fetch. -/
structure NeverAgain (shared : Shared) : Prop where
  kids : ∀ kid ∈ shared.state.revoked, kid ∉ shared.kids
  resolved : ∀ resolution ∈ shared.resolved, resolution.revoked = false ∧
    resolution.now - resolution.cached.fetchedAt ≤ staleIfErrorSeconds * 1000

structure Valid (shared : Shared) : Prop where
  safe : NeverAgain shared
  dated : ∀ kid cached, shared.state.keys.get kid = some cached → shared.state.lastSuccessAt = some cached.fetchedAt

structure Same (shared after : Shared) : Prop where
  keys : after.state.keys = shared.state.keys
  lastSuccessAt : after.state.lastSuccessAt = shared.state.lastSuccessAt
  revoked : after.state.revoked = shared.state.revoked
  resolved : after.resolved = shared.resolved

theorem Same.refl (shared : Shared) : Same shared shared := ⟨rfl, rfl, rfl, rfl⟩

theorem Valid.same (valid : Valid shared) (same : Same shared after) : Valid after := by
  refine ⟨⟨?_, ?_⟩, ?_⟩
  · intro kid revoked
    rw [Shared.kids, same.keys]
    exact valid.safe.kids kid (same.revoked ▸ revoked)
  · exact same.resolved ▸ valid.safe.resolved
  · intro kid cached found
    rw [same.lastSuccessAt]
    exact valid.dated kid cached (same.keys ▸ found)

theorem refresh_same (shared : Shared) : Same shared shared.refresh.1 := by
  unfold Shared.refresh
  split
  · exact .refl _
  · split
    · exact .refl _
    · exact ⟨rfl, rfl, rfl, rfl⟩

theorem negative_same (shared : Shared) (negative : Dictionary String Int) :
    Same shared (shared.setState { shared.state with negative := negative }) :=
  ⟨rfl, rfl, rfl, rfl⟩

theorem lookNegative_same (shared : Shared) (kid : String) : Same shared (shared.lookNegative kid) := by
  unfold Shared.lookNegative
  split
  · exact negative_same _ _
  · exact .refl _

theorem not_revoked (valid : Valid shared) {kid : String} {cached : CachedKey} (found : shared.state.keys.get kid = some cached) :
    kid ∉ shared.state.revoked := by
  intro revoked
  apply valid.safe.kids kid revoked
  exact Dictionary.mem_keys.mpr (by simp [found])

theorem Valid.resolve (valid : Valid shared) {kid : String} {cached : CachedKey} {seconds : Int}
    (found : shared.state.keys.get kid = some cached) (fresh : shared.fresh seconds = true)
    (within : seconds ≤ staleIfErrorSeconds) : Valid (shared.resolve kid cached) := by
  have age : shared.clock - cached.fetchedAt ≤ seconds * 1000 := by
    simpa [Shared.fresh, valid.dated kid cached found] using fresh
  refine ⟨⟨valid.safe.kids, fun resolution member => ?_⟩, valid.dated⟩
  obtain old | added := List.mem_append.mp member
  · exact valid.safe.resolved resolution old
  · rw [List.mem_singleton.mp added]
    refine ⟨decide_eq_false (not_revoked valid found), ?_⟩
    change shared.clock - cached.fetchedAt ≤ _
    omega

theorem Valid.revoke (valid : Valid shared) (kid : String) :
    Valid (shared.setState { shared.state with
      revoked := shared.state.revoked ++ [kid], keys := shared.state.keys.erase kid, negative := .empty }) := by
  have kept {other : String} {cached : CachedKey} (found : (shared.state.keys.erase kid).get other = some cached) :
      other ≠ kid ∧ shared.state.keys.get other = some cached := by
    by_cases same : other = kid
    · rw [same, Dictionary.get_erase_self] at found
      cases found
    · exact ⟨same, (Dictionary.get_erase_of_ne same).symm.trans found⟩
  refine ⟨⟨fun other revoked listed => ?_, valid.safe.resolved⟩, ?_⟩
  · obtain ⟨cached, found⟩ := Option.isSome_iff_exists.mp (Dictionary.mem_keys.mp listed)
    obtain ⟨apart, found⟩ := kept found
    obtain earlier | last := List.mem_append.mp revoked
    · exact not_revoked valid found earlier
    · exact apart (List.mem_singleton.mp last)
  · intro other cached found
    exact valid.dated other cached (kept found).2

theorem Valid.install (valid : Valid shared) {keys : Dictionary String Jwk}
    (trusted : ∀ known ∈ keys.keys, known ∉ shared.state.revoked) : Valid (shared.install keys) := by
  refine ⟨⟨fun kid revoked listed => ?_, valid.safe.resolved⟩, ?_⟩
  · change kid ∈ (keys.mapValues fun key => (⟨key, shared.clock⟩ : CachedKey)).keys at listed
    rw [Dictionary.keys_mapValues] at listed
    exact trusted kid listed revoked
  · intro kid cached found
    change (keys.mapValues fun key => (⟨key, shared.clock⟩ : CachedKey)).get kid = some cached at found
    rw [Dictionary.get_mapValues] at found
    obtain ⟨key, _, rfl⟩ := Option.map_eq_some_iff.mp found
    rfl

theorem Valid.importNext (valid : Valid shared) {index : Nat} {rest : List (String × Jwk)} {keys : Dictionary String Jwk}
    (trusted : shared.unrevoked rest = [] → ∀ known ∈ keys.keys, known ∉ shared.state.revoked) :
    Valid (shared.importNext index rest keys) := by
  unfold Shared.importNext
  split
  next last => exact (valid.install (trusted last)).same ⟨rfl, rfl, rfl, rfl⟩
  next => exact valid.same ⟨rfl, rfl, rfl, rfl⟩

theorem Valid.turn (valid : Valid shared) {fetch : Nat} {move : Move} (trusted : StillTrusted shared (.turn fetch) move)
    (turned : turn shared fetch move = some after) : Valid after := by
  unfold AppServer.Jwks.turn at turned
  split at turned
  next =>
    split at turned
    · cases turned
      exact valid.same ⟨rfl, rfl, rfl, rfl⟩
    · cases turned
      apply valid.importNext
      intro _ known listed
      cases listed
  next found =>
    cases turned
    apply valid.importNext
    simpa only [StillTrusted, found] using trusted
  next =>
    cases turned
    exact valid.same ⟨rfl, rfl, rfl, rfl⟩
  next =>
    cases turned
    exact valid.same ⟨rfl, rfl, rfl, rfl⟩
  next =>
    cases turned
    exact valid.same ⟨rfl, rfl, rfl, rfl⟩
  next => cases turned

theorem Valid.afterRefresh (valid : Valid shared) (kid : String) : Valid (afterRefresh shared kid) := by
  unfold AppServer.Jwks.afterRefresh
  split
  next cached found =>
    split
    next fresh => exact valid.resolve found fresh (Int.le_refl _)
    next => exact valid
  next =>
    split
    · exact valid.same (negative_same _ _)
    · exact valid

theorem Valid.getKey (valid : Valid shared) {kid : String} {move : Move} {rest : Option Call}
    (moved : advance shared (.getKey kid) move = some (after, rest)) : Valid after := by
  have looked : Valid (shared.lookNegative kid) := valid.same (lookNegative_same shared kid)
  simp only [advance] at moved
  split at moved
  · cases moved
    exact valid
  · split at moved
    · cases moved
      exact valid
    · split at moved
      next cached found =>
        split at moved
        next fresh =>
          cases moved
          exact looked.resolve found fresh (by decide)
        next =>
          cases moved
          exact looked.same (refresh_same _)
      next =>
        cases moved
        exact looked.same (refresh_same _)

def trusting : System Shared Call Move := client StillTrusted

theorem relies : Relies Valid (fun _ _ => True) (fun _ _ => True) trusting where
  refl _ := trivial
  trans _ _ := trivial
  mono _ _ := trivial
  starts _ _ := trivial
  advances {shared call move after rest} valid _ trusted moved := by
    refine ⟨?_, trivial, fun _ _ => trivial⟩
    cases call with
    | getKey kid => exact @Valid.getKey _ _ valid _ move _ moved
    | waiting kid fetch =>
      simp only [trusting, client, advance] at moved
      split at moved
      · cases moved
        exact valid.afterRefresh kid
      · cases moved
    | prefetch kid =>
      cases moved
      have forgotten : Valid (shared.forgetNegative kid) := by
        cases kid <;> exact valid.same ⟨rfl, rfl, rfl, rfl⟩
      exact forgotten.same (refresh_same _)
    | revoke kid =>
      cases moved
      exact valid.revoke kid
    | turn fetch =>
      obtain ⟨_, turned, same⟩ := Option.map_eq_some_iff.mp moved
      cases same
      exact valid.turn trusted turned
    | tick milliseconds =>
      cases moved
      exact valid.same ⟨rfl, rfl, rfl, rfl⟩

theorem Valid.initial (clock : Int) : Valid (.initial clock) := by
  refine ⟨⟨?_, ?_⟩, ?_⟩
  · intro kid revoked
    cases revoked
  · intro resolution member
    cases member
  · intro kid cached found
    cases found

/-- In a run whose fetches install what is still trusted, a revoked key is never used again. -/
theorem never_again (clock : Int) {world : World Shared Call} (run : Run trusting ⟨.initial clock, []⟩ world) :
    NeverAgain world.shared :=
  (relies.holds (Valid.initial clock) run).shared.safe

def atAnyTime : System Shared Call Move := client fun _ _ _ => True

instance (shared : Shared) (stage : Option Fetch) :
    Decidable (match stage with
      | some (.importing kid jwk rest keys) =>
        shared.unrevoked rest = [] → ∀ known ∈ (keys.set kid jwk).keys, known ∉ shared.state.revoked
      | _ => True) :=
  match stage with
  | some (.importing kid jwk rest keys) =>
    inferInstanceAs (Decidable (shared.unrevoked rest = [] →
      ∀ known ∈ (keys.set kid jwk).keys, known ∉ shared.state.revoked))
  | none | some .fetching | some .settled | some .cleared => isTrue trivial

instance (shared : Shared) (call : Call) (move : Move) : Decidable (StillTrusted shared call move) :=
  match call, move with
  | .turn fetch, .next =>
    inferInstanceAs (Decidable (match shared.fetches[fetch]? with
      | some (.importing kid jwk rest keys) =>
        shared.unrevoked rest = [] → ∀ known ∈ (keys.set kid jwk).keys, known ∉ shared.state.revoked
      | _ => True))
  | .turn .., .respond .. | .turn .., .fail .. => isTrue trivial
  | .getKey .., _ | .waiting .., _ | .prefetch .., _ | .revoke .., _ | .tick .., _ => isTrue trivial

instance (shared : Shared) (call : Call) : Decidable (trusting.starts shared call) :=
  inferInstanceAs (Decidable (starts shared call))

instance (shared : Shared) (call : Call) (move : Move) : Decidable (trusting.permits shared call move) :=
  inferInstanceAs (Decidable (StillTrusted shared call move))

instance (shared : Shared) (call : Call) : Decidable (atAnyTime.starts shared call) :=
  inferInstanceAs (Decidable (starts shared call))

instance (shared : Shared) (call : Call) (move : Move) : Decidable (atAnyTime.permits shared call move) := isTrue trivial

def document : Response := ⟨false, 200, none, 100, some [some ⟨some "EC", some "P-256", some "sig", some "k1", "p1"⟩]⟩

def once (index : Nat) (call : Call) (move : Move) : List (Turn Call Move) := [.start call, .advance index move]

def start : World Shared Call := ⟨.initial 0, []⟩

def revokedAfter : Option (World Shared Call) :=
  start.play trusting <|
    once 0 (.getKey "k1") .next ++ once 1 (.turn 0) (.respond document) ++ once 2 (.turn 0) .next ++
      [.advance 0 .next] ++ once 3 (.turn 0) .next ++ once 4 (.revoke "k1") .next ++ once 5 (.getKey "k1") .next

def revokedDuring : Option (World Shared Call) :=
  start.play atAnyTime <|
    once 0 (.getKey "k1") .next ++ once 1 (.turn 0) (.respond document) ++ once 2 (.revoke "k1") .next ++
      once 3 (.turn 0) .next ++ [.advance 0 .next]

theorem never_again_after : ∃ world : World Shared Call, Run trusting start world ∧
    world.shared.resolved.length = 1 ∧ world.shared.state.revoked = ["k1"] ∧ NeverAgain world.shared := by
  obtain ⟨world, played⟩ : ∃ world, revokedAfter = some world := Option.isSome_iff_exists.mp (by decide +kernel)
  have run : Run trusting start world := World.run_of_play _ played
  refine ⟨world, run, ?_, ?_, never_again 0 run⟩
  all_goals
    cases played
    rfl

theorem used_again : ¬ ∀ (clock : Int) (world : World Shared Call),
    Run atAnyTime ⟨.initial clock, []⟩ world → NeverAgain world.shared := by
  intro never
  obtain ⟨world, played⟩ : ∃ world, revokedDuring = some world := Option.isSome_iff_exists.mp (by decide +kernel)
  have run : Run atAnyTime start world := World.run_of_play _ played
  have safe := never 0 world run
  cases played
  exact absurd (safe.resolved _ List.mem_cons_self).1 (by decide +kernel)

end AgentSaas.Proofs.SigningKeys
