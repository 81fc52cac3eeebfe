import AgentSaas.AppServer.Sat
import AgentSaas.Proofs.InterleavingSafety
import Mathlib.Data.List.Nodup

/-! When a token is accepted once. The row that takes its id outlasts the window of the token, so
a second call can take the id only if it comes when the window is over. -/

namespace AgentSaas.Proofs.TokenReplay
open AgentSaas.AppServer.Sat Interleaving InterleavingSafety

variable {surroundings : Surroundings} {shared after : Shared} {call : Call}

/-- An id that is free is taken within the time window of its token. -/
def InTime (shared : Shared) : Call → Move → Prop
  | .consuming _ claims, .next => (shared.rows claims.jti).isSome ∨ shared.clock < claims.expiresAt
  | _, _ => True

def AcceptedOnce (shared : Shared) : Prop := ∀ token, shared.accepted.count token ≤ 1

structure Valid (surroundings : Surroundings) (shared : Shared) : Prop where
  once : shared.accepted.Nodup
  taken : ∀ token ∈ shared.accepted, ∃ claims, surroundings.payload token = some claims ∧
    (shared.clock < claims.expiresAt → shared.rows claims.jti = some claims.expiresAt)

def Asserted (surroundings : Surroundings) (shared : Shared) : Call → Prop
  | .consuming token claims => surroundings.payload token = some claims
  | .deleting now => now ≤ shared.clock
  | _ => True

theorem Valid.consume (valid : Valid surroundings shared) {token : String} {claims : SatClaims}
    (paid : surroundings.payload token = some claims) (prompt : InTime shared (.consuming token claims) .next) :
    Valid surroundings (shared.consume token claims) := by
  unfold Shared.consume
  split
  next => exact valid
  next free =>
    have inTime : shared.clock < claims.expiresAt := prompt.resolve_left free
    have absent : shared.rows claims.jti = none := Option.not_isSome_iff_eq_none.mp free
    have new : token ∉ shared.accepted := by
      intro member
      obtain ⟨found, same, taken⟩ := valid.taken token member
      rw [paid] at same
      cases same
      cases absent.symm.trans (taken inTime)
    constructor
    · exact List.nodup_append.mpr ⟨valid.once, List.nodup_singleton token, fun other member second same equal =>
        new (List.mem_singleton.mp same ▸ equal ▸ member)⟩
    · intro other member
      obtain member | same := List.mem_append.mp member
      · obtain ⟨found, same, taken⟩ := valid.taken other member
        refine ⟨found, same, fun later => ?_⟩
        by_cases equal : found.jti = claims.jti
        · cases absent.symm.trans (equal ▸ taken later)
        · exact (Function.update_of_ne equal ..).trans (taken later)
      · rw [List.mem_singleton.mp same]
        exact ⟨claims, paid, fun _ => Function.update_self ..⟩

theorem Valid.purge (valid : Valid surroundings shared) {now : Int} (past : now ≤ shared.clock) :
    Valid surroundings (shared.purge now) := by
  refine ⟨valid.once, fun token member => ?_⟩
  obtain ⟨claims, paid, taken⟩ := valid.taken token member
  refine ⟨claims, paid, fun later => ?_⟩
  have open' : now < claims.expiresAt := Int.lt_of_le_of_lt past later
  simp only [Shared.purge, taken later, Option.filter_some, open', decide_true, if_pos]

theorem Valid.tick (valid : Valid surroundings shared) (milliseconds : Nat) :
    Valid surroundings { shared with clock := shared.clock + milliseconds } := by
  refine ⟨valid.once, fun token member => ?_⟩
  obtain ⟨claims, paid, taken⟩ := valid.taken token member
  refine ⟨claims, paid, fun later => taken ?_⟩
  exact Int.lt_of_le_of_lt (Int.le_add_of_nonneg_right (Int.natCast_nonneg milliseconds)) later

theorem relies : Relies (Valid surroundings) (Asserted surroundings) (fun shared after => shared.clock ≤ after.clock)
    (processes surroundings InTime) where
  refl shared := Int.le_refl _
  trans first second := Int.le_trans first second
  mono {_ _ call} asserted grown := by
    cases call with
    | deleting now => exact Int.le_trans asserted grown
    | _ => exact asserted
  starts {_ call} _ started := by
    cases call with
    | consuming | verifying | deleting => exact started.elim
    | _ => trivial
  advances {shared call move after rest} valid asserted inTime moved := by
    have ended : Valid surroundings shared ∧ shared.clock ≤ shared.clock ∧
        ∀ next, none = some next → Asserted surroundings shared next := ⟨valid, Int.le_refl _, fun _ left => by cases left⟩
    cases move with
    | fail =>
      cases call <;> cases moved <;> exact ended
    | next =>
      cases call with
      | verifySat token request =>
        simp only [processes, advance] at moved
        split at moved
        · cases moved
          exact ended
        · cases moved
          refine ⟨valid, Int.le_refl _, fun next same => ?_⟩
          cases same
          trivial
      | verifying token request nowMs =>
        simp only [processes, advance] at moved
        split at moved
        next =>
          cases moved
          exact ended
        next claims paid =>
          split at moved
          · cases moved
            exact ended
          · cases moved
            refine ⟨valid, Int.le_refl _, fun next same => ?_⟩
            split at same
            · cases same
            · cases same
              exact paid
      | consuming token claims =>
        cases moved
        refine ⟨valid.consume asserted inTime, ?_, fun _ left => by cases left⟩
        unfold Shared.consume
        split <;> exact Int.le_refl _
      | purgeExpired =>
        cases moved
        refine ⟨valid, Int.le_refl _, fun next same => ?_⟩
        cases same
        exact Int.le_refl _
      | deleting now =>
        cases moved
        exact ⟨valid.purge asserted, Int.le_refl _, fun _ left => by cases left⟩
      | tick milliseconds =>
        cases moved
        exact ⟨valid.tick milliseconds, Int.le_add_of_nonneg_right (Int.natCast_nonneg milliseconds),
          fun _ left => by cases left⟩

/-- In a run whose ids are taken in time, every token is accepted once. -/
theorem accepted_once (surroundings : Surroundings) (clock : Int) (rows : String → Option Int) {world : World Shared Call}
    (run : Run (processes surroundings InTime) ⟨⟨clock, rows, []⟩, []⟩ world) : AcceptedOnce world.shared := by
  have empty : Valid surroundings ⟨clock, rows, []⟩ := ⟨List.nodup_nil, fun token member => (by cases member)⟩
  exact List.nodup_iff_count_le_one.mp (relies.holds empty run).shared.once

def agentClaims : SatClaims where
  act := .agent
  iss := "platform"
  aud := "crm"
  tid := "acme"
  iid := "i1"
  cap := some "orders"
  lcid := some "l1"
  dig := some "d1"
  rid := some "r1"
  iat := 0
  nbf := 0
  exp := 60
  jti := "j1"

/-- Every token is the agent's, and every path that of its capability. -/
def sample : Surroundings where
  config := ⟨"platform", "crm", "acme", "i1"⟩
  manifestDigest := "d1"
  decodeProtectedHeader _ := some ⟨some "ES256", some jwtTyp, some "k1"⟩
  payload _ := some agentClaims
  normalizePathname := some
  isEndpointAllowed _ _ _ := true
  capabilityPath _ := some ("orders", none)

def inTime : System Shared Call Move := processes sample InTime

def atAnyTime : System Shared Call Move := processes sample fun _ _ _ => True

instance (shared : Shared) (call : Call) : Decidable (inTime.starts shared call) :=
  inferInstanceAs (Decidable (starts shared call))

instance (shared : Shared) (call : Call) (move : Move) : Decidable (inTime.permits shared call move) :=
  match call, move with
  | .consuming _ claims, .next .. =>
    inferInstanceAs (Decidable ((shared.rows claims.jti).isSome ∨ shared.clock < claims.expiresAt))
  | .consuming .., .fail .. => isTrue trivial
  | .verifySat .., _ | .verifying .., _ | .purgeExpired .., _ | .deleting .., _ | .tick .., _ => isTrue trivial

instance (shared : Shared) (call : Call) : Decidable (atAnyTime.starts shared call) :=
  inferInstanceAs (Decidable (starts shared call))

instance (shared : Shared) (call : Call) (move : Move) : Decidable (atAnyTime.permits shared call move) := isTrue trivial

def verifying (index steps : Nat) : List (Turn Call Move) :=
  .start (.verifySat "t1" ⟨"POST", "/ky/v1/capabilities/orders", some "r1"⟩) :: List.replicate steps (.advance index .next)

def purging (first : Nat) : List (Turn Call Move) :=
  [.start (.tick 70000), .advance first .next, .start .purgeExpired, .advance (first + 1) .next, .advance (first + 1) .next]

def start : World Shared Call := ⟨⟨0, fun _ => none, []⟩, []⟩

def twiceInTime : Option (World Shared Call) := start.play inTime (verifying 0 3 ++ verifying 1 3 ++ purging 2)

def secondLate : Option (World Shared Call) :=
  start.play atAnyTime (verifying 0 3 ++ verifying 1 2 ++ purging 2 ++ [.advance 1 .next])

theorem accepted_once_twice : ∃ world : World Shared Call, Run inTime start world ∧
    world.shared.accepted = ["t1"] ∧ AcceptedOnce world.shared := by
  obtain ⟨world, played⟩ : ∃ world, twiceInTime = some world := Option.isSome_iff_exists.mp (by decide +kernel)
  have run : Run inTime start world := World.run_of_play _ played
  refine ⟨world, run, ?_, accepted_once sample 0 (fun _ => none) run⟩
  cases played
  rfl

theorem accepted_twice : ¬ ∀ (surroundings : Surroundings) (clock : Int) (rows : String → Option Int)
    (world : World Shared Call), Run (processes surroundings fun _ _ _ => True) ⟨⟨clock, rows, []⟩, []⟩ world →
    AcceptedOnce world.shared := by
  intro once
  obtain ⟨world, played⟩ : ∃ world, secondLate = some world := Option.isSome_iff_exists.mp (by decide +kernel)
  have run : Run atAnyTime start world := World.run_of_play _ played
  have bound := once sample 0 (fun _ => none) world run "t1"
  cases played
  exact absurd bound (by decide +kernel)

end AgentSaas.Proofs.TokenReplay
