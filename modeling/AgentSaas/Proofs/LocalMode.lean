import AgentSaas.AppServer.BreakGlass
import AgentSaas.Proofs.InterleavingSafety

/-! When closing the local mode is final. A renewal and the removal of an expired session act on
what was read before, and a token lives for a second at least. -/

namespace AgentSaas.Proofs.LocalMode
open AgentSaas.AppServer.BreakGlass Interleaving InterleavingSafety

variable {crypto : Crypto} {shared after : Shared}

/-- A renewal is saved while no `disable` has come in between, what is removed as expired has
expired, and a token is signed while its session has a second left. -/
def InTime (shared : Shared) (call : Call) (_ : Move) : Prop :=
  match call with
  | .renewing .. => shared.mode.closed = false
  | .expired _ => shared.mode.session.all fun session => session.expiresAt ≤ shared.clock
  | .auditing _ _ sessionExpiresAt _ => shared.clock + 1000 ≤ sessionExpiresAt
  | _ => True

/-- The mode stays closed until it is enabled, no session ends early but by `disable`, and no token
outlives the sessions stored during its call. -/
structure Final (mode : Mode) : Prop where
  closed : mode.closed → mode.session = none
  removed : ∀ removal ∈ mode.removed, removal.disabled ∨ removal.session.expiresAt ≤ removal.clock
  tokens : ∀ token ∈ mode.tokens, ∃ session ∈ mode.stored.drop token.since,
    token.exp * 1000 ≤ session.expiresAt ∧ token.expiresAt ≤ session.expiresAt

structure Valid (shared : Shared) : Prop where
  final : Final shared.mode
  current : ∀ session, shared.mode.session = some session → shared.mode.stored.getLast? = some session

/-- A call keeps a session that was stored while it ran, or may still store one. -/
def Asserted (shared : Shared) : Call → Prop
  | .checking _ read since => ∀ session, read = some session → session ∈ shared.mode.stored.drop since
  | .readingRecord _ _ _ _ since | .verifying _ _ _ _ since _ | .savingUse _ _ _ since _ | .savingSession _ _ since =>
    since ≤ shared.mode.stored.length
  | .readingCode _ _ _ session since | .savingCodeUse _ _ session since _ => session ∈ shared.mode.stored.drop since
  | .auditing _ _ sessionExpiresAt since => ∃ session ∈ shared.mode.stored.drop since, session.expiresAt = sessionExpiresAt
  | _ => True

def Grows (shared after : Shared) : Prop := shared.mode.stored <+: after.mode.stored

theorem Grows.mem (grows : Grows shared after) {session : BreakGlassSession} {since : Nat}
    (member : session ∈ shared.mode.stored.drop since) : session ∈ after.mode.stored.drop since := by
  obtain ⟨more, same⟩ := grows
  rw [← same, List.drop_append]
  exact List.mem_append_left _ member

theorem Asserted.mono {call : Call} (held : Asserted shared call) (grows : Grows shared after) : Asserted after call := by
  cases call with
  | checking => exact fun session same => grows.mem (held session same)
  | readingRecord | verifying | savingUse | savingSession => exact Nat.le_trans held grows.length_le
  | readingCode | savingCodeUse => exact grows.mem held
  | auditing =>
    obtain ⟨session, member, same⟩ := held
    exact ⟨session, grows.mem member, same⟩
  | current | expired | hashing | savingSetup | enable | savingFailure | renewing | disable | disabling | issuing
    | savingCodeFailure | tick => trivial

structure Effect (shared after : Shared) (rest : Option Call) : Prop where
  valid : Valid after
  grows : Grows shared after
  asserted : ∀ next, rest = some next → Asserted after next

theorem Effect.still {rest : Option Call} (valid : Valid shared) (mode : after.mode = shared.mode)
    (asserted : ∀ next, rest = some next → Asserted shared next) : Effect shared after rest := by
  have grows : Grows shared after := ⟨[], by rw [List.append_nil, mode]⟩
  exact ⟨⟨mode ▸ valid.final, mode ▸ valid.current⟩, grows, fun next same => (asserted next same).mono grows⟩

theorem Effect.ended {rest : Option Call} (valid : Valid shared) (mode : after.mode = shared.mode) (none : rest = none) :
    Effect shared after rest := by
  refine .still valid mode fun next same => ?_
  rw [none] at same
  cases same

theorem since_le (shared : Shared) : shared.since ≤ shared.mode.stored.length := by
  unfold Shared.since
  split <;> omega

theorem Valid.seen (valid : Valid shared) {session : BreakGlassSession} (found : shared.mode.session = some session) :
    session ∈ shared.mode.stored.drop shared.since := by
  obtain ⟨before, same⟩ := List.getLast?_eq_some_iff.mp (valid.current session found)
  rw [Shared.since, found, same]
  simp

theorem tokens_mono {mode : Mode} (final : Final mode) (more : List BreakGlassSession) (token : LocalToken) (member : token ∈ mode.tokens) :
    ∃ session ∈ (mode.stored ++ more).drop token.since,
      token.exp * 1000 ≤ session.expiresAt ∧ token.expiresAt ≤ session.expiresAt := by
  obtain ⟨session, stored, within⟩ := final.tokens token member
  rw [List.drop_append]
  exact ⟨session, List.mem_append_left _ stored, within⟩

theorem storeSession_valid (valid : Valid shared) (session : BreakGlassSession) {enabled : Bool}
    (opens : shared.mode.closed = false ∨ enabled = true) : Valid (shared.storeSession session enabled) := by
  refine ⟨⟨?_, valid.final.removed, tokens_mono valid.final [session]⟩, ?_⟩
  · intro closed
    change (shared.mode.closed && !enabled) = true at closed
    obtain still | rfl := opens
    · simp [still] at closed
    · simp at closed
  · intro found same
    cases same
    exact List.getLast?_concat

theorem storeSession_grows (session : BreakGlassSession) (enabled : Bool) : Grows shared (shared.storeSession session enabled) :=
  ⟨[session], rfl⟩

theorem removeSession_valid (valid : Valid shared) {disabled : Bool}
    (due : disabled = true ∨ shared.mode.session.all fun session => session.expiresAt ≤ shared.clock) :
    Valid (shared.removeSession disabled) := by
  refine ⟨⟨fun _ => rfl, ?_, valid.final.tokens⟩, fun _ wrong => by cases wrong⟩
  intro removal member
  obtain old | new := List.mem_append.mp member
  · exact valid.final.removed removal old
  · obtain ⟨session, found, rfl⟩ := Option.map_eq_some_iff.mp (Option.mem_toList.mp new)
    obtain byDisable | late := due
    · exact .inl byDisable
    · rw [found] at late
      exact .inr (of_decide_eq_true late)

theorem signToken_valid (valid : Valid shared) {sub : String} {act : LocalAct} {sessionExpiresAt : Int} {since : Nat}
    (left : shared.clock + 1000 ≤ sessionExpiresAt)
    (seen : ∃ session ∈ shared.mode.stored.drop since, session.expiresAt = sessionExpiresAt) :
    Valid (shared.signToken sub act sessionExpiresAt since) := by
  refine ⟨⟨valid.final.closed, valid.final.removed, ?_⟩, valid.current⟩
  intro token member
  obtain old | new := List.mem_append.mp member
  · exact valid.final.tokens token old
  · rw [List.mem_singleton.mp new]
    obtain ⟨session, stored, rfl⟩ := seen
    refine ⟨session, stored, ?_, ?_⟩
    · simp only
      omega
    · simp only
      omega

theorem afterSession_asserted {goal : Goal} {session : Option BreakGlassSession} {since : Nat} {next : Call}
    (seen : ∀ found, session = some found → found ∈ shared.mode.stored.drop since)
    (same : afterSession shared goal session since = some next) : Asserted shared next := by
  unfold afterSession at same
  split at same
  next => cases same
  next => cases same
  next =>
    split at same
    · cases same
    · cases same
      trivial
  next => cases same
  next => cases same
  next => cases same
  next =>
    cases same
    trivial
  next =>
    cases same
    trivial
  next =>
    cases same
    exact seen _ rfl

theorem checkSession_asserted {goal : Goal} {read : Option BreakGlassSession} {since : Nat} {next : Call}
    (seen : ∀ found, read = some found → found ∈ shared.mode.stored.drop since)
    (same : checkSession shared goal read since = some next) : Asserted shared next := by
  unfold checkSession at same
  split at same
  next session =>
    split at same
    · cases same
      trivial
    · exact afterSession_asserted seen same
  next => exact afterSession_asserted seen same

theorem enable_effect {sub password code : String} {ip : Option String} {state : AppServer.Events.InstallationState}
    {rest : Option Call} (valid : Valid shared) (moved : enable shared sub password code ip state = (after, rest)) :
    Effect shared after rest := by
  have limited : (ip.elim (shared, true) shared.check).1.mode = shared.mode := by
    cases ip with
    | none => rfl
    | some ip =>
      change (shared.check ip).1.mode = shared.mode
      unfold Shared.check
      simp only
      split <;> rfl
  unfold enable at moved
  split at moved
  next =>
    cases moved
    exact .ended valid rfl rfl
  next =>
    simp only at moved
    split at moved
    next =>
      cases moved
      refine .still valid limited fun next same => ?_
      cases same
      have since := since_le (ip.elim (shared, true) shared.check).1
      rw [limited] at since
      exact since
    next =>
      cases moved
      exact .ended valid limited rfl

theorem readRecord_asserted {sub password code : String} {nowMs : Int} {since : Nat} {next : Call}
    (asserted : since ≤ shared.mode.stored.length) (read : readRecord shared sub password code nowMs since = some next) :
    Asserted shared next := by
  unfold readRecord at read
  split at read
  next => cases read
  next =>
    split at read
    · cases read
    · cases read
      exact asserted

theorem verify_effect {sub password code : String} {nowMs : Int} {since : Nat} {read : RecoveryRecord} {rest : Option Call}
    (valid : Valid shared) (asserted : since ≤ shared.mode.stored.length)
    (verified : verify crypto shared sub password code nowMs since read = (after, rest)) : Effect shared after rest := by
  unfold verify at verified
  split at verified
  all_goals
    cases verified
    refine .still valid rfl fun next same => ?_
    cases same
  · exact asserted
  · trivial

theorem readCode_effect {loginId code : String} {nowMs : Int} {session : BreakGlassSession} {since : Nat} {rest : Option Call}
    (valid : Valid shared) (asserted : session ∈ shared.mode.stored.drop since)
    (moved : readCode crypto shared loginId code nowMs session since = (after, rest)) : Effect shared after rest := by
  unfold readCode at moved
  split at moved
  next =>
    cases moved
    exact .ended valid rfl rfl
  next =>
    split at moved
    next =>
      cases moved
      exact .ended valid rfl rfl
    next =>
      split at moved
      all_goals
        cases moved
        refine .still valid rfl fun next same => ?_
        cases same
      · exact asserted
      · trivial

theorem advance_effect {call : Call} {move : Move} {rest : Option Call} (valid : Valid shared) (asserted : Asserted shared call)
    (inTime : InTime shared call move) (moved : advance crypto shared call move = some (after, rest)) :
    Effect shared after rest := by
  unfold advance at moved
  split at moved
  next goal =>
    cases moved
    refine .still valid rfl fun next same => ?_
    cases same
    exact fun session found => valid.seen found
  next =>
    cases moved
    exact .still valid rfl fun next same => checkSession_asserted asserted same
  next goal =>
    cases moved
    refine ⟨removeSession_valid valid (.inr inTime), ⟨[], List.append_nil _⟩, fun next same => ?_⟩
    have kept : Asserted shared next := afterSession_asserted (fun _ wrong => by cases wrong) same
    exact kept.mono ⟨[], List.append_nil _⟩
  next =>
    split at moved
    · cases moved
      refine .still valid rfl fun next same => ?_
      cases same
      trivial
    · cases moved
  next =>
    cases moved
    exact .ended valid rfl rfl
  next => exact enable_effect valid (Option.some.inj moved)
  next =>
    cases moved
    exact .still valid rfl fun next same => readRecord_asserted asserted same
  next => exact verify_effect valid asserted (Option.some.inj moved)
  next =>
    cases moved
    exact .ended valid rfl rfl
  next =>
    cases moved
    refine .still valid rfl fun next same => ?_
    cases same
    exact asserted
  next sub nowMs since =>
    cases moved
    refine ⟨storeSession_valid valid _ (.inr rfl), storeSession_grows _ _, fun next same => ?_⟩
    cases same
    refine ⟨⟨sub, nowMs, nowMs + breakGlassSessionSeconds * 1000⟩, ?_, rfl⟩
    change _ ∈ (shared.mode.stored ++ [_]).drop since
    rw [List.drop_append_of_le_length asserted]
    exact List.mem_append_right _ List.mem_cons_self
  next =>
    cases moved
    exact ⟨signToken_valid valid inTime asserted, ⟨[], List.append_nil _⟩, fun _ wrong => by cases wrong⟩
  next =>
    cases moved
    exact ⟨storeSession_valid valid _ (.inl inTime), storeSession_grows _ _, fun _ wrong => by cases wrong⟩
  next =>
    cases moved
    refine .still valid rfl fun next same => ?_
    cases same
    trivial
  next =>
    cases moved
    exact ⟨removeSession_valid valid (.inl rfl), ⟨[], List.append_nil _⟩, fun _ wrong => by cases wrong⟩
  next =>
    cases moved
    exact .ended valid rfl rfl
  next => exact readCode_effect valid asserted (Option.some.inj moved)
  next =>
    cases moved
    exact .ended valid rfl rfl
  next =>
    cases moved
    refine .still valid rfl fun next same => ?_
    cases same
    exact ⟨_, asserted, rfl⟩
  next =>
    cases moved
    exact .ended valid rfl rfl
  next => cases moved

def timely (crypto : Crypto) : System Shared Call Move := service crypto InTime

theorem relies (crypto : Crypto) : Relies Valid Asserted Grows (timely crypto) where
  refl _ := List.prefix_refl _
  trans := List.IsPrefix.trans
  mono := Asserted.mono
  starts {shared call} _ started := by
    cases call <;> trivial
  advances valid asserted permitted moved := by
    have effect := advance_effect valid asserted permitted moved
    exact ⟨effect.valid, effect.grows, effect.asserted⟩

theorem Valid.initial (clock : Int) : Valid (.initial clock) := by
  refine ⟨⟨fun _ => rfl, ?_, ?_⟩, ?_⟩
  · intro removal member
    cases member
  · intro token member
    cases member
  · intro session found
    cases found

/-- In a run whose writes come in time, the mode stays closed until it is enabled again. -/
theorem final_until_enabled (crypto : Crypto) (clock : Int) {world : World Shared Call}
    (run : Run (timely crypto) ⟨.initial clock, []⟩ world) : Final world.shared.mode :=
  ((relies crypto).holds (Valid.initial clock) run).shared.final

def anyhow (crypto : Crypto) : System Shared Call Move := service crypto fun _ _ _ => True

/-- Hashes that are the texts themselves. -/
def plain : Crypto := ⟨id, fun password _ => password, fun hash password => hash = password⟩

instance (shared : Shared) (call : Call) (move : Move) : Decidable (InTime shared call move) := by
  unfold InTime
  split <;> infer_instance

instance (shared : Shared) (call : Call) : Decidable ((timely plain).starts shared call) :=
  inferInstanceAs (Decidable (starts shared call))

instance (shared : Shared) (call : Call) (move : Move) : Decidable ((timely plain).permits shared call move) :=
  inferInstanceAs (Decidable (InTime shared call move))

instance (shared : Shared) (call : Call) : Decidable ((anyhow plain).starts shared call) :=
  inferInstanceAs (Decidable (starts shared call))

instance (shared : Shared) (call : Call) (move : Move) : Decidable ((anyhow plain).permits shared call move) := isTrue trivial

def start : World Shared Call := ⟨.initial 0, []⟩

/-- A record is set up and the mode enabled with its first code. -/
def enabled : List (Turn Call Move) :=
  [.start (.current (.setup "admin" "recover-me-2026!")), .advance 0 .next, .advance 0 .next,
    .advance 0 (.draw ["a", "b", "c", "d", "e", "f", "g", "h"] "salt"), .advance 0 .next,
    .start (.enable "admin" "recover-me-2026!" "a" none), .advance 1 (.state .enabled), .advance 1 .next,
    .advance 1 .next, .advance 1 .next, .advance 1 .next, .advance 1 .next]

def renewed : List (Turn Call Move) := [.start (.current .renew), .advance 2 .next, .advance 2 .next]

def disabled : List (Turn Call Move) := [.start .disable, .advance 3 .next, .advance 3 .next]

def renewedBefore : Option (World Shared Call) :=
  start.play (timely plain) (enabled ++ renewed ++ [.advance 2 .next] ++ disabled)

def renewedAfter : Option (World Shared Call) :=
  start.play (anyhow plain) (enabled ++ renewed ++ disabled ++ [.advance 2 .next])

theorem final_after_renewal : ∃ world : World Shared Call, Run (timely plain) start world ∧
    world.shared.mode.closed ∧ world.shared.mode.tokens.length = 1 ∧ Final world.shared.mode := by
  obtain ⟨world, played⟩ : ∃ world, renewedBefore = some world := Option.isSome_iff_exists.mp (by decide +kernel)
  have run : Run (timely plain) start world := World.run_of_play _ played
  refine ⟨world, run, ?_, ?_, final_until_enabled plain 0 run⟩
  all_goals
    cases played
    rfl

theorem revived : ¬ ∀ (crypto : Crypto) (clock : Int) (world : World Shared Call),
    Run (anyhow crypto) ⟨.initial clock, []⟩ world → Final world.shared.mode := by
  intro final
  obtain ⟨world, played⟩ : ∃ world, renewedAfter = some world := Option.isSome_iff_exists.mp (by decide +kernel)
  have run : Run (anyhow plain) start world := World.run_of_play _ played
  have closed := (final plain 0 world run).closed
  cases played
  exact absurd (closed rfl) (by decide +kernel)

end AgentSaas.Proofs.LocalMode
