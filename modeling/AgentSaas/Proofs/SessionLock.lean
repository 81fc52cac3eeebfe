import AgentSaas.Proofs.InterleavingSafety
import AgentSaas.SessionLock

/-! When the two tables guard each other. A guard is held from before a table is looked at until
the row of the other table is committed, so a lease goes unseen only if the look was too early. -/

namespace AgentSaas.Proofs.SessionLock
open AgentSaas.SessionLock Interleaving InterleavingSafety

def Held (shared : Shared) (mode : PgSessionLockMode) (key : LeaseKey) : Prop :=
  (shared.row mode key).any (·.blocks key.tenantId shared.clock) = true

/-- A look at the other table sees a lease if there is one, and a renewal that looks at none is
committed before the lease is over. -/
def Prompt (shared : Shared) : Call → Move → Prop
  | .statement handle (.testing legacy), .next _ =>
    Held shared .dual handle.leaseKey → legacy.any (·.blocks handle.tenantId shared.clock) = true
  | .statement handle (.judging _ seen), .next _ =>
    Held shared .lease handle.leaseKey → seen.any (·.blocks handle.tenantId shared.clock) = true
  | .statement handle (.extending _), .next _ =>
    ∀ row ∈ shared.tenantLeases handle.leaseKey, handle.matchesRow row = true → row.unexpired shared.clock = true
  | _, _ => True

def Owns (shared : Shared) (handle : PgSessionLockHandle) : Prop :=
  ∃ row ∈ shared.row handle.lock.mode handle.leaseKey,
    handle.matchesRow row = true ∧ row.unexpired shared.clock = true

def renews : Write → Bool
  | .renew _ => true
  | .insert _ | .takeOver .. => false

def isHandles : Stage → Bool
  | .renewing | .extending _ | .releasing => true
  | .entering write | .looking write | .judging write _ | .writing write => renews write
  | _ => false

def acquires : Stage → Bool
  | .guarding _ | .testing _ | .upserting _ | .selecting | .conflicting _ => true
  | .entering write | .looking write | .judging write _ | .writing write => !renews write
  | _ => false

def cleared : Stage → Option PgSessionLockMode
  | .upserting _ => some .dual
  | .conflicting _ | .writing _ => some .lease
  | _ => none

def partyOf (kind : Stage → Bool) : Call → Option PgSessionLockHandle
  | .statement handle stage => if kind stage then some handle else none
  | _ => none

def guardOf (call : Call) : Option LeaseKey := (partyOf Stage.holdsGuard call).map (·.leaseKey)

structure Valid (shared : Shared) : Prop where
  single : ∀ key, Held shared .dual key → ¬Held shared .lease key
  tokens : ∀ handle ∈ shared.handles, ∀ other ∈ shared.handles, handle.ownerToken = other.ownerToken → handle = other
  issued : ∀ handle ∈ shared.handles, handle.ownerToken ∈ shared.issued
  changes : ∀ change ∈ shared.changes, change.handle ∈ shared.handles ∧ change.row.ownerToken = change.handle.ownerToken

structure Asserted (shared : Shared) (call : Call) : Prop where
  guarded : ∀ key ∈ guardOf call, shared.guards key = true
  cleared : ∀ handle stage mode, call = .statement handle stage → mode ∈ cleared stage → ¬Held shared mode handle.leaseKey
  acquires : ∀ handle ∈ partyOf acquires call, handle.ownerToken ∈ shared.issued ∧
    ∀ other ∈ shared.handles, other.ownerToken ≠ handle.ownerToken
  owner : ∀ handle ∈ partyOf isHandles call, handle ∈ shared.handles

structure Apart (call other : Call) : Prop where
  guards : ∀ key ∈ guardOf call, key ∉ guardOf other
  tokens : ∀ handle ∈ partyOf acquires call, ∀ second ∈ partyOf acquires other, handle.ownerToken ≠ second.ownerToken

structure Effect (shared : Shared) (call : Call) (after : Shared) : Prop where
  leases : ∀ key, (∀ mode, Held after mode key → Held shared mode key) ∨
    key ∈ guardOf call ∧ (Held after .dual key → ¬Held after .lease key)
  guards : ∀ key, shared.guards key = true → after.guards key = true ∨ key ∈ guardOf call
  issued : ∀ token ∈ shared.issued, token ∈ after.issued
  handles : after.handles = shared.handles ∨
    ∃ handle ∈ partyOf acquires call, after.handles = shared.handles ++ [handle]
  changes : ∀ change ∈ after.changes, change ∈ shared.changes ∨
    change.handle ∈ partyOf isHandles call ∧ change.row.ownerToken = change.handle.ownerToken

/-- All that is left of the call keeps to its assertion, and apart from the others. -/
structure Progress (shared : Shared) (call : Call) (result : Shared × Option Call) : Prop where
  effect : Effect shared call result.1
  rest : ∀ next, result.2 = some next → Asserted result.1 next ∧
    ∀ other, Asserted shared other → Apart call other → Apart next other

variable {shared after : Shared} {call other : Call} {handle : PgSessionLockHandle} {stage : Stage}

theorem Effect.valid (effect : Effect shared call after) (valid : Valid shared) (asserted : Asserted shared call) :
    Valid after := by
  have known : ∀ handle ∈ shared.handles, handle ∈ after.handles := by
    intro handle member
    obtain same | ⟨granted, _, same⟩ := effect.handles
    · exact same ▸ member
    · exact same ▸ List.mem_append_left _ member
  constructor
  · intro key dual lease
    obtain calm | ⟨_, single⟩ := effect.leases key
    · exact valid.single key (calm .dual dual) (calm .lease lease)
    · exact single dual lease
  · obtain same | ⟨granted, granting, same⟩ := effect.handles
    · rw [same]
      exact valid.tokens
    · have apart := (asserted.acquires granted granting).2
      intro handle member other second equal
      rw [same, List.mem_append, List.mem_singleton] at member second
      obtain member | rfl := member
      · obtain second | rfl := second
        · exact valid.tokens handle member other second equal
        · exact (apart handle member equal).elim
      · obtain second | rfl := second
        · exact (apart other second equal.symm).elim
        · rfl
  · intro handle member
    apply effect.issued
    obtain same | ⟨granted, granting, same⟩ := effect.handles
    · exact valid.issued handle (same ▸ member)
    · rw [same, List.mem_append, List.mem_singleton] at member
      obtain member | rfl := member
      · exact valid.issued handle member
      · exact (asserted.acquires handle granting).1
  · intro change member
    obtain old | ⟨own, same⟩ := effect.changes change member
    · exact ⟨known _ (valid.changes change old).1, (valid.changes change old).2⟩
    · exact ⟨known _ (asserted.owner _ own), same⟩

theorem guardOf_statement {mode : PgSessionLockMode} (found : mode ∈ cleared stage) : stage.holdsGuard = true := by
  cases stage <;> first | rfl | cases found

theorem Effect.stable (effect : Effect shared call after) (asserted : Asserted shared other) (apart : Apart call other) :
    Asserted after other := by
  constructor
  · intro key held
    obtain kept | own := effect.guards key (asserted.guarded key held)
    · exact kept
    · exact (apart.guards key own held).elim
  · intro handle stage mode same clear
    have held : handle.leaseKey ∈ guardOf other := by
      subst same
      simp [guardOf, partyOf, guardOf_statement clear]
    obtain calm | ⟨own, _⟩ := effect.leases handle.leaseKey
    · exact fun later => asserted.cleared handle stage mode same clear (calm mode later)
    · exact (apart.guards _ own held).elim
  · intro handle own
    obtain ⟨issued, unused⟩ := asserted.acquires handle own
    refine ⟨effect.issued _ issued, ?_⟩
    obtain same | ⟨granted, granting, same⟩ := effect.handles
    · exact same ▸ unused
    · intro other member
      rw [same, List.mem_append, List.mem_singleton] at member
      obtain member | rfl := member
      · exact unused other member
      · exact apart.tokens other granting handle own
  · intro handle own
    have member := asserted.owner handle own
    obtain same | ⟨granted, _, same⟩ := effect.handles
    · exact same ▸ member
    · exact same ▸ List.mem_append_left _ member

/-! One lemma for each way in which a statement goes on. -/

theorem effect_refl (call : Call) : Effect shared call shared :=
  ⟨fun _ => .inl fun _ => id, fun _ => .inl, fun _ => id, .inl rfl, fun _ => .inl⟩

theorem effect_legacyLocks (call : Call) (locks : Int → Option String) :
    Effect shared call { shared with legacyLocks := locks } :=
  ⟨fun _ => .inl fun _ => id, fun _ => .inl, fun _ => id, .inl rfl, fun _ => .inl⟩

theorem Effect.ends (effect : Effect shared call after) : Progress shared call (after, none) :=
  ⟨effect, fun _ same => by cases same⟩

theorem effect_setGuard {key : LeaseKey} {held : Bool} (own : held = true ∨ key ∈ guardOf call) (effect : Effect shared call after) :
    Effect shared call (after.setGuard key held) := by
  refine ⟨effect.leases, fun other before => ?_, effect.issued, effect.handles, effect.changes⟩
  by_cases same : other = key
  · subst same
    obtain rfl | own := own
    · exact .inl (Function.update_self ..)
    · exact .inr own
  · obtain kept | own := effect.guards other before
    · exact .inl ((Function.update_of_ne same ..).trans kept)
    · exact .inr own

theorem setRow_kept (shared : Shared) (mode : PgSessionLockMode) (key : LeaseKey) (row : Option LeaseRow) :
    (shared.setRow mode key row).guards = shared.guards ∧ (shared.setRow mode key row).issued = shared.issued ∧
      (shared.setRow mode key row).handles = shared.handles ∧ (shared.setRow mode key row).changes = shared.changes := by
  cases mode <;> exact ⟨rfl, rfl, rfl, rfl⟩

theorem held_setRow {mode table : PgSessionLockMode} {key : LeaseKey} {row : Option LeaseRow}
    (tenant : ∀ written ∈ row, written.tenantId = handle.tenantId)
    (held : Held (shared.setRow table handle.leaseKey row) mode key) :
    Held shared mode key ∨ mode = table ∧ key = handle.leaseKey ∧ ∃ written ∈ row, written.unexpired shared.clock = true := by
  obtain ⟨found, present, blocks⟩ := (Option.any_eq_true _ _).mp held
  obtain ⟨sameTenant, unexpired⟩ : found.tenantId = key.tenantId ∧ found.unexpired shared.clock = true := by
    cases table <;> simpa [LeaseRow.blocks, Shared.setRow] using blocks
  cases table with
  | dual =>
    cases mode with
    | lease => exact .inl held
    | dual =>
      by_cases session : key.sessionId = handle.sessionId
      · have written : row = some found := by
          simpa [Shared.row, Shared.setRow, PgSessionLockHandle.leaseKey, session] using present
        have same : key = handle.leaseKey := by
          cases key
          simp only [PgSessionLockHandle.leaseKey, LeaseKey.mk.injEq]
          exact ⟨sameTenant.symm.trans (tenant found written), session⟩
        exact .inr ⟨rfl, same, found, written, unexpired⟩
      · apply Or.inl
        simpa [Held, Shared.row, Shared.setRow, PgSessionLockHandle.leaseKey, Function.update_of_ne session] using held
  | lease =>
    cases mode with
    | dual => exact .inl held
    | lease =>
      by_cases same : key = handle.leaseKey
      · have written : row = some found := by
          simpa [Shared.row, Shared.setRow, same] using present
        exact .inr ⟨rfl, same, found, written, unexpired⟩
      · apply Or.inl
        simpa [Held, Shared.row, Shared.setRow, Function.update_of_ne same] using held

/-- A row is written after a look at the other table, or over a lease that is not over. -/
theorem leases_setRow {table : PgSessionLockMode} {row : Option LeaseRow} (asserted : Asserted shared (.statement handle stage))
    (tenant : ∀ written ∈ row, written.tenantId = handle.tenantId)
    (allowed : (∃ looked ∈ cleared stage, looked ≠ table) ∨ (row.isSome → Held shared table handle.leaseKey)) (key : LeaseKey) :
    (∀ mode, Held (shared.setRow table handle.leaseKey row) mode key → Held shared mode key) ∨
      key ∈ guardOf (.statement handle stage) ∧
        (Held (shared.setRow table handle.leaseKey row) .dual key →
          ¬Held (shared.setRow table handle.leaseKey row) .lease key) := by
  obtain ⟨looked, clear, apart⟩ | live := allowed
  · by_cases same : key = handle.leaseKey
    · have free : ¬Held (shared.setRow table handle.leaseKey row) looked key := by
        intro held
        obtain before | ⟨equal, _⟩ := held_setRow tenant held
        · exact asserted.cleared handle stage looked rfl clear (same ▸ before)
        · exact apart equal
      refine .inr ⟨?_, fun dual lease => ?_⟩
      · simp [guardOf, partyOf, guardOf_statement clear, same]
      · cases looked with
        | dual => exact free dual
        | lease => exact free lease
    · apply Or.inl
      intro mode held
      obtain before | ⟨_, equal, _⟩ := held_setRow tenant held
      · exact before
      · exact (same equal).elim
  · apply Or.inl
    intro mode held
    obtain before | ⟨rfl, rfl, written, present, _⟩ := held_setRow tenant held
    · exact before
    · exact live (Option.isSome_of_mem present)

theorem effect_acquire {table : PgSessionLockMode} {leaseExpiresAt : Int} (looked : PgSessionLockMode)
    (asserted : Asserted shared (.statement handle stage)) (acquiring : acquires stage = true)
    (clear : looked ∈ cleared stage) (apart : looked ≠ table) :
    Effect shared (.statement handle stage) (shared.acquire handle table leaseExpiresAt) := by
  have kept := setRow_kept shared table handle.leaseKey (some (handle.leaseRow leaseExpiresAt))
  constructor
  · apply leases_setRow asserted
    · intro written same
      cases same
      rfl
    · exact .inl ⟨looked, clear, apart⟩
  · intro key held
    exact .inl ((congrFun kept.1 key).trans held)
  · intro token issued
    exact kept.2.1 ▸ issued
  · exact .inr ⟨handle, by simp [partyOf, acquiring], rfl⟩
  · intro change member
    exact .inl (kept.2.2.2 ▸ member)

theorem matchesRow_iff {row : LeaseRow} :
    handle.matchesRow row = true ↔ row.tenantId = handle.tenantId ∧ row.ownerToken = handle.ownerToken := by
  simp [PgSessionLockHandle.matchesRow]

theorem effect_change {table : PgSessionLockMode} {next : LeaseRow → Option LeaseRow}
    (asserted : Asserted shared (.statement handle stage)) (own : isHandles stage = true)
    (tenant : ∀ row, ∀ written ∈ next row, written.tenantId = row.tenantId)
    (allowed : (∃ looked ∈ cleared stage, looked ≠ table) ∨
      ∀ row ∈ shared.row table handle.leaseKey, handle.matchesRow row = true → (next row).isSome → row.unexpired shared.clock = true) :
    Effect shared (.statement handle stage) (shared.change handle table next) := by
  unfold Shared.change
  split
  next row found =>
    obtain ⟨present, matching⟩ := Option.filter_eq_some_iff.mp found
    obtain ⟨sameTenant, sameToken⟩ := matchesRow_iff.mp matching
    have kept := setRow_kept shared table handle.leaseKey (next row)
    constructor
    · apply leases_setRow asserted
      · intro written same
        exact (tenant row written same).trans sameTenant
      · apply allowed.imp id
        intro live written
        have unexpired := live row present matching written
        apply (Option.any_eq_true _ _).mpr
        exact ⟨row, present, by simp [LeaseRow.blocks, sameTenant, unexpired, PgSessionLockHandle.leaseKey]⟩
    · intro key held
      exact .inl ((congrFun kept.1 key).trans held)
    · intro token issued
      exact kept.2.1 ▸ issued
    · exact .inl kept.2.2.1
    · intro change member
      obtain old | added := List.mem_append.mp member
      · exact .inl old
      · rw [List.mem_singleton.mp added]
        exact .inr ⟨by simp [partyOf, own], sameToken⟩
  next => exact effect_refl _

theorem partyOf_congr {kind : Stage → Bool} {next : Stage} (same : kind next = kind stage) :
    partyOf kind (.statement handle next) = partyOf kind (.statement handle stage) := by
  simp only [partyOf, same]

theorem goOn_progress {next : Stage} (asserted : Asserted shared (.statement handle stage))
    (guard : next.holdsGuard = stage.holdsGuard) (acquiring : acquires next = acquires stage)
    (own : isHandles next = isHandles stage) (clear : ∀ mode ∈ cleared next, ¬Held shared mode handle.leaseKey) :
    Progress shared (.statement handle stage) (shared.goOn handle next) := by
  have sameGuard : guardOf (.statement handle next) = guardOf (.statement handle stage) := by
    unfold guardOf
    rw [partyOf_congr guard]
  refine ⟨effect_refl _, fun rest same => ?_⟩
  cases same
  refine ⟨⟨?_, ?_, ?_, ?_⟩, fun other _ apart => ⟨?_, ?_⟩⟩
  · exact sameGuard ▸ asserted.guarded
  · intro party stage mode same found
    cases same
    exact clear mode found
  · exact partyOf_congr acquiring ▸ asserted.acquires
  · exact partyOf_congr own ▸ asserted.owner
  · exact sameGuard ▸ apart.guards
  · exact partyOf_congr acquiring ▸ apart.tokens

theorem guard_progress {next : Stage} (asserted : Asserted shared (.statement handle stage))
    (free : shared.guards handle.leaseKey = false) (guard : next.holdsGuard = true) (clear : cleared next = none)
    (acquiring : acquires next = acquires stage) (own : isHandles next = isHandles stage) :
    Progress shared (.statement handle stage) ((shared.setGuard handle.leaseKey true).goOn handle next) := by
  refine ⟨effect_setGuard (.inl rfl) (effect_refl _), fun rest same => ?_⟩
  cases same
  have guarded : guardOf (.statement handle next) = some handle.leaseKey := by simp [guardOf, partyOf, guard]
  refine ⟨⟨?_, ?_, ?_, ?_⟩, fun other second apart => ⟨?_, ?_⟩⟩
  · intro key held
    cases guarded.symm.trans held
    exact Function.update_self ..
  · intro party stage mode same found
    cases same
    cases clear.symm.trans found
  · exact partyOf_congr acquiring ▸ asserted.acquires
  · exact partyOf_congr own ▸ asserted.owner
  · intro key held also
    cases guarded.symm.trans held
    cases free.symm.trans (second.guarded _ also)
  · exact partyOf_congr acquiring ▸ apart.tokens

theorem failed_cases {next : Call} (goes : stage.failed handle = some next) : next = .statement handle .unlocking := by
  unfold Stage.failed at goes
  split at goes
  case h_1 | h_2 => exact (Option.some.inj goes).symm
  case h_3 | h_4 | h_5 | h_6 =>
    split at goes
    all_goals first | exact (Option.some.inj goes).symm | cases goes
  case h_7 =>
    split at goes
    all_goals first | exact (Option.some.inj goes).symm | cases goes
  all_goals cases goes

theorem Effect.failed (effect : Effect shared (.statement handle stage) after) :
    Progress shared (.statement handle stage) (after, stage.failed handle) := by
  refine ⟨effect, fun next goes => ?_⟩
  cases failed_cases goes
  refine ⟨⟨?_, ?_, ?_, ?_⟩, fun other _ _ => ⟨?_, ?_⟩⟩
  · exact fun _ held => by cases held
  · intro party stage mode same found
    cases same
    cases found
  all_goals exact fun _ party => by cases party

theorem fail_progress : Progress shared (.statement handle stage) (shared.fail handle stage) := by
  unfold Shared.fail
  split
  next held =>
    apply Effect.failed
    apply effect_setGuard
    · exact .inr (by simp [guardOf, partyOf, held])
    · exact effect_refl _
  next => exact (effect_refl _).failed

theorem releases_progress (own : stage.holdsGuard = true) (effect : Effect shared (.statement handle stage) after) :
    Progress shared (.statement handle stage) (after.setGuard handle.leaseKey false, none) := by
  apply Effect.ends
  apply effect_setGuard
  · exact .inr (by simp [guardOf, partyOf, own])
  · exact effect

theorem act_progress {lockKey : String → Int} {ownerToken : String} (asserted : Asserted shared (.statement handle stage))
    (prompt : Prompt shared (.statement handle stage) (.next ownerToken)) :
    Progress shared (.statement handle stage) (shared.act handle lockKey stage) := by
  cases stage with
  | guarding legacy =>
    by_cases busy : shared.guards handle.leaseKey = true
    · simpa only [Shared.act, if_pos busy] using fail_progress
    · simp only [Shared.act, if_neg busy]
      exact guard_progress asserted (by simpa using busy) rfl rfl rfl rfl
  | testing legacy =>
    by_cases seen : legacy.any (·.blocks handle.tenantId shared.clock) = true
    · simpa only [Shared.act, if_pos seen] using fail_progress
    · simp only [Shared.act, if_neg seen]
      refine goOn_progress asserted rfl rfl rfl ?_
      intro mode found held
      cases found
      exact seen (prompt held)
  | upserting leaseExpiresAt =>
    by_cases conflict : (shared.tenantLeases handle.leaseKey).any (·.unexpired shared.clock) = true
    · simpa only [Shared.act, if_pos conflict] using fail_progress
    · simp only [Shared.act, if_neg conflict]
      apply releases_progress rfl
      exact effect_acquire .dual asserted rfl rfl (by decide)
  | selecting => exact goOn_progress asserted rfl rfl rfl fun _ found => by cases found
  | conflicting leaseExpiresAt =>
    have clear : ∀ mode ∈ some PgSessionLockMode.lease, ¬Held shared mode handle.leaseKey :=
      fun mode => asserted.cleared handle _ mode rfl
    simp only [Shared.act]
    split
    next => exact goOn_progress asserted rfl rfl rfl clear
    next old _ =>
      split
      next => exact fail_progress
      next => exact goOn_progress asserted rfl rfl rfl fun _ found => by cases found
  | entering write =>
    by_cases busy : shared.guards handle.leaseKey = true
    · simpa only [Shared.act, if_pos busy] using fail_progress
    · simp only [Shared.act, if_neg busy]
      exact guard_progress asserted (by simpa using busy) rfl rfl rfl rfl
  | looking write => exact goOn_progress asserted rfl rfl rfl fun _ found => by cases found
  | judging write seen =>
    by_cases blocked : seen.any (·.blocks handle.tenantId shared.clock) = true
    · simpa only [Shared.act, if_pos blocked] using fail_progress
    · have clear : ∀ mode ∈ some PgSessionLockMode.lease, ¬Held shared mode handle.leaseKey := by
        intro mode found held
        cases found
        exact blocked (prompt held)
      simp only [Shared.act, if_neg blocked]
      cases write <;> exact goOn_progress asserted rfl rfl rfl clear
  | writing write =>
    have clear : ∀ mode ∈ some PgSessionLockMode.lease, ¬Held shared mode handle.leaseKey :=
      fun mode => asserted.cleared handle _ mode rfl
    cases write with
    | insert leaseExpiresAt =>
      simp only [Shared.act]
      split
      next => exact goOn_progress asserted rfl rfl rfl clear
      next =>
        apply releases_progress rfl
        exact effect_acquire .lease asserted rfl rfl (by decide)
    | takeOver old leaseExpiresAt =>
      simp only [Shared.act]
      split
      next =>
        apply releases_progress rfl
        exact effect_acquire .lease asserted rfl rfl (by decide)
      next => exact goOn_progress asserted rfl rfl rfl clear
    | renew leaseExpiresAt =>
      apply releases_progress rfl
      apply effect_change asserted rfl
      · intro row written same
        cases same
        rfl
      · exact .inl ⟨.lease, rfl, by decide⟩
  | renewing =>
    simp only [Shared.act]
    split
    next => exact fail_progress
    next =>
      split
      · split
        all_goals exact goOn_progress asserted rfl rfl rfl fun _ found => by cases found
      · exact fail_progress
  | extending leaseExpiresAt =>
    apply Effect.ends
    apply effect_change asserted rfl
    · intro row written same
      cases same
      rfl
    · exact .inr fun row found matching _ => prompt row found matching
  | releasing =>
    apply Effect.failed
    apply effect_change asserted rfl
    · intro row written same
      cases same
    · exact .inr fun _ _ _ written => by cases written
  | unlocking =>
    simp only [Shared.act]
    split
    · exact (effect_legacyLocks _ _).ends
    · exact (effect_refl _).ends

theorem unexpired_mono {row : LeaseRow} {clock later : Int} (le : clock ≤ later) (unexpired : row.unexpired later = true) :
    row.unexpired clock = true := by
  simp only [LeaseRow.unexpired, decide_eq_true_eq] at unexpired ⊢
  omega

theorem tick_progress (milliseconds : Nat) :
    Progress shared (.tick milliseconds) ({ shared with clock := shared.clock + milliseconds }, none) := by
  apply Effect.ends
  refine ⟨fun key => .inl fun mode held => ?_, fun _ => .inl, fun _ => id, .inl rfl, fun _ => .inl⟩
  obtain ⟨row, present, blocks⟩ := (Option.any_eq_true _ _).mp held
  obtain ⟨tenant, unexpired⟩ := Bool.and_eq_true_iff.mp blocks
  have before : row.unexpired shared.clock = true :=
    unexpired_mono (Int.le_add_of_nonneg_right (Int.natCast_nonneg milliseconds)) unexpired
  apply (Option.any_eq_true _ _).mpr
  exact ⟨row, by cases mode <;> exact present, Bool.and_eq_true_iff.mpr ⟨tenant, before⟩⟩

theorem enters_progress {lock : PgSessionLock} {tenantId sessionId ownerToken : String} {locks : Int → Option String} {next : Stage}
    (valid : Valid shared) (fresh : ownerToken ∉ shared.issued) (guard : next.holdsGuard = false) (clear : cleared next = none)
    (own : isHandles next = false) :
    Progress shared (.tryAcquire lock tenantId sessionId)
      ({ shared with issued := shared.issued ++ [ownerToken], legacyLocks := locks }.goOn
        ⟨lock, tenantId, sessionId, ownerToken⟩ next) := by
  refine ⟨⟨fun _ => .inl fun _ => id, fun _ => .inl, fun _ => List.mem_append_left _, .inl rfl, fun _ => .inl⟩, fun rest same => ?_⟩
  cases same
  refine ⟨⟨?_, ?_, ?_, ?_⟩, fun other second _ => ⟨?_, ?_⟩⟩
  · intro key held
    simp [guardOf, partyOf, guard] at held
  · intro party stage mode same found
    cases same
    cases clear.symm.trans found
  · intro party acquiring
    obtain ⟨_, rfl⟩ : acquires next = true ∧ _ = party := by simpa [partyOf] using acquiring
    refine ⟨List.mem_append_right _ List.mem_cons_self, fun other member same => ?_⟩
    have token : other.ownerToken = ownerToken := same
    exact fresh (token ▸ valid.issued other member)
  · intro party held
    simp [partyOf, own] at held
  · intro key held
    simp [guardOf, partyOf, guard] at held
  · intro party acquiring other also same
    obtain ⟨_, rfl⟩ : acquires next = true ∧ _ = party := by simpa [partyOf] using acquiring
    have token : ownerToken = other.ownerToken := same
    exact fresh (token ▸ (second.acquires other also).1)

theorem tryAcquire_progress {lockKey : String → Int} {lock : PgSessionLock} {tenantId sessionId ownerToken : String}
    (valid : Valid shared) (fresh : ownerToken ∉ shared.issued) :
    Progress shared (.tryAcquire lock tenantId sessionId)
      (shared.tryAcquire ⟨lock, tenantId, sessionId, ownerToken⟩ lockKey) := by
  unfold Shared.tryAcquire
  split
  next => exact (effect_refl _).ends
  next =>
    dsimp only
    split
    next => exact enters_progress valid fresh rfl rfl rfl
    next =>
      split
      next =>
        apply Effect.ends
        exact ⟨fun _ => .inl fun _ => id, fun _ => .inl, fun _ => List.mem_append_left _, .inl rfl, fun _ => .inl⟩
      next => exact enters_progress valid fresh rfl rfl rfl

def outline : Outline Shared Call where
  shared := Valid
  call := Asserted
  apart := Apart
  grows _ _ := True

def prompt (lockKey : String → Int) : System Shared Call Move := workers lockKey Prompt

theorem advance_progress {lockKey : String → Int} {move : Move} {rest : Option Call} (valid : Valid shared)
    (asserted : Asserted shared call) (permitted : (prompt lockKey).permits shared call move)
    (moved : (prompt lockKey).advance shared call move = some (after, rest)) : Progress shared call (after, rest) := by
  obtain ⟨fresh, early⟩ := permitted
  cases call with
  | tryAcquire lock tenantId sessionId =>
    cases move with
    | next ownerToken =>
      rw [← Option.some.inj moved]
      exact tryAcquire_progress valid fresh
    | fail => cases moved
  | statement handle stage =>
    cases move with
    | next ownerToken =>
      rw [← Option.some.inj moved]
      exact act_progress asserted early
    | fail =>
      cases moved
      exact fail_progress
  | tick milliseconds =>
    cases move with
    | next ownerToken =>
      cases moved
      exact tick_progress milliseconds
    | fail => cases moved
  | disconnect key =>
    cases move with
    | next ownerToken =>
      cases moved
      exact (effect_legacyLocks _ _).ends
    | fail => cases moved

theorem outline_sound (lockKey : String → Int) : outline.Sound (prompt lockKey) where
  refl _ := trivial
  trans _ _ := trivial
  symm apart := ⟨fun key held also => apart.guards key also held,
    fun handle own second also same => apart.tokens second also handle own same.symm⟩
  starts {shared call} valid started := by
    cases call with
    | statement handle stage =>
      cases stage with
      | renewing | releasing =>
        refine ⟨⟨?_, ?_, ?_, ?_⟩, fun other _ => ⟨?_, ?_⟩⟩
        · exact fun _ held => by cases held
        · intro party stage mode same found
          cases same
          cases found
        · exact fun _ party => by cases party
        · intro party own
          cases own
          exact started
        all_goals exact fun _ party => by cases party
      | _ => exact started.elim
    | tryAcquire lock tenantId sessionId | tick milliseconds | disconnect key =>
      refine ⟨⟨?_, ?_, ?_, ?_⟩, fun other _ => ⟨?_, ?_⟩⟩
      · exact fun _ held => by cases held
      · intro party stage mode same
        cases same
      all_goals exact fun _ party => by cases party
  advances valid asserted permitted moved := by
    have progress := advance_progress valid asserted permitted moved
    exact ⟨progress.effect.valid valid asserted, trivial, progress.rest⟩
  stable valid asserted permitted moved other apart :=
    (advance_progress valid asserted permitted moved).effect.stable other apart

theorem Valid.initial (clock : Int) : Valid (.initial clock) := by
  constructor
  · intro key held
    cases held
  all_goals
    intro entry member
    cases member

theorem Owns.held (owns : Owns shared handle) : Held shared handle.lock.mode handle.leaseKey := by
  obtain ⟨row, present, matching, unexpired⟩ := owns
  have tenant : row.tenantId = handle.tenantId := (matchesRow_iff.mp matching).1
  apply (Option.any_eq_true _ _).mpr
  exact ⟨row, present, by simp [LeaseRow.blocks, PgSessionLockHandle.leaseKey, tenant, unexpired]⟩

instance (shared : Shared) (mode : PgSessionLockMode) (key : LeaseKey) : Decidable (Held shared mode key) :=
  inferInstanceAs (Decidable (_ = true))

instance (shared : Shared) (call : Call) (move : Move) : Decidable (Prompt shared call move) :=
  match call, move with
  | .statement handle (.testing legacy), .next _ =>
    inferInstanceAs (Decidable (Held shared .dual handle.leaseKey →
      legacy.any (·.blocks handle.tenantId shared.clock) = true))
  | .statement handle (.judging _ seen), .next _ =>
    inferInstanceAs (Decidable (Held shared .lease handle.leaseKey →
      seen.any (·.blocks handle.tenantId shared.clock) = true))
  | .statement handle (.extending _), .next _ =>
    inferInstanceAs (Decidable (∀ row ∈ shared.tenantLeases handle.leaseKey,
      handle.matchesRow row = true → row.unexpired shared.clock = true))
  | .statement _ (.testing _), .fail | .statement _ (.judging ..), .fail | .statement _ (.extending _), .fail => isTrue trivial
  | .statement _ (.guarding _), _ | .statement _ (.upserting _), _ | .statement _ .selecting, _
  | .statement _ (.conflicting _), _ | .statement _ (.entering _), _ | .statement _ (.looking _), _
  | .statement _ (.writing _), _ | .statement _ .renewing, _ | .statement _ .releasing, _
  | .statement _ .unlocking, _ => isTrue trivial
  | .tryAcquire .., _ | .tick .., _ | .disconnect .., _ => isTrue trivial

def sameKey (_ : String) : Int := 0

def atAnyTime : System Shared Call Move := workers sameKey fun _ _ _ => True

instance (shared : Shared) (call : Call) : Decidable (atAnyTime.starts shared call) :=
  inferInstanceAs (Decidable (starts shared call))

instance (shared : Shared) (call : Call) (move : Move) : Decidable (atAnyTime.permits shared call move) :=
  inferInstanceAs (Decidable (fresh shared call move ∧ True))

instance (shared : Shared) (call : Call) : Decidable ((prompt sameKey).starts shared call) :=
  inferInstanceAs (Decidable (starts shared call))

instance (shared : Shared) (call : Call) (move : Move) : Decidable ((prompt sameKey).permits shared call move) :=
  inferInstanceAs (Decidable (fresh shared call move ∧ Prompt shared call move))

def dualWorker : PgSessionLock := .ofOptions none none

def leaseWorker : PgSessionLock := .ofOptions (some .lease) none

def acquiring (lock : PgSessionLock) : Turn Call Move := .start (.tryAcquire lock "acme" "s1")

def leaseHandle : PgSessionLockHandle := ⟨leaseWorker, "acme", "s1", "t1"⟩

/-- Some steps of a call, with a token for the first step of an acquisition. -/
def goes (index count : Nat) (ownerToken : String) : List (Turn Call Move) :=
  List.replicate count (.advance index (.next ownerToken))

def start : World Shared Call := ⟨.initial 0, []⟩

def inTurn : Option (World Shared Call) :=
  start.play (prompt sameKey) <|
    acquiring leaseWorker :: goes 0 4 "t1" ++ acquiring dualWorker :: goes 1 6 "t2" ++
      .start (.statement leaseHandle .renewing) :: goes 2 2 "" ++
      .start (.statement leaseHandle .releasing) :: goes 3 1 "" ++ acquiring dualWorker :: goes 4 7 "t3"

end AgentSaas.Proofs.SessionLock
