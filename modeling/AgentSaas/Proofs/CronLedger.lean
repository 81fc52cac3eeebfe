import AgentSaas.Proofs.CronTransactions
import AgentSaas.Proofs.InterleavingSafety

/-! Every occurrence has one record, one open run at most, one terminal status and one
log entry, whatever the calls of all processes do between their steps. -/

namespace AgentSaas.Proofs.CronLedger
open AgentSaas.Cron AgentSaas.Interleaving
open AgentSaas.Proofs.CronRecords AgentSaas.Proofs.CronTransactions AgentSaas.Proofs.InterleavingSafety

variable {deps : Deps} {cron after : Cron} {call : Call} {move : Move} {rest : Option Call}

structure Shared (cron : Cron) : Prop where
  consistent : Consistent cron.issued cron.jobs
  nodup : (cron.log.map (·.runId)).Nodup
  logged : ∀ entry ∈ cron.log, entry.runId ∈ cron.issued ∧ Closed cron.jobs entry.runId

/-- A claim that is not marked yet may give its record up; an entry that is not appended
yet is the only one of its run. -/
def Asserted (cron : Cron) : Call → Prop
  | .claimed claim => claim.leaseId ∈ cron.issued ∧ Unmarked cron.jobs claim.leaseId
  | .logging entry => entry.runId ∈ cron.issued ∧ Closed cron.jobs entry.runId ∧ ∀ other ∈ cron.log, other.runId ≠ entry.runId
  | .editing (.applySystemJobs plan) _ => ∀ job ∈ plan.toCreate, job.state = .empty
  | _ => True

def Distinct : Call → Call → Prop
  | .claimed claim, .claimed other => claim.leaseId ≠ other.leaseId
  | .logging entry, .logging other => entry.runId ≠ other.runId
  | _, _ => True

structure Evolves (issued : List String) (before after : CronExecutionRecord) : Prop where
  runId : after.runId = before.runId
  lease : after.leaseId = before.leaseId ∨ after.leaseId ∉ issued
  settled : ∀ status, before.terminalStatus = some status → after.terminalStatus = some status

structure Grows (before after : Cron) : Prop where
  issued : before.issued ⊆ after.issued
  records : ∀ record, Stored after.jobs record → record.runId ∈ before.issued →
    ∃ old, Stored before.jobs old ∧ Evolves before.issued old record

theorem Grows.refl (cron : Cron) : Grows cron cron :=
  ⟨fun _ member => member, fun record stored _ => ⟨record, stored, rfl, .inl rfl, fun _ settled => settled⟩⟩

theorem Grows.trans {before middle after : Cron} (first : Grows before middle) (last : Grows middle after) :
    Grows before after := by
  refine ⟨fun _ member => last.issued (first.issued member), fun record stored issued => ?_⟩
  obtain ⟨between, stored, late⟩ := last.records record stored (first.issued issued)
  obtain ⟨old, stored, early⟩ := first.records between stored (late.runId ▸ issued)
  refine ⟨old, stored, late.runId.trans early.runId, ?_, fun status settled => ?_⟩
  · cases late.lease with
    | inl same => exact same ▸ early.lease
    | inr new => exact .inr fun member => new (first.issued member)
  · exact late.settled status (early.settled status settled)

structure Effect (cron : Cron) (call : Call) (after : Cron) (rest : Option Call) : Prop where
  store : ∃ fresh marked, after.issued = fresh ++ cron.issued ∧ Advances cron.issued fresh marked cron.jobs after.jobs ∧
    (∀ leaseId, marked = some leaseId → ∃ claim, call = .claimed claim ∧ claim.leaseId = leaseId) ∧
    ∀ claim, rest = some (.claimed claim) → claim.leaseId ∉ cron.issued ∧ claim.leaseId ∈ fresh
  log : after.log = cron.log
  entry : ∀ entry, rest = some (.logging entry) → Settles cron.jobs after.jobs entry.runId
  plain : ∀ edit readMs, rest ≠ some (.editing edit readMs)

theorem Effect.of_advances (advances : Advances cron.issued [] none cron.jobs after.jobs)
    (issued : after.issued = cron.issued) (log : after.log = cron.log)
    (plain : ∀ next, rest = some next → (∀ claim, next ≠ .claimed claim) ∧ (∀ entry, next ≠ .logging entry) ∧
      ∀ edit readMs, next ≠ .editing edit readMs) : Effect cron call after rest := by
  refine ⟨⟨[], none, issued, advances, nofun, fun claim same => ?_⟩, log, fun entry same => ?_,
    fun edit readMs same => ?_⟩
  · exact absurd rfl ((plain _ same).1 claim)
  · exact absurd rfl ((plain _ same).2.1 entry)
  · exact absurd rfl ((plain _ same).2.2 edit readMs)

theorem Effect.of_outcome {outcome : List CronJob × Option CronRunLogEntry} (done : Outcome cron.issued cron.jobs outcome) :
    Effect cron call (settled cron outcome).1 (settled cron outcome).2 := by
  refine ⟨⟨[], none, rfl, done.advances, nofun, fun claim same => ?_⟩, rfl, fun entry same => ?_,
    fun edit readMs same => ?_⟩
  · obtain ⟨_, _, wrong⟩ := Option.map_eq_some_iff.mp same
    cases wrong
  · obtain ⟨owed, produced, same⟩ := Option.map_eq_some_iff.mp same
    cases same
    exact done.entry entry produced
  · obtain ⟨_, _, wrong⟩ := Option.map_eq_some_iff.mp same
    cases wrong

theorem claim_effect (shared : Shared cron) {process : Process} {id : String} {invocation : ExecutionInvocation}
    {idempotencyKey : String} {claimedAtMs : Int} {uuids : Uuids} {schedulerActive : Bool}
    (moved : advance deps cron (.claiming process id invocation idempotencyKey claimedAtMs)
      (.claim uuids schedulerActive) = some (after, rest)) : Effect cron call after rest := by
  simp only [advance] at moved
  split at moved
  next => cases moved
  next new =>
    simp only [Bool.or_eq_true, List.contains_eq_mem, decide_eq_true_eq, not_or] at new
    cases moved
    have advances := claimCronJob_advances deps process shared.consistent new.1 new.2
      schedulerActive id invocation idempotencyKey
    refine ⟨⟨_, none, rfl, advances, nofun, fun claim same => ?_⟩, rfl, fun entry same => ?_,
      fun edit readMs same => ?_⟩
    · have granted := claimCronJob_cases deps process uuids schedulerActive id
        invocation idempotencyKey claimedAtMs cron.jobs
      split at same
      next value produced =>
        cases same
        obtain ⟨_, wrong⟩ | ⟨job, _, _, granted⟩ := granted
        · exact absurd produced (wrong claim)
        · cases produced.symm.trans granted
          exact ⟨new.2, List.mem_cons_of_mem _ (List.mem_cons_self ..)⟩
      next => cases same
    · split at same <;> cases same
    · split at same <;> cases same

theorem recover_effect (shared : Shared cron) {process : Process} {id runId : String} {expectedLeaseId : Option String}
    {recoveredAtMs : Int} {uuids : Uuids} {schedulerActive : Bool}
    (moved : advance deps cron (.recovering process id runId expectedLeaseId recoveredAtMs)
      (.claim uuids schedulerActive) = some (after, rest)) : Effect cron call after rest := by
  simp only [advance] at moved
  split at moved
  next => cases moved
  next new =>
    have new : uuids.lease ∉ cron.issued := by simpa using new
    cases moved
    obtain ⟨refused, advances, _⟩ | ⟨job, record, recovered, changed, granted⟩ :=
      recoverCronClaim_cases deps process uuids shared.consistent id runId
        expectedLeaseId recoveredAtMs
    · refine ⟨⟨[uuids.lease], none, rfl, advances, nofun, fun claim same => ?_⟩, rfl,
        fun entry same => ?_, fun edit readMs same => ?_⟩ <;> simp [refused] at same
    · refine ⟨⟨[uuids.lease], none, rfl, changed ▸ recoveredJob_advances deps process recoveredAtMs shared.consistent new recovered,
        nofun, fun claim same => ?_⟩, rfl, fun entry same => ?_, fun edit readMs same => ?_⟩
      · simp only [granted, Option.map_some, Option.some.injEq, Call.claimed.injEq] at same
        exact same ▸ ⟨new, List.mem_cons_self ..⟩
      · simp [granted] at same
      · simp [granted] at same

theorem advance_effect (shared : Shared cron) (asserted : Asserted cron call)
    (moved : advance deps cron call move = some (after, rest)) :
    (∃ entry, call = .logging entry ∧ after = { cron with log := cron.log ++ [entry] } ∧ rest = none) ∨
      Effect cron call after rest := by
  have same := Keeps.refl shared.consistent
  cases call with
  | clock =>
    cases move <;> simp only [advance, reduceCtorEq] at moved
    split at moved <;> cases moved
    exact .inr (.of_advances same.advances rfl rfl fun _ next => by cases next; simp)
  | claiming process id invocation idempotencyKey claimedAtMs =>
    cases move with
    | claim uuids schedulerActive => exact .inr (claim_effect shared moved)
    | _ => simp [advance] at moved
  | claimed claim =>
    cases move with
    | release =>
      simp only [advance] at moved
      split at moved <;> cases moved
      exact .inr (.of_advances (releaseClaim_advances shared.consistent asserted.2) rfl rfl fun _ none => by cases none)
    | mark =>
      simp only [advance] at moved
      split at moved <;> cases moved
      refine .inr ⟨⟨[], some claim.leaseId, rfl, markCronClaimRunning_advances shared.consistent claim _,
        fun lease marked => ⟨claim, rfl, Option.some.inj marked⟩, fun other same => ?_⟩, rfl, fun entry same => ?_,
        fun edit readMs same => ?_⟩ <;> split at same <;> cases same
    | expire =>
      simp only [advance] at moved
      split at moved <;> cases moved
      exact .inr (.of_advances same.advances rfl rfl fun _ next => by cases next; simp)
    | _ => simp [advance] at moved
  | executing claim =>
    cases move <;> simp only [advance, reduceCtorEq] at moved
    cases moved
    exact .inr (.of_advances same.advances rfl rfl fun _ next => by cases next; simp)
  | completing claim ending =>
    cases move <;> simp only [advance, reduceCtorEq] at moved
    cases moved
    exact .inr (.of_outcome (completeClaim_outcome shared.consistent claim ending))
  | recovering process id runId expectedLeaseId recoveredAtMs =>
    cases move with
    | claim uuids schedulerActive => exact .inr (recover_effect shared moved)
    | _ => simp [advance] at moved
  | quarantining claim endedAtMs =>
    cases move <;> simp only [advance, reduceCtorEq] at moved
    cases moved
    exact .inr (.of_outcome (quarantineLegacyOrphan_outcome shared.consistent claim endedAtMs))
  | watching candidate =>
    cases move <;> simp only [advance, reduceCtorEq] at moved
    split at moved <;> cases moved
    exact .inr (.of_advances same.advances rfl rfl fun _ next => by cases next; simp)
  | cleaning candidate nowMs =>
    cases move <;> simp only [advance, reduceCtorEq] at moved
    cases moved
    exact .inr (.of_outcome (checkStaleJob_outcome shared.consistent candidate nowMs))
  | cancelling job runId =>
    cases move <;> simp only [advance, reduceCtorEq] at moved
    cases moved
    exact .inr (.of_advances same.advances rfl rfl fun _ next => by cases next; simp)
  | settling job runId status endedAtMs =>
    cases move <;> simp only [advance, reduceCtorEq] at moved
    cases moved
    exact .inr (.of_outcome (settleExplicitCancellation_outcome shared.consistent job runId status endedAtMs))
  | editing edit readMs =>
    cases move <;> simp only [advance, reduceCtorEq] at moved
    cases moved
    refine .inr (.of_advances ?_ rfl rfl fun _ none => by cases none)
    cases applied : edit.apply deps readMs cron.nowMs cron.jobs with
    | none => exact same.advances
    | some jobs =>
      refine (edit_keeps shared.consistent (fun plan planned => ?_) applied).advances
      subst planned
      exact asserted
  | repairing process isProcessAlive readMs =>
    cases move <;> simp only [advance, reduceCtorEq] at moved
    cases moved
    exact .inr (.of_advances (repair_keeps shared.consistent isProcessAlive readMs).advances rfl rfl
      fun _ none => by cases none)
  | logging entry =>
    cases move <;> simp only [advance, reduceCtorEq] at moved
    cases moved
    exact .inl ⟨entry, rfl, rfl, rfl⟩

theorem closed_of_advances {issued fresh : List String} {marked : Option String} {jobs jobs' : List CronJob}
    (advances : Advances issued fresh marked jobs jobs') {runId : String} (known : runId ∈ issued)
    (closed : Closed jobs runId) : Closed jobs' runId := by
  intro record stored same live
  obtain ⟨old, present, follows⟩ | new := advances.records stored
  · have ended := closed old present (follows.runId.symm.trans same)
    obtain ⟨status, settled⟩ := Option.ne_none_iff_exists'.mp ended
    rw [follows.settled status settled] at live
    cases live
  · exact new.run (same ▸ known)

theorem unmarked_of_advances {issued fresh : List String} {marked : Option String} {jobs jobs' : List CronJob}
    (advances : Advances issued fresh marked jobs jobs') {leaseId : String}
    (other : marked ≠ some leaseId) (unmarked : Unmarked jobs leaseId) : Unmarked jobs' leaseId := by
  intro record stored same live
  obtain ⟨old, present, follows⟩ | new' := advances.records stored
  · cases follows.lease with
    | inl kept =>
      have lease : old.leaseId = leaseId := kept.symm.trans same
      have waiting : old.terminalStatus = none := by
        cases ended : old.terminalStatus with
        | none => rfl
        | some status => exact absurd (follows.settled status ended) (by simp [live])
      rw [follows.status live kept (by rw [lease]; exact Ne.symm other)]
      exact unmarked old present lease waiting
    | inr new => exact new.2
  · exact new'.status

theorem unmarked_of_new {issued fresh : List String} {marked : Option String} {jobs jobs' : List CronJob}
    (consistent : Consistent issued jobs) (advances : Advances issued fresh marked jobs jobs') {leaseId : String}
    (new : leaseId ∉ issued) : Unmarked jobs' leaseId := by
  intro record stored same live
  obtain ⟨old, present, follows⟩ | new' := advances.records stored
  · cases follows.lease with
    | inl kept => exact absurd (kept.symm.trans same ▸ (consistent.ids_issued present).2) new
    | inr leased => exact leased.2
  · exact new'.status

theorem Effect.shared (effect : Effect cron call after rest) (shared : Shared cron) : Shared after := by
  obtain ⟨fresh, marked, issued, advances, _, _⟩ := effect.store
  refine ⟨issued ▸ advances.consistent, effect.log ▸ shared.nodup, fun entry logged => ?_⟩
  obtain ⟨known, closed⟩ := shared.logged entry (effect.log ▸ logged)
  exact ⟨issued ▸ List.mem_append_right _ known, closed_of_advances advances known closed⟩

theorem Effect.grows (effect : Effect cron call after rest) : Grows cron after := by
  obtain ⟨fresh, marked, issued, advances, _, _⟩ := effect.store
  refine ⟨fun _ member => issued ▸ List.mem_append_right _ member, fun record stored known => ?_⟩
  obtain ⟨old, present, follows⟩ | new := advances.records stored
  · exact ⟨old, present, follows.runId, follows.lease.imp id (·.1), follows.settled⟩
  · exact absurd known new.run

theorem Effect.continues (effect : Effect cron call after rest) (shared : Shared cron) {next : Call}
    (going : rest = some next) :
    Asserted after next ∧ ∀ other, Asserted cron other → Distinct next other := by
  obtain ⟨fresh, marked, issued, advances, _, claims⟩ := effect.store
  cases next with
  | claimed claim =>
    obtain ⟨new, leased⟩ := claims claim going
    refine ⟨⟨issued ▸ List.mem_append_left _ leased, unmarked_of_new shared.consistent advances new⟩, fun other held => ?_⟩
    cases other with
    | claimed second => exact fun same => new (same ▸ held.1)
    | _ => trivial
  | logging entry =>
    obtain ⟨⟨record, present, named, live⟩, closed⟩ := effect.entry entry going
    have known : entry.runId ∈ cron.issued := named ▸ (shared.consistent.ids_issued present).1
    refine ⟨⟨issued ▸ List.mem_append_right _ known, closed, fun other logged same => ?_⟩, fun other held => ?_⟩
    · have ended := (shared.logged other (effect.log ▸ logged)).2
      exact ended record present (named.trans same.symm) live
    · cases other with
      | logging second => exact fun same => held.2.1 record present (named.trans same) live
      | _ => trivial
  | editing edit readMs => exact absurd going (effect.plain edit readMs)
  | _ => exact ⟨trivial, fun _ _ => trivial⟩

theorem Effect.stable (effect : Effect cron call after rest) {other : Call} (held : Asserted cron other)
    (distinct : Distinct call other) : Asserted after other := by
  obtain ⟨fresh, marked, issued, advances, marks, _⟩ := effect.store
  cases other with
  | claimed claim =>
    refine ⟨issued ▸ List.mem_append_right _ held.1, unmarked_of_advances advances (fun same => ?_) held.2⟩
    obtain ⟨marker, rfl, lease⟩ := marks claim.leaseId same
    exact distinct lease
  | logging entry =>
    exact ⟨issued ▸ List.mem_append_right _ held.1, closed_of_advances advances held.1 held.2.1, effect.log ▸ held.2.2⟩
  | editing edit readMs => cases edit <;> exact held
  | _ => trivial

def outline : Outline Cron Call := ⟨Shared, Asserted, Distinct, Grows⟩

variable {permits : Cron → Call → Move → Prop}

theorem outline_sound : outline.Sound (service deps permits) where
  refl := Grows.refl
  trans := Grows.trans
  symm := by
    intro call other distinct
    cases call <;> cases other <;> first | trivial | exact Ne.symm distinct
  starts := by
    intro cron call shared started
    cases call with
    | claimed claim => exact started.elim
    | logging entry => exact started.elim
    | editing edit readMs =>
      refine ⟨?_, fun _ _ => trivial⟩
      cases edit with
      | applySystemJobs plan => exact started.1
      | _ => trivial
    | _ => exact ⟨trivial, fun _ _ => trivial⟩
  advances := by
    intro cron call move after rest shared asserted _ moved
    obtain ⟨entry, rfl, rfl, rfl⟩ | effect := advance_effect shared asserted moved
    · obtain ⟨known, closed, unlogged⟩ := asserted
      have grown : Grows cron { cron with log := cron.log ++ [entry] } :=
        ⟨(Grows.refl cron).issued, (Grows.refl cron).records⟩
      refine ⟨⟨shared.consistent, ?_, fun other logged => ?_⟩, grown, fun next going => by cases going⟩
      · rw [List.map_append]
        refine List.nodup_append.mpr ⟨shared.nodup, by simp, fun runId old new fresh same => ?_⟩
        obtain ⟨other, logged, rfl⟩ := List.mem_map.mp old
        exact unlogged other logged (same.trans (List.mem_singleton.mp fresh))
      · rcases List.mem_append.mp logged with old | new
        · exact shared.logged other old
        · rw [List.mem_singleton.mp new]
          exact ⟨known, closed⟩
    · refine ⟨effect.shared shared, effect.grows, fun next going => ?_⟩
      obtain ⟨asserted, distinct⟩ := effect.continues shared going
      exact ⟨asserted, fun other held _ => distinct other held⟩
  stable := by
    intro cron call move after rest other shared asserted _ moved held distinct
    obtain ⟨entry, rfl, rfl, rfl⟩ | effect := advance_effect shared asserted moved
    · cases other with
      | logging second =>
        refine ⟨held.1, held.2.1, fun earlier logged => ?_⟩
        rcases List.mem_append.mp logged with old | new
        · exact held.2.2 earlier old
        · exact List.mem_singleton.mp new ▸ distinct
      | editing edit readMs => cases edit <;> exact held
      | _ => exact held
    · exact effect.stable held distinct

/-- The empty store. -/
def started (nowMs : Int) : World Cron Call := ⟨⟨[], [], [], nowMs⟩, []⟩

theorem holds_of_run {nowMs : Int} {world : World Cron Call} (run : Run (service deps permits) (started nowMs) world) :
    outline.Holds world := by
  have initial : Shared ⟨[], [], [], nowMs⟩ := by
    refine ⟨⟨?_, ?_⟩, ?_, ?_⟩ <;> simp
  exact ((Outline.Holds.start initial).run outline_sound run).1

/-- What one job's ledger says at any time. -/
structure RunsOnce (job : CronJob) : Prop where
  keys : (job.state.executionLedger.map (·.idempotencyKey)).Nodup
  one : (job.state.executionLedger.filter (·.terminalStatus.isNone)).length ≤ 1
  running : ∀ record ∈ job.state.executionLedger, record.terminalStatus = none →
    job.state.runningRunId = some record.runId ∧ job.state.runningLeaseId = some record.leaseId

/-- The call has just taken over the run from whoever held the lease. -/
structure TakesOver (deps : Deps) (before after : World Cron Call) (runId leaseId : String) : Prop where
  taken : ∃ index process id recoveredAtMs uuids schedulerActive fresh,
    before.calls[index]? = some (some (.recovering process id runId (some leaseId) recoveredAtMs)) ∧
    advance deps before.shared (.recovering process id runId (some leaseId) recoveredAtMs)
      (.claim uuids schedulerActive) = some (after.shared, some (.claimed fresh)) ∧
    after.calls = before.calls.set index (some (.claimed fresh))

theorem runsOnce_of_valid {issued : List String} {job : CronJob} (valid : Valid issued job.state) : RunsOnce job := by
  refine ⟨valid.keys, ?_, fun record member live => ?_⟩
  · have nodup : ((job.state.executionLedger.filter (·.terminalStatus.isNone)).map (·.runId)).Nodup :=
      (List.filter_sublist.map _).nodup valid.runs
    have same (record : CronExecutionRecord) (member : record ∈ job.state.executionLedger.filter (·.terminalStatus.isNone)) :
        some record.runId = job.state.runningRunId := by
      obtain ⟨member, live⟩ := List.mem_filter.mp member
      exact (valid.held record member (Option.isNone_iff_eq_none.mp live)).run.symm
    cases open' : job.state.executionLedger.filter (·.terminalStatus.isNone) with
    | nil => simp
    | cons first rest =>
      cases rest with
      | nil => simp
      | cons second rest =>
        rw [open'] at nodup same
        have first' := same first (by simp)
        have second' := same second (by simp)
        have equal : first.runId = second.runId := Option.some.inj (first'.trans second'.symm)
        simp [equal] at nodup
  · have held := valid.held record member live
    exact ⟨held.run, held.lease⟩

theorem lease_gone {before after last : World Cron Call} {runId leaseId : String} (holds : outline.Holds before)
    (taken : TakesOver deps before after runId leaseId) (run : Run (service deps fun _ _ _ => True) after last) :
    ∀ record, Stored last.shared.jobs record → record.runId = runId → record.leaseId ≠ leaseId := by
  obtain ⟨index, process, id, recoveredAtMs, uuids, schedulerActive, fresh, found, moved, calls⟩ := taken.taken
  obtain ⟨shared, list⟩ := after
  cases calls
  have step : Step (service deps fun _ _ _ => True) before ⟨shared, before.calls.set index (some (.claimed fresh))⟩ :=
    .advance found trivial (show (service deps _).advance _ _ (.claim uuids schedulerActive) = _ from moved)
  have later := (holds.step outline_sound step).1
  have consistent : Consistent before.shared.issued before.shared.jobs := holds.shared.consistent
  have grown := (later.run outline_sound run).2
  simp only [advance] at moved
  split at moved
  next => cases moved
  next new =>
    have new : uuids.lease ∉ before.shared.issued := by simpa using new
    obtain ⟨refused, _⟩ | ⟨job, record, recovered, changed, _⟩ :=
      recoverCronClaim_cases deps process uuids consistent id runId (some leaseId)
        recoveredAtMs
    · simp [refused] at moved
    obtain ⟨rfl, _⟩ := Prod.mk.inj (Option.some.inj moved)
    obtain ⟨member, named⟩ := findRecord_spec recovered.recorded
    have stored : Stored before.shared.jobs record := ⟨job, findJob_mem recovered.found, member⟩
    have held := (consistent.valid job (findJob_mem recovered.found)).held record member recovered.live
    have lease : record.leaseId = leaseId := Option.some.inj (held.lease.symm.trans recovered.lease)
    have known := consistent.ids_issued stored
    have leased : Stored (recoverCronClaim deps process uuids id runId (some leaseId) recoveredAtMs before.shared.jobs).1
        (leaseRecord process uuids.lease recoveredAtMs true record) := by
      refine ⟨recoveredJob deps process uuids recoveredAtMs job record, changed ▸ mem_updated recovered.found _, ?_⟩
      apply mem_setRecord
      exact (named ▸ recovered.recorded : job.findRecord record.runId = some record)
    intro final present same
    have knownRun : final.runId ∈ uuids.lease :: before.shared.issued :=
      List.mem_cons_of_mem _ ((named.trans same.symm) ▸ known.1)
    obtain ⟨old, early, evolves⟩ := grown.records final present knownRun
    have one := later.shared.consistent.record_eq early leased ((evolves.runId.symm.trans same).trans named.symm)
    have other : uuids.lease ≠ leaseId := fun wrong => new (wrong ▸ lease ▸ known.2)
    cases evolves.lease with
    | inl kept =>
      rw [kept, one]
      exact other
    | inr fresh' => exact fun wrong => fresh' (List.mem_cons_of_mem _ (wrong.trans lease.symm ▸ known.2))

/-- However the calls of all processes interleave: a job has one record for an occurrence
and one open record at most, which its running fields name; a terminal status is final; a
run has one log entry at most; and a completion whose lease was taken over changes nothing. -/
theorem runs_and_settles_once {nowMs : Int} {middle last : World Cron Call}
    (first : Run (service deps fun _ _ _ => True) (started nowMs) middle)
    (second : Run (service deps fun _ _ _ => True) middle last) :
    (∀ job ∈ last.shared.jobs, RunsOnce job) ∧
      (∀ record, Stored middle.shared.jobs record → ∀ status, record.terminalStatus = some status →
        ∀ later, Stored last.shared.jobs later → later.runId = record.runId → later.terminalStatus = some status) ∧
      (last.shared.log.map (·.runId)).Nodup ∧
      ∀ taken runId leaseId, TakesOver deps middle taken runId leaseId →
        ∀ final, Run (service deps fun _ _ _ => True) taken final →
          ∀ claim ending, claim.runId = runId → claim.leaseId = leaseId →
            completeClaim deps claim ending final.shared.jobs = (final.shared.jobs, none) := by
  have holds := holds_of_run first
  obtain ⟨kept, grown⟩ := holds.run outline_sound second
  refine ⟨fun job member => runsOnce_of_valid (kept.shared.consistent.valid job member), ?_, kept.shared.nodup, ?_⟩
  · intro record stored status settled later present same
    have known := (holds.shared.consistent.ids_issued stored).1
    obtain ⟨old, early, evolves⟩ := grown.records later present (same ▸ known)
    have one := holds.shared.consistent.record_eq early stored (evolves.runId.symm.trans same)
    exact evolves.settled status (one ▸ settled)
  · intro taken runId leaseId takes final run claim ending sameRun sameLease
    have gone := lease_gone holds takes run
    simp only [completeClaim]
    split
    next => rfl
    next job found =>
      split
      next => rfl
      next =>
        split
        next => rfl
        next record held =>
          obtain ⟨recorded, lease⟩ := Option.filter_eq_some_iff.mp held
          obtain ⟨member, named⟩ := findRecord_spec recorded
          have lease : record.leaseId = claim.leaseId := of_decide_eq_true lease
          exact absurd (lease.trans sameLease) (gone record ⟨job, findJob_mem found, member⟩ (named.trans sameRun))

def worker : Process := ⟨"worker", 1, "host"⟩

def everyMinute : Deps := ⟨fun _ _ _ => none, none, fun _ => none⟩

def atAnyTime : System Cron Call Move := service everyMinute fun _ _ _ => True

instance (cron : Cron) (call : Call) : Decidable (atAnyTime.starts cron call) :=
  inferInstanceAs (Decidable (starts everyMinute cron call))

instance (cron : Cron) (call : Call) (move : Move) : Decidable (atAnyTime.permits cron call move) := isTrue trivial

def executing : Option (World Cron Call) :=
  (started 0).play atAnyTime
    [.start .clock, .start (.editing (.add "job" ⟨none, .every 60000 none, .systemEvent, none⟩) 0), .advance 1 .commit,
      .advance 0 (.tick 60000),
      .start (.claiming worker "job" ⟨.schedule, some 60000, none, none, none, none⟩ "cron:job:schedule:60000" 60000),
      .advance 2 (.claim ⟨"r", "l1", "s"⟩ true), .advance 2 .mark,
      .start (.recovering worker "job" "60000-r" (some "l1") 60000)]

def takenOver : Option (World Cron Call) :=
  executing.bind fun world => world.act atAnyTime (.advance 3 (.claim ⟨"", "l2", ""⟩ true))

/-- Both executors finish; the first one has not committed yet. -/
def finished : Option (World Cron Call) :=
  takenOver.bind fun world =>
    world.play atAnyTime [.advance 2 (.finish .ok false), .advance 3 .mark, .advance 3 (.finish .error false),
      .advance 3 .commit, .advance 3 .append]

theorem runs_and_settles_once_recovered : ∃ world, finished = some world ∧
    world.shared.log.map (·.runId) = ["60000-r"] ∧ (∀ job ∈ world.shared.jobs, RunsOnce job) ∧
    ∀ claim ending, claim.runId = "60000-r" → claim.leaseId = "l1" →
      completeClaim everyMinute claim ending world.shared.jobs = (world.shared.jobs, none) := by
  have facts : (finished.map fun world => world.shared.log.map (·.runId)) = some ["60000-r"] := by decide +kernel
  obtain ⟨world, last, logged⟩ := Option.map_eq_some_iff.mp facts
  obtain ⟨taken, second, last'⟩ := Option.bind_eq_some_iff.mp last
  obtain ⟨middle, first, second'⟩ := Option.bind_eq_some_iff.mp second
  have before : Run atAnyTime (started 0) middle := World.run_of_play _ first
  have step : Run atAnyTime middle taken := .single (World.step_of_act _ second')
  have after : Run atAnyTime taken world := World.run_of_play _ last'
  have takes : TakesOver everyMinute middle taken "60000-r" "l1" := by
    cases first
    cases second'
    exact ⟨3, worker, "job", 60000, ⟨"", "l2", ""⟩, true, _, rfl, rfl, rfl⟩
  obtain ⟨once, _, _, _⟩ := runs_and_settles_once before (step.trans after)
  obtain ⟨_, _, _, unchanged⟩ := runs_and_settles_once before step
  exact ⟨world, last, logged, once, unchanged taken "60000-r" "l1" takes world after⟩

end AgentSaas.Proofs.CronLedger
