import AgentSaas.Proofs.CronRecords

/-! One lemma for each transaction of the cron service: how it changes the records, and
which run it settles. -/

namespace AgentSaas.Proofs.CronTransactions
open AgentSaas.Cron AgentSaas.Proofs.CronRecords

variable {issued : List String} {jobs : List CronJob} {deps : Deps} {process : Process} {uuids : Uuids}

def Unmarked (jobs : List CronJob) (leaseId : String) : Prop :=
  ∀ record, Stored jobs record → record.leaseId = leaseId → record.terminalStatus = none → record.status = .claimed

/-- No record of the run is open. -/
def Closed (jobs : List CronJob) (runId : String) : Prop :=
  ∀ record, Stored jobs record → record.runId = runId → record.terminalStatus ≠ none

structure Settles (before after : List CronJob) (runId : String) : Prop where
  live : ∃ record, Stored before record ∧ record.runId = runId ∧ record.terminalStatus = none
  closed : Closed after runId

structure Outcome (issued : List String) (jobs : List CronJob) (outcome : List CronJob × Option CronRunLogEntry) :
    Prop where
  advances : Advances issued [] none jobs outcome.1
  entry : ∀ entry, outcome.2 = some entry → Settles jobs outcome.1 entry.runId

theorem findJob_mem {id : String} {job : CronJob} (found : findJob jobs id = some job) : job ∈ jobs :=
  List.mem_of_find?_eq_some found

theorem mem_updated {id : String} {job : CronJob} (found : findJob jobs id = some job) (change : CronJob → CronJob) :
    change job ∈ updateJob jobs id change := by
  obtain ⟨before, after, rfl, updated⟩ := updateFirst_split found
  rw [updateJob, updated]
  exact List.mem_append_right _ (List.mem_cons_self ..)

theorem mem_setRecord {job : CronJob} {runId : String} {record : CronExecutionRecord}
    (recorded : job.findRecord runId = some record) (change : CronExecutionRecord → CronExecutionRecord) :
    change record ∈ (job.setRecord runId change).state.executionLedger := by
  obtain ⟨before, after, _, updated⟩ := updateFirst_split recorded
  simp only [CronJob.setRecord]
  rw [updated]
  exact List.mem_append_right _ (List.mem_cons_self ..)

theorem Outcome.unchanged (consistent : Consistent issued jobs) : Outcome issued jobs (jobs, none) :=
  ⟨(Keeps.refl consistent).advances, fun _ none => by cases none⟩

theorem Outcome.cleared (consistent : Consistent issued jobs) {id runId : String} {job : CronJob}
    (found : findJob jobs id = some job) (running : job.state.runningRunId = some runId)
    (closed : ∀ record, job.findRecord runId = some record → record.terminalStatus ≠ none) :
    Outcome issued jobs (updateJob jobs id clearActiveExecution, none) := by
  have valid := consistent.valid job (findJob_mem found)
  refine ⟨advances_update consistent found (clear_changes _ valid ?_), fun _ none => by cases none⟩
  exact closed_of_running valid running closed

theorem Outcome.settled (consistent : Consistent issued jobs) {id runId : String} {job : CronJob}
    {record : CronExecutionRecord} {change : CronJob → CronJob} {entry : Option CronRunLogEntry}
    (status : TerminalStatus) (endedAtMs : Int) (found : findJob jobs id = some job) (recorded : job.findRecord runId = some record)
    (live : record.terminalStatus = none)
    (same : SameRuns ((clearActiveExecution job).setRecord runId (settleRecord status endedAtMs)) (change job))
    (named : ∀ one, entry = some one → one.runId = runId) :
    Outcome issued jobs (updateJob jobs id change, entry) := by
  have valid := consistent.valid job (findJob_mem found)
  obtain ⟨member, matched⟩ := findRecord_spec recorded
  have changes := same.changes (settle_changes none valid recorded live status endedAtMs)
  have advances := advances_update consistent found changes
  refine ⟨advances, fun one owed => ?_⟩
  cases owed
  rw [named one rfl]
  refine ⟨⟨record, ⟨job, findJob_mem found, member⟩, matched, live⟩, fun other stored run => ?_⟩
  have ended : settleRecord status endedAtMs record ∈ (change job).state.executionLedger := by
    rw [same]
    have cleared : (clearActiveExecution job).findRecord runId = some record := recorded
    exact mem_setRecord cleared _
  have one := advances.consistent.record_eq stored ⟨change job, mem_updated found change, ended⟩
    (run.trans matched.symm)
  rw [one]
  simp [settleRecord]

theorem mem_eraseP_of_nodup {ledger : List CronExecutionRecord} (nodup : (ledger.map (·.runId)).Nodup)
    {runId : String} {record : CronExecutionRecord} (member : record ∈ ledger.eraseP (·.runId = runId)) :
    record ∈ ledger ∧ record.runId ≠ runId := by
  induction ledger with
  | nil => cases member
  | cons first rest ih =>
    obtain ⟨absent, nodup⟩ := List.nodup_cons.mp nodup
    by_cases hit : first.runId = runId
    · rw [List.eraseP_cons_of_pos (by simpa using hit)] at member
      refine ⟨List.mem_cons_of_mem _ member, fun same => absent ?_⟩
      exact List.mem_map.mpr ⟨record, member, same.trans hit.symm⟩
    · rw [List.eraseP_cons_of_neg (by simpa using hit)] at member
      cases List.mem_cons.mp member with
      | inl same => exact ⟨same ▸ List.mem_cons_self .., same ▸ hit⟩
      | inr member =>
        obtain ⟨member, other⟩ := ih nodup member
        exact ⟨List.mem_cons_of_mem _ member, other⟩

theorem releaseClaim_advances (consistent : Consistent issued jobs) {claim : ClaimedJob}
    (unmarked : Unmarked jobs claim.leaseId) : Advances issued [] none jobs (releaseClaim claim jobs) := by
  simp only [releaseClaim]
  split
  next => exact (Keeps.refl consistent).advances
  next job found =>
    split
    next => exact (Keeps.refl consistent).advances
    next holds =>
      simp only [CronJob.isHeldBy, Bool.not_eq_true, Bool.not_eq_false', Bool.and_eq_true, decide_eq_true_eq] at holds
      obtain ⟨run, lease⟩ := holds
      have valid := consistent.valid job (findJob_mem found)
      refine advances_update consistent found ?_
      split
      next claimed =>
        -- The open record, if any, is the claimed one, and it goes.
        have sublist := @List.eraseP_sublist _ (·.runId = claim.runId) job.state.executionLedger
        refine ⟨⟨(sublist.map _).nodup valid.keys, (sublist.map _).nodup valid.runs, fun record member live => ?_, rfl,
          fun record member => valid.terminal record (sublist.subset member),
          fun record member => valid.edition record (sublist.subset member),
          fun record member => valid.ids record (sublist.subset member), fun _ running => by cases running⟩,
          fun record member => .inl ⟨record, sublist.subset member, .refl _ _ record⟩⟩
        obtain ⟨member, other⟩ := mem_eraseP_of_nodup valid.runs member
        exact absurd (Option.some.inj ((valid.held record member live).run.symm.trans run)) other
      next running =>
        refine clear_changes none valid (closed_of_running valid run fun record recorded live => running ?_)
        obtain ⟨member, named⟩ := findRecord_spec recorded
        have held := (valid.held record member live).lease
        have same : record.leaseId = claim.leaseId := Option.some.inj (held.symm.trans lease)
        simp [recorded, unmarked record ⟨job, findJob_mem found, member⟩ same live]

theorem markCronClaimRunning_advances (consistent : Consistent issued jobs) (claim : ClaimedJob) (nowMs : Int) :
    Advances issued [] (some claim.leaseId) jobs (markCronClaimRunning claim nowMs jobs).1 := by
  simp only [markCronClaimRunning]
  split
  next => exact (Keeps.refl consistent).advances
  next job found =>
    split
    next => exact (Keeps.refl consistent).advances
    next record recorded =>
      split
      next => exact (Keeps.refl consistent).advances
      next holds =>
        simp only [Bool.or_eq_true, decide_eq_true_eq, not_or, not_not] at holds
        obtain ⟨⟨⟨run, lease⟩, same⟩, claimed⟩ := holds
        have valid := consistent.valid job (findJob_mem found)
        obtain ⟨member, named⟩ := findRecord_spec recorded
        refine advances_update consistent found (setRecord_changes valid run recorded rfl valid.untimed
          (.inr rfl) ?_ rfl ?_ ?_ ?_)
        · exact ⟨rfl, rfl, rfl, rfl, .inl rfl, fun _ settled => settled, fun _ _ other => absurd (same ▸ rfl) other⟩
        · exact (valid.ids record member).2
        · intro live
          have held := valid.held record member live
          exact ⟨held.run, held.lease, held.since⟩
        · intro ended
          cases ended

structure Granted (jobs : List CronJob) (id : String) (invocation : ExecutionInvocation) (idempotencyKey : String)
    (claimedAtMs : Int) (job : CronJob) : Prop where
  found : findJob jobs id = some job
  first : ∀ record ∈ job.state.executionLedger, record.idempotencyKey ≠ idempotencyKey
  idle : job.state.runningAtMs = none ∧ job.state.runningRunId = none
  due : invocation.trigger = .schedule → ∃ at', job.state.nextRunAtMs = some at' ∧ invocation.scheduledAtMs = some at' ∧
    at' ≤ claimedAtMs

theorem claimCronJob_cases (deps : Deps) (process : Process) (uuids : Uuids) (schedulerActive : Bool) (id : String) (invocation : ExecutionInvocation)
    (idempotencyKey : String) (claimedAtMs : Int) (jobs : List CronJob) :
    let outcome := claimCronJob deps process uuids schedulerActive id invocation idempotencyKey claimedAtMs jobs
    (outcome.1 = jobs ∧ ∀ claim, outcome.2 ≠ .claim claim) ∨
      ∃ job, Granted jobs id invocation idempotencyKey claimedAtMs job ∧
        outcome.1 = updateJob jobs id
          (fun _ => (grantClaim deps job invocation idempotencyKey process uuids claimedAtMs).1) ∧
        outcome.2 = .claim (grantClaim deps job invocation idempotencyKey process uuids claimedAtMs).2 := by
  simp only [claimCronJob]
  split
  next => exact .inl ⟨rfl, fun _ same => by cases same⟩
  split
  next => exact .inl ⟨rfl, fun _ same => by cases same⟩
  next job found =>
    split
    next => exact .inl ⟨rfl, fun _ same => by cases same⟩
    next first =>
      split
      next => exact .inl ⟨rfl, fun _ same => by cases same⟩
      next idle =>
        split
        next => exact .inl ⟨rfl, fun _ same => by cases same⟩
        next due =>
          refine .inr ⟨job, ⟨found, fun record member same => ?_, ?_, fun schedule => ?_⟩, rfl, rfl⟩
          · exact List.find?_eq_none.mp first record member (decide_eq_true same)
          · simpa using idle
          · cases next : job.state.nextRunAtMs with
            | none => simp [schedule, next] at due
            | some due' =>
              simp only [schedule, next, ne_eq, not_true_eq_false, decide_false, Bool.not_false, Bool.true_and,
                Bool.or_eq_true, Option.all_some, decide_eq_true_eq, not_or, not_not] at due
              exact ⟨due', rfl, due.2.symm, by omega⟩

theorem claimCronJob_advances (deps : Deps) (process : Process) (consistent : Consistent issued jobs) {claimedAtMs : Int}
    (newRun : cronRunId claimedAtMs uuids ∉ issued) (newLease : uuids.lease ∉ issued) (schedulerActive : Bool)
    (id : String) (invocation : ExecutionInvocation) (idempotencyKey : String) :
    Advances issued [cronRunId claimedAtMs uuids, uuids.lease] none jobs
      (claimCronJob deps process uuids schedulerActive id invocation idempotencyKey claimedAtMs jobs).1 := by
  obtain ⟨same, _⟩ | ⟨job, granted, changed, _⟩ :=
    claimCronJob_cases deps process uuids schedulerActive id invocation idempotencyKey claimedAtMs jobs
  · rw [same]
    exact (Keeps.refl consistent).advances
  rw [changed]
  have valid := consistent.valid job (findJob_mem granted.found)
  have closed (record : CronExecutionRecord) (member : record ∈ job.state.executionLedger) :
      record.terminalStatus ≠ none := by
    intro live
    have run := (valid.held record member live).run
    rw [granted.idle.2] at run
    cases run
  refine advances_update consistent granted.found ⟨⟨?_, ?_, ?_, ?_, ?_, ?_, ?_, ?_⟩, ?_⟩
  · simp only [grantClaim, leaseRecord, newExecution, List.map_append, List.map_cons, List.map_nil]
    refine List.nodup_append.mpr ⟨valid.keys, by simp, ?_⟩
    intro key old new fresh same
    obtain ⟨record, member, rfl⟩ := List.mem_map.mp old
    exact granted.first record member (same.trans (List.mem_singleton.mp fresh))
  · simp only [grantClaim, leaseRecord, newExecution, List.map_append, List.map_cons, List.map_nil]
    refine List.nodup_append.mpr ⟨valid.runs, by simp, ?_⟩
    intro run old new fresh same
    obtain ⟨record, member, rfl⟩ := List.mem_map.mp old
    exact newRun (same.trans (List.mem_singleton.mp fresh) ▸ (valid.ids record member).1)
  · intro record member live
    rcases List.mem_append.mp member with old | new
    · exact absurd live (closed record old)
    · rw [List.mem_singleton.mp new]
      exact ⟨rfl, rfl, rfl⟩
  · rfl
  · intro record member ended
    rcases List.mem_append.mp member with old | new
    · exact valid.terminal record old ended
    · rw [List.mem_singleton.mp new] at ended
      cases ended
  · intro record member
    rcases List.mem_append.mp member with old | new
    · exact valid.edition record old
    · rw [List.mem_singleton.mp new]
      rfl
  · intro record member
    rcases List.mem_append.mp member with old | new
    · exact valid.grow.ids record old
    · rw [List.mem_singleton.mp new]
      exact ⟨List.mem_cons_self .., List.mem_cons_of_mem _ (List.mem_cons_self ..)⟩
  · intro runId running
    cases running
    exact List.mem_cons_self ..
  · intro record member
    rcases List.mem_append.mp member with old | new
    · exact .inl ⟨record, old, .refl _ _ record⟩
    · rw [List.mem_singleton.mp new]
      exact .inr ⟨⟨newRun, newLease, rfl⟩, closed⟩

def recoveredJob (deps : Deps) (process : Process) (uuids : Uuids) (recoveredAtMs : Int) (job : CronJob)
    (record : CronExecutionRecord) : CronJob :=
  let leased := leaseRecord process uuids.lease recoveredAtMs true record
  { job with state := leaseState deps process job leased uuids.lease recoveredAtMs true }.setRecord record.runId
    fun _ => leased

structure Recovered (jobs : List CronJob) (id runId : String) (expectedLeaseId : Option String) (job : CronJob)
    (record : CronExecutionRecord) : Prop where
  found : findJob jobs id = some job
  run : job.state.runningRunId = some runId
  lease : job.state.runningLeaseId = expectedLeaseId
  recorded : job.findRecord runId = some record
  live : record.terminalStatus = none

theorem recoverCronClaim_cases (deps : Deps) (process : Process) (uuids : Uuids)
    (consistent : Consistent issued jobs) (id runId : String)
    (expectedLeaseId : Option String) (recoveredAtMs : Int) :
    let outcome := recoverCronClaim deps process uuids id runId expectedLeaseId recoveredAtMs jobs
    (outcome.2.claim = none ∧ Advances issued [uuids.lease] none jobs outcome.1 ∧
        (outcome.1 = jobs ∨ outcome.1 = updateJob jobs id clearActiveExecution)) ∨
      ∃ job record, Recovered jobs id runId expectedLeaseId job record ∧
        outcome.1 = updateJob jobs id (fun _ => recoveredJob deps process uuids recoveredAtMs job record) ∧
        outcome.2.claim = some (claimSnapshot (recoveredJob deps process uuids recoveredAtMs job record)
          (leaseRecord process uuids.lease recoveredAtMs true record) job.updatedAtMs true) := by
  simp only [recoverCronClaim]
  split
  next => exact .inl ⟨rfl, (Keeps.refl consistent).advances, .inl rfl⟩
  next job found =>
    have valid := consistent.valid job (findJob_mem found)
    split
    next => exact .inl ⟨rfl, (Keeps.refl consistent).advances, .inl rfl⟩
    next holds =>
      simp only [Bool.or_eq_true, decide_eq_true_eq, not_or, not_not] at holds
      split
      next missing =>
        refine .inl ⟨rfl, advances_update consistent found ?_, .inr rfl⟩
        have changes := clear_changes none valid (closed_of_running valid holds.1 fun record recorded live => ?_)
        · exact ⟨changes.valid.grow, changes.records⟩
        · have rejected := Option.filter_eq_none_iff.mp missing record recorded
          have member := (findRecord_spec recorded).1
          have ended : record.status = .terminal := by simpa [live] using rejected
          simpa [live] using valid.terminal record member ended
      next record some =>
        obtain ⟨recorded, accepted⟩ := Option.filter_eq_some_iff.mp some
        obtain ⟨live, _⟩ := Bool.and_eq_true_iff.mp accepted
        have named := (findRecord_spec recorded).2
        refine .inr ⟨job, record, ⟨found, holds.1, holds.2, recorded, Option.isNone_iff_eq_none.mp live⟩, ?_, ?_⟩
        · simp [recoveredJob, named]
        · simp [recoveredJob, named]

theorem recoveredJob_advances (deps : Deps) (process : Process) (recoveredAtMs : Int)
    (consistent : Consistent issued jobs) {id runId : String}
    {expectedLeaseId : Option String} {job : CronJob} {record : CronExecutionRecord} (newLease : uuids.lease ∉ issued)
    (recovered : Recovered jobs id runId expectedLeaseId job record) :
    Advances issued [uuids.lease] none jobs
      (updateJob jobs id fun _ => recoveredJob deps process uuids recoveredAtMs job record) := by
  have valid := consistent.valid job (findJob_mem recovered.found)
  have named := (findRecord_spec recovered.recorded).2
  have recorded : job.findRecord record.runId = some record := named ▸ recovered.recorded
  refine advances_update consistent recovered.found (setRecord_changes valid ?_ recorded rfl ?_ (.inr ?_) ?_ rfl
    ?_ ?_ ?_)
  · exact named ▸ recovered.run
  · exact valid.untimed
  · rw [recovered.run, ← named]
    rfl
  · refine ⟨rfl, rfl, rfl, rfl, .inr ⟨newLease, rfl⟩, fun status settled => ?_, fun _ same => ?_⟩
    · simp [recovered.live] at settled
    · have known := (valid.ids record (findRecord_spec recorded).1).2
      have lease : uuids.lease = record.leaseId := same
      exact absurd (lease ▸ known) newLease
  · exact List.mem_cons_self ..
  · intro _
    exact ⟨rfl, rfl, rfl⟩
  · intro ended
    cases ended

theorem setNextRun_same (job : CronJob) (next : Option Int) : SameRuns job (job.setNextRun next) := rfl

theorem advanceSchedule_same (claim : ClaimedJob) (ending : Ending) (job : CronJob) :
    SameRuns job (advanceSchedule deps claim ending job) := by
  simp only [advanceSchedule]
  split
  · rfl
  split
  · rfl
  split
  · rfl
  · rfl

theorem watchdogSchedule_same (deps : Deps) (candidate : WatchdogCandidate) (execution : CronExecutionRecord) (nowMs : Int)
    (job : CronJob) : SameRuns job (watchdogSchedule deps candidate execution nowMs job) := by
  simp only [watchdogSchedule]
  split
  · rfl
  split
  · rfl
  · rfl

theorem settleSchedule_same (job : CronJob) (record : CronExecutionRecord) (status : TerminalStatus) (endedAtMs : Int)
    (current : CronJob) : SameRuns current (settleSchedule deps job record status endedAtMs current) := by
  simp only [settleSchedule]
  split
  · rfl
  split
  · rfl
  · rfl

theorem completeClaim_outcome (consistent : Consistent issued jobs) (claim : ClaimedJob) (ending : Ending) :
    Outcome issued jobs (completeClaim deps claim ending jobs) := by
  simp only [completeClaim]
  split
  next => exact .unchanged consistent
  next job found =>
    have valid := consistent.valid job (findJob_mem found)
    split
    next => exact .unchanged consistent
    next holds =>
      simp only [CronJob.isHeldBy, Bool.not_eq_true, Bool.not_eq_false', Bool.and_eq_true, decide_eq_true_eq] at holds
      split
      next => exact .unchanged consistent
      next record held =>
        have recorded := (Option.filter_eq_some_iff.mp held).1
        split
        next ended =>
          refine .cleared consistent found holds.1 fun other same => ?_
          cases recorded.symm.trans same
          exact Option.isSome_iff_ne_none.mp ended
        next live =>
          split
          next timed => simp [valid.untimed] at timed
          next =>
            refine .settled consistent _ _ found recorded (by simpa using live) (advanceSchedule_same ..) fun one owed => ?_
            cases owed
            rfl

theorem checkStaleJob_outcome (consistent : Consistent issued jobs) (candidate : WatchdogCandidate) (nowMs : Int) :
    Outcome issued jobs (checkStaleJob deps candidate nowMs jobs) := by
  simp only [checkStaleJob]
  split
  next => exact .unchanged consistent
  next job found =>
    split
    next => exact .unchanged consistent
    next =>
      split
      next => exact .unchanged consistent
      next runId _ =>
        split
        next => exact .unchanged consistent
        next record held =>
          obtain ⟨recorded, accepted⟩ := Option.filter_eq_some_iff.mp held
          have live := (Bool.and_eq_true_iff.mp accepted).2
          refine .settled consistent _ _ found recorded (Option.isNone_iff_eq_none.mp live)
            (SameRuns.setRecord (watchdogSchedule_same ..) ..) fun one owed => ?_
          cases owed
          rfl

theorem settleExplicitCancellation_outcome (consistent : Consistent issued jobs) (snapshot : CronJob) (runId : String)
    (status : TerminalStatus) (endedAtMs : Int) :
    Outcome issued jobs (settleExplicitCancellation deps snapshot runId status endedAtMs jobs) := by
  simp only [settleExplicitCancellation]
  split
  next => exact .unchanged consistent
  next job found =>
    split
    next => exact .unchanged consistent
    next record held =>
      obtain ⟨recorded, live⟩ := Option.filter_eq_some_iff.mp held
      refine .settled consistent _ _ found recorded (Option.isNone_iff_eq_none.mp live) (settleSchedule_same ..)
        fun one owed => ?_
      obtain ⟨execution, snapshotted, rfl⟩ := Option.map_eq_some_iff.mp owed
      exact (findRecord_spec snapshotted).2

theorem quarantineLegacyOrphan_outcome (consistent : Consistent issued jobs) (claim : ClaimedJob) (endedAtMs : Int) :
    Outcome issued jobs (quarantineLegacyOrphan claim endedAtMs jobs) := by
  simp only [quarantineLegacyOrphan]
  split
  next => exact .unchanged consistent
  next job found =>
    split
    next => exact .unchanged consistent
    next record held =>
      obtain ⟨recorded, live⟩ := Option.filter_eq_some_iff.mp held
      split
      next => exact .unchanged consistent
      next =>
        refine .settled consistent .error endedAtMs found recorded (Option.isNone_iff_eq_none.mp live) ?_
          fun one owed => ?_
        · rfl
        · cases owed
          rfl

theorem keeps_append (consistent : Consistent issued jobs) {job : CronJob}
    (empty : job.state = { CronJobState.empty with nextRunAtMs := job.state.nextRunAtMs }) :
    Keeps issued jobs (jobs ++ [job]) := by
  have ledger : job.state.executionLedger = [] := empty ▸ rfl
  refine .of_sublist consistent ?_ (by simp [ledger])
  intro other member
  rcases List.mem_append.mp member with old | new
  · exact consistent.valid other old
  · rw [List.mem_singleton.mp new, empty]
    constructor <;> simp [CronJobState.empty]

theorem keeps_sublist (consistent : Consistent issued jobs) {after : List CronJob} (kept : after.Sublist jobs) :
    Keeps issued jobs after :=
  .of_sublist consistent (fun job member => consistent.valid job (kept.subset member))
    ((kept.map _).trans (List.sublist_append_left ..))

theorem Keeps.foldl {α : Type} {step : List CronJob → α → List CronJob} {items : List α}
    (each : ∀ jobs, Consistent issued jobs → ∀ item ∈ items, Keeps issued jobs (step jobs item))
    (consistent : Consistent issued jobs) : Keeps issued jobs (items.foldl step jobs) := by
  induction items generalizing jobs with
  | nil => exact .refl consistent
  | cons item rest ih =>
    have first := each jobs consistent item (List.mem_cons_self ..)
    exact first.trans (ih (fun jobs consistent item member => each jobs consistent item (List.mem_cons_of_mem _ member))
      first.consistent)

theorem applySystemJobs_keeps (consistent : Consistent issued jobs) {plan : SystemPlan} (nowMs : Int)
    (planned : ∀ job ∈ plan.toCreate, job.state = .empty) :
    Keeps issued jobs (applySystemJobs deps plan nowMs jobs) := by
  have created : Keeps issued jobs (plan.toCreate.foldl (createSystemJob deps nowMs) jobs) := by
    refine Keeps.foldl (fun jobs consistent job member => ?_) consistent
    simp only [createSystemJob]
    split
    · exact .refl consistent
    · refine keeps_append consistent ?_
      split <;> simp [CronJob.rearm, CronJob.setNextRun, planned job member, CronJobState.empty]
  refine created.trans (Keeps.foldl (fun jobs consistent planned _ => keeps_update consistent fun job => ?_)
    created.consistent)
  split
  · rfl
  · rfl

theorem edit_keeps (consistent : Consistent issued jobs) {edit : Edit} {readMs nowMs : Int} {after : List CronJob}
    (planned : ∀ plan, edit = .applySystemJobs plan → ∀ job ∈ plan.toCreate, job.state = .empty)
    (applied : edit.apply deps readMs nowMs jobs = some after) : Keeps issued jobs after := by
  cases edit with
  | add id create =>
    cases applied
    exact keeps_append consistent rfl
  | update id patch =>
    simp only [Edit.apply, Cron.update] at applied
    split at applied
    next =>
      cases applied
      exact .refl consistent
    next =>
      split at applied
      next => cases applied
      next =>
        obtain ⟨payload, _, rfl⟩ := Option.map_eq_some_iff.mp applied
        exact keeps_update consistent fun _ => rfl
  | applySystemJobs plan =>
    cases applied
    exact applySystemJobs_keeps consistent _ (planned plan rfl)
  | transferOwner id expectedOwner owner =>
    simp only [Edit.apply, transferCronJobOwner] at applied
    split at applied
    next =>
      cases applied
      exact .refl consistent
    next =>
      split at applied
      next => cases applied
      next =>
        cases applied
        exact keeps_update consistent fun _ => rfl
  | remove id =>
    simp only [Edit.apply, Cron.remove] at applied
    split at applied
    next => cases applied
    next =>
      cases applied
      exact keeps_sublist consistent (List.eraseP_sublist ..)
  | removeByOwners owners =>
    cases applied
    exact keeps_sublist consistent (List.filter_sublist ..)

theorem normalizeEverySchedule_state (job : CronJob) (nowMs : Int) :
    (normalizeEverySchedule job nowMs).state = job.state := by
  simp only [normalizeEverySchedule]
  split <;> rfl

def freedJob (process : Process) (isProcessAlive : Int → Bool) (nowMs : Int) (job : CronJob) : CronJob :=
  if isAbandoned process isProcessAlive (normalizeEverySchedule job nowMs) ||
      (normalizeEverySchedule job nowMs).state.runningAtMs.isNone then
    clearActiveExecution (normalizeEverySchedule job nowMs)
  else normalizeEverySchedule job nowMs

theorem normalizeStoredJob_eq (isProcessAlive : Int → Bool) (nowMs : Int) (job : CronJob) :
    normalizeStoredJob deps process isProcessAlive nowMs job =
      if (freedJob process isProcessAlive nowMs job).enabled &&
          (freedJob process isProcessAlive nowMs job).state.nextRunAtMs.isNone then
        (freedJob process isProcessAlive nowMs job).rearm deps nowMs
      else freedJob process isProcessAlive nowMs job := rfl

theorem normalizeStoredJob_changes (deps : Deps) (process : Process) {job : CronJob} (valid : Valid issued job.state) (isProcessAlive : Int → Bool)
    (nowMs : Int) :
    let after := normalizeStoredJob deps process isProcessAlive nowMs job
    Valid issued after.state ∧ after.state.executionLedger = job.state.executionLedger := by
  have base := normalizeEverySchedule_state job nowMs
  have normalized : Valid issued (normalizeEverySchedule job nowMs).state := base ▸ valid
  have closed (free : (isAbandoned process isProcessAlive (normalizeEverySchedule job nowMs) ||
      (normalizeEverySchedule job nowMs).state.runningAtMs.isNone) = true) :
      ∀ record ∈ (normalizeEverySchedule job nowMs).state.executionLedger, record.terminalStatus ≠ none := by
    intro record member live
    have held := normalized.held record member live
    cases Bool.or_eq_true_iff.mp free with
    | inl abandoned =>
      simp only [isAbandoned, Bool.and_eq_true, held.run, Option.bind_some] at abandoned
      have missing := Option.isNone_iff_eq_none.mp abandoned.1.1.2
      exact List.find?_eq_none.mp missing record member (decide_eq_true rfl)
    | inr idle =>
      have since := held.since
      rw [Option.isNone_iff_eq_none.mp idle] at since
      cases since
  have cleared : Valid issued (freedJob process isProcessAlive nowMs job).state ∧
      (freedJob process isProcessAlive nowMs job).state.executionLedger = job.state.executionLedger := by
    simp only [freedJob]
    split
    next free =>
      have changes := clear_changes none normalized (closed free)
      exact ⟨changes.valid, congrArg (·.executionLedger) base⟩
    next => exact ⟨normalized, congrArg (·.executionLedger) base⟩
  rw [normalizeStoredJob_eq]
  split
  next =>
    have changes : Changes issued [] none _ _ := .refl cleared.1
    exact ⟨((setNextRun_same _ _).changes changes).valid, cleared.2⟩
  next => exact cleared

theorem repair_keeps (consistent : Consistent issued jobs) (isProcessAlive : Int → Bool) (nowMs : Int) :
    Keeps issued jobs (jobs.map (normalizeStoredJob deps process isProcessAlive nowMs)) := by
  have each (job : CronJob) (member : job ∈ jobs) :=
    normalizeStoredJob_changes deps process (consistent.valid job member) isProcessAlive nowMs
  refine .of_sublist consistent ?_ ?_
  · intro job member
    obtain ⟨old, present, rfl⟩ := List.mem_map.mp member
    exact (each old present).1
  · have same : (jobs.map (normalizeStoredJob deps process isProcessAlive nowMs)).map (·.state.executionLedger) =
        jobs.map (·.state.executionLedger) := by
      rw [List.map_map]
      exact List.map_congr_left fun job member => (each job member).2
    rw [same]
    exact List.sublist_append_left ..

end AgentSaas.Proofs.CronTransactions
