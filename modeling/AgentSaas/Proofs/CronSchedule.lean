import AgentSaas.Proofs.CronLedger

/-! When a job may stay armed for an occurrence that it has executed already, and when it
may not. -/

namespace AgentSaas.Proofs.CronSchedule
open AgentSaas.Cron AgentSaas.Interleaving
open AgentSaas.Proofs.CronRecords AgentSaas.Proofs.CronTransactions AgentSaas.Proofs.CronLedger
open AgentSaas.Proofs.InterleavingSafety

/-- The job is due for an occurrence that its ledger has, and every claim of it would be
answered as a duplicate. -/
def Stuck (job : CronJob) : Prop :=
  job.enabled = true ∧ job.state.runningRunId = none ∧
    ∃ record ∈ job.state.executionLedger, record.trigger = .schedule ∧ record.scheduledAtMs = job.state.nextRunAtMs

def Past (readMs : Int) (job : CronJob) : Prop :=
  ∀ record ∈ job.state.executionLedger, record.trigger = .schedule → record.scheduledAtMs.all (· ≤ readMs) = true

/-- An edit that arms a job lands with a reading no older than the occurrences which the
job has executed. -/
def Punctual (cron : Cron) (call : Call) (_ : Move) : Prop :=
  match call with
  | .editing (.update id patch) readMs =>
    ∀ job ∈ cron.jobs, job.id = id → patch.enabled.getD job.enabled = true → Past readMs job
  | .editing (.applySystemJobs plan) readMs =>
    ∀ planned ∈ plan.toUpdate, planned.enabled = true → ∀ job ∈ cron.jobs, job.id = planned.id → Past readMs job
  | .repairing _ _ readMs =>
    ∀ job ∈ cron.jobs, job.enabled = true → job.state.nextRunAtMs = none → Past readMs job
  | _ => True

instance (readMs : Int) (job : CronJob) : Decidable (Past readMs job) :=
  inferInstanceAs (Decidable (∀ record ∈ job.state.executionLedger, _))

instance (cron : Cron) (call : Call) (move : Move) : Decidable (Punctual cron call move) :=
  match call with
  | .editing (.update ..) _ | .repairing .. => inferInstanceAs (Decidable (∀ job ∈ cron.jobs, _))
  | .editing (.applySystemJobs plan) _ => inferInstanceAs (Decidable (∀ planned ∈ plan.toUpdate, _))
  | .editing (.add ..) _ | .editing (.transferOwner ..) _ | .editing (.remove _) _ | .editing (.removeByOwners _) _
  | .clock | .claiming .. | .claimed _ | .executing _ | .completing .. | .recovering .. | .quarantining .. | .watching _
  | .cleaning .. | .cancelling .. | .settling .. | .logging _ => isTrue trivial

/-- An executed occurrence may be the job's next one only while its run is open and no
edit came between. -/
def Unstuck (job : CronJob) : Prop :=
  job.enabled = true → ∀ record ∈ job.state.executionLedger, record.trigger = .schedule →
    record.scheduledAtMs = job.state.nextRunAtMs →
    record.terminalStatus = none ∧ record.scheduleUpdatedAtMs = some job.updatedAtMs

variable {deps : Deps} {issued : List String} {jobs : List CronJob} {job : CronJob} {record : CronExecutionRecord}

/-- The cron library returns a later time. -/
def Later (deps : Deps) : Prop := ∀ expr tz nowMs next, deps.nextRun expr tz nowMs = some next → nowMs < next

theorem computeNextRunAtMs_later (later : Later deps) {schedule : CronSchedule} {nowMs next : Int}
    (computed : computeNextRunAtMs deps schedule nowMs = some next) : nowMs < next := by
  cases schedule with
  | «at» atMs =>
    simp only [computeNextRunAtMs, Option.ite_none_right_eq_some, Option.some.injEq] at computed
    omega
  | every everyMs anchorMs =>
    simp only [computeNextRunAtMs] at computed
    split at computed
    next early =>
      cases computed
      exact early
    next =>
      cases computed
      have positive : 0 < max 1 everyMs := by omega
      have below := Int.lt_ediv_add_one_mul_self (nowMs - max 0 (anchorMs.getD nowMs)) positive
      omega
  | cron expr tz =>
    simp only [computeNextRunAtMs] at computed
    split at computed
    next => cases computed
    next => exact later _ _ _ _ computed

theorem computeJobNextRunAtMs_later (later : Later deps) {nowMs next : Int}
    (computed : computeJobNextRunAtMs deps job nowMs = some next) : nowMs < next := by
  simp only [computeJobNextRunAtMs] at computed
  split at computed
  next => exact computeNextRunAtMs_later later computed
  next => cases computed

def Named (job : CronJob) : Prop :=
  ∀ record ∈ job.state.executionLedger, record.trigger = .schedule → record.scheduledAtMs.isSome

theorem unstuck_of_next (named : Named job) {readMs : Int} (past : job.enabled = true → Past readMs job)
    (next : ∀ at', job.state.nextRunAtMs = some at' → readMs < at') : Unstuck job := by
  intro enabled record member schedule same
  obtain ⟨at', due⟩ := Option.isSome_iff_exists.mp (named record member schedule)
  have early := past enabled record member schedule
  have late := next at' (same.symm.trans due)
  simp only [due, Option.all_some, decide_eq_true_eq] at early
  omega

theorem Unstuck.mono {after : CronJob} (unstuck : Unstuck job) (enabled : after.enabled = true → job.enabled = true)
    (updatedAtMs : after.updatedAtMs = job.updatedAtMs) (next : after.state.nextRunAtMs = job.state.nextRunAtMs)
    (records : ∀ record ∈ after.state.executionLedger, record.trigger = .schedule →
      ∃ old ∈ job.state.executionLedger, old.trigger = .schedule ∧ old.scheduledAtMs = record.scheduledAtMs ∧
        old.scheduleUpdatedAtMs = record.scheduleUpdatedAtMs ∧
        (old.terminalStatus = none → record.terminalStatus = none)) : Unstuck after := by
  intro armed record member schedule same
  obtain ⟨old, present, trigger, due, edition, live⟩ := records record member schedule
  obtain ⟨open', unedited⟩ := unstuck (enabled armed) old present trigger (due.trans (same.trans next))
  exact ⟨live open', by rw [← edition, unedited, updatedAtMs]⟩

/-- How a settling transaction leaves the job's schedule: as it was if the record does not
own it, else disarmed or armed with the reading. -/
def Rearmed (job after : CronJob) (record : CronExecutionRecord) (readMs : Int) : Prop :=
  after.enabled = true → job.enabled = true ∧
    (after.state.nextRunAtMs = job.state.nextRunAtMs ∧
        ¬(record.trigger = .schedule ∧ record.scheduledAtMs = job.state.nextRunAtMs ∧
          record.scheduleUpdatedAtMs = some job.updatedAtMs) ∨
      ∀ at', after.state.nextRunAtMs = some at' → readMs < at')

theorem unstuck_of_rearmed (valid : Valid issued job.state) (unstuck : Unstuck job) (named : Named job) {runId : String}
    (found : job.findRecord runId = some record) (live : record.terminalStatus = none) {readMs : Int}
    (past : Past readMs job) {after : CronJob} (rearmed : Rearmed job after record readMs) (settle : CronExecutionRecord → CronExecutionRecord)
    (same : ∀ old, (settle old).trigger = old.trigger ∧ (settle old).scheduledAtMs = old.scheduledAtMs)
    (ledger : after.state.executionLedger = updateFirst (·.runId = runId) settle job.state.executionLedger) :
    Unstuck after := by
  obtain ⟨member, matched⟩ := findRecord_spec found
  intro enabled other present schedule due
  obtain ⟨armed, kept | fresh⟩ := rearmed enabled
  · obtain ⟨next, foreign⟩ := kept
    rw [ledger] at present
    obtain ⟨old, different⟩ | ⟨old, old', run, rfl⟩ := mem_updateRecord valid.runs present
    · -- Any other record has ended, so that it was not the next one before.
      have open' := (unstuck armed other old schedule (due.trans next)).1
      have one := (valid.held other old open').run.symm.trans (valid.held record member live).run
      exact absurd ((Option.some.inj one).trans matched) different
    · cases valid.record_eq old' member (run.trans matched.symm)
      rw [(same record).1] at schedule
      rw [(same record).2] at due
      exact absurd ⟨schedule, due.trans next, (unstuck armed record member schedule (due.trans next)).2⟩ foreign
  · obtain ⟨old, old', trigger, occurrence⟩ : ∃ old ∈ job.state.executionLedger, old.trigger = other.trigger ∧
        old.scheduledAtMs = other.scheduledAtMs := by
      rw [ledger] at present
      obtain ⟨old, _⟩ | ⟨old, old', _, rfl⟩ := mem_updateRecord valid.runs present
      · exact ⟨other, old, rfl, rfl⟩
      · exact ⟨old, old', (same old).1.symm, (same old).2.symm⟩
    obtain ⟨at', when'⟩ := Option.isSome_iff_exists.mp (named old old' (trigger.trans schedule))
    have early := past old old' (trigger.trans schedule)
    have late := fresh at' (due.symm.trans (occurrence.symm.trans when'))
    simp only [when', Option.all_some, decide_eq_true_eq] at early
    omega

theorem advanceSchedule_rearmed (later : Later deps) {claim : ClaimedJob} (ending : Ending)
    (trigger : record.trigger = claim.trigger) (due : record.scheduledAtMs = claim.scheduledAtMs)
    (edition : record.scheduleUpdatedAtMs = some claim.claimedUpdatedAtMs)
    (forced : claim.forced = decide (claim.trigger ≠ .schedule)) :
    Rearmed job (advanceSchedule deps claim ending job) record ending.endedAtMs := by
  unfold Rearmed advanceSchedule
  split
  next edited =>
    refine fun enabled => ⟨enabled, .inl ⟨rfl, fun ⟨_, _, same⟩ => edited ?_⟩⟩
    exact Option.some.inj (same.symm.trans edition)
  split
  next =>
    refine fun enabled => ⟨?_, .inr fun at' same => by cases same⟩
    cases status : ending.status <;> simp_all
  next other =>
    split
    next => exact fun enabled => ⟨enabled, .inr fun at' computed => computeJobNextRunAtMs_later later computed⟩
    next kept =>
      refine fun enabled => ⟨enabled, .inl ⟨rfl, fun ⟨schedule, same, _⟩ => ?_⟩⟩
      rw [trigger] at schedule
      rw [due] at same
      simp_all

theorem watchdogSchedule_rearmed (later : Later deps) (candidate : WatchdogCandidate) (nowMs : Int)
    (edition : record.scheduleUpdatedAtMs.isSome) :
    Rearmed job (watchdogSchedule deps candidate record nowMs job) record nowMs := by
  obtain ⟨updatedAtMs, edition⟩ := Option.isSome_iff_exists.mp edition
  simp only [Rearmed, watchdogSchedule, scheduleFenceUpdatedAtMs, edition, Option.getD_some]
  split
  next => exact fun enabled => ⟨enabled, .inr fun at' same => by cases same⟩
  next other =>
    split
    next => exact fun enabled => ⟨enabled, .inr fun at' computed => computeJobNextRunAtMs_later later computed⟩
    next kept =>
      refine fun enabled => ⟨enabled, .inl ⟨rfl, fun unchanged => ?_⟩⟩
      obtain ⟨schedule, same, unedited⟩ := unchanged
      simp_all

theorem settleSchedule_rearmed (later : Later deps) (snapshot : CronJob) (status : TerminalStatus) (endedAtMs : Int)
    (edition : record.scheduleUpdatedAtMs.isSome) :
    Rearmed job (settleSchedule deps snapshot record status endedAtMs job) record endedAtMs := by
  obtain ⟨updatedAtMs, edition⟩ := Option.isSome_iff_exists.mp edition
  simp only [Rearmed, settleSchedule, scheduleFenceUpdatedAtMs, edition, Option.getD_some]
  split
  next =>
    refine fun enabled => ⟨?_, .inr fun at' same => by cases same⟩
    cases status <;> simp_all
  next other =>
    split
    next => exact fun enabled => ⟨enabled, .inr fun at' computed => computeJobNextRunAtMs_later later computed⟩
    next kept =>
      refine fun enabled => ⟨enabled, .inl ⟨rfl, fun unchanged => ?_⟩⟩
      obtain ⟨schedule, same, unedited⟩ := unchanged
      simp_all

def Armed (jobs : List CronJob) : Prop := ∀ job ∈ jobs, Unstuck job

def Due (nowMs : Int) (jobs : List CronJob) : Prop :=
  ∀ record, Stored jobs record → record.trigger = .schedule → ∃ at', record.scheduledAtMs = some at' ∧ at' ≤ nowMs

theorem Due.named {nowMs : Int} (due : Due nowMs jobs) (member : job ∈ jobs) : Named job := by
  intro record recorded schedule
  obtain ⟨at', same, _⟩ := due record ⟨job, member, recorded⟩ schedule
  simp [same]

theorem Due.past {nowMs : Int} (due : Due nowMs jobs) (member : job ∈ jobs) : Past nowMs job := by
  intro record recorded schedule
  obtain ⟨at', same, early⟩ := due record ⟨job, member, recorded⟩ schedule
  simpa [same] using early

theorem Due.advances {nowMs : Int} {fresh : List String} {marked : Option String} {after : List CronJob}
    (due : Due nowMs jobs) (advances : Advances issued fresh marked jobs after)
    (new : ∀ record, Stored after record → New issued record → record.trigger = .schedule →
      ∃ at', record.scheduledAtMs = some at' ∧ at' ≤ nowMs) : Due nowMs after := by
  intro record stored schedule
  obtain ⟨old, present, follows⟩ | fresh := advances.records stored
  · rw [follows.scheduledAtMs]
    exact due old present (follows.trigger.symm.trans schedule)
  · exact new record stored fresh schedule

theorem Due.settled {nowMs : Int} {marked : Option String} {after : List CronJob} (due : Due nowMs jobs)
    (advances : Advances issued [] marked jobs after) : Due nowMs after :=
  due.advances advances fun _ stored new => absurd (advances.consistent.ids_issued stored).1 new.run

theorem Due.kept {nowMs : Int} {after : List CronJob} (due : Due nowMs jobs) (keeps : Keeps issued jobs after) :
    Due nowMs after := by
  have advances : Advances issued [] none jobs after := keeps.advances
  exact due.settled advances

theorem armed_update {id : String} {change : CronJob → CronJob} (armed : Armed jobs)
    (found : findJob jobs id = some job) (unstuck : Unstuck (change job)) : Armed (updateJob jobs id change) := by
  obtain ⟨before, after, rfl, updated⟩ := updateFirst_split found
  rw [updateJob, updated]
  intro other member
  simp only [List.mem_append, List.mem_cons] at member
  rcases member with earlier | rfl | later
  · exact armed other (by simp [earlier])
  · exact unstuck
  · exact armed other (by simp [later])

theorem armed_clear {id : String} (armed : Armed jobs) : Armed (updateJob jobs id clearActiveExecution) := by
  intro job member
  rcases mem_updateFirst member with kept | ⟨old, present, _, rfl⟩
  · exact armed job kept
  · exact (armed old present).mono (fun same => same) rfl rfl fun record recorded schedule =>
      ⟨record, recorded, schedule, rfl, rfl, fun live => live⟩

theorem armed_settle {nowMs readMs : Int} {id runId : String} {change : CronJob → CronJob} (status : TerminalStatus)
    (endedAtMs : Int) (consistent : Consistent issued jobs) (armed : Armed jobs) (due : Due nowMs jobs)
    (found : findJob jobs id = some job) (recorded : job.findRecord runId = some record)
    (live : record.terminalStatus = none) (past : Past readMs job) (rearmed : Rearmed job (change job) record readMs)
    (ledger : (change job).state.executionLedger =
      updateFirst (·.runId = runId) (settleRecord status endedAtMs) job.state.executionLedger) :
    Armed (updateJob jobs id change) := by
  have member := findJob_mem found
  refine armed_update armed found ?_
  exact unstuck_of_rearmed (consistent.valid job member) (armed job member) (due.named member) recorded live past rearmed
    (settleRecord status endedAtMs) (fun _ => ⟨rfl, rfl⟩) ledger

structure Faithful (issued : List String) (jobs : List CronJob) (claim : ClaimedJob) : Prop where
  known : claim.runId ∈ issued
  forced : claim.forced = decide (claim.trigger ≠ .schedule)
  records : ∀ record, Stored jobs record → record.runId = claim.runId → record.trigger = claim.trigger ∧
    record.scheduledAtMs = claim.scheduledAtMs ∧ record.scheduleUpdatedAtMs = some claim.claimedUpdatedAtMs

/-- The reading is not older than any occurrence of the job, while the run is open. -/
structure Timely (issued : List String) (jobs : List CronJob) (runId : String) (readMs : Int) : Prop where
  known : runId ∈ issued
  past : ∀ job ∈ jobs, ∀ record ∈ job.state.executionLedger, record.runId = runId → record.terminalStatus = none →
    Past readMs job

section
variable {fresh : List String} {marked : Option String} {after : List CronJob} {nowMs : Int}

theorem Faithful.advances {claim : ClaimedJob} (faithful : Faithful issued jobs claim)
    (advances : Advances issued fresh marked jobs after) : Faithful (fresh ++ issued) after claim := by
  refine ⟨List.mem_append_right _ faithful.known, faithful.forced, fun record stored same => ?_⟩
  obtain ⟨old, present, follows⟩ | new := advances.records stored
  · obtain ⟨trigger, due, edition⟩ := faithful.records old present (follows.runId.symm.trans same)
    exact ⟨follows.trigger.trans trigger, follows.scheduledAtMs.trans due, follows.edition.trans edition⟩
  · exact absurd (same ▸ faithful.known) new.run

theorem Timely.advances {runId : String} {readMs : Int} (timely : Timely issued jobs runId readMs)
    (advances : Advances issued fresh marked jobs after) : Timely (fresh ++ issued) after runId readMs := by
  refine ⟨List.mem_append_right _ timely.known, fun job member record recorded same live => ?_⟩
  obtain empty | ⟨old, present, extended⟩ := advances.ledgers job member
  · rw [empty] at recorded
    cases recorded
  obtain ⟨source, kept, follows⟩ | ⟨new, _⟩ := extended record recorded
  · have open' : source.terminalStatus = none := by
      cases ended : source.terminalStatus with
      | none => rfl
      | some status => exact absurd (follows.settled status ended) (by simp [live])
    have past := timely.past old present source kept (follows.runId.symm.trans same) open'
    intro other recorded schedule
    obtain ⟨before, also, later⟩ | ⟨_, closed⟩ := extended other recorded
    · rw [later.scheduledAtMs]
      exact past before also (later.trigger.symm.trans schedule)
    · exact absurd open' (closed source kept)
  · exact absurd (same ▸ timely.known) new.run

theorem Timely.now {runId : String} (known : runId ∈ issued) (due : Due nowMs jobs) : Timely issued jobs runId nowMs :=
  ⟨known, fun _ member _ _ _ _ => due.past member⟩

theorem releaseClaim_armed (armed : Armed jobs) (claim : ClaimedJob) : Armed (releaseClaim claim jobs) := by
  simp only [releaseClaim]
  split
  next => exact armed
  next job found =>
    split
    next => exact armed
    next =>
      refine armed_update armed found ((armed job (findJob_mem found)).mono (fun same => same) rfl rfl ?_)
      intro record member schedule
      refine ⟨record, ?_, schedule, rfl, rfl, fun live => live⟩
      simp only [clearActiveExecution] at member
      split at member
      · exact List.eraseP_sublist.subset member
      · exact member

theorem markCronClaimRunning_armed (consistent : Consistent issued jobs) (armed : Armed jobs) (claim : ClaimedJob)
    (nowMs : Int) : Armed (markCronClaimRunning claim nowMs jobs).1 := by
  simp only [markCronClaimRunning]
  split
  next => exact armed
  next job found =>
    split
    next => exact armed
    next =>
      split
      next => exact armed
      next =>
        have member := findJob_mem found
        refine armed_update armed found ((armed job member).mono (fun same => same) rfl rfl ?_)
        intro record recorded schedule
        obtain ⟨kept, _⟩ | ⟨old, kept, _, rfl⟩ := mem_updateRecord (consistent.valid job member).runs recorded
        · exact ⟨record, kept, schedule, rfl, rfl, fun live => live⟩
        · exact ⟨old, kept, schedule, rfl, rfl, fun live => live⟩

theorem recoveredJob_armed {process : Process} {uuids : Uuids} {recoveredAtMs : Int} {id runId : String}
    {expectedLeaseId : Option String} (consistent : Consistent issued jobs) (armed : Armed jobs)
    (recovered : Recovered jobs id runId expectedLeaseId job record) :
    Armed (updateJob jobs id fun _ => recoveredJob deps process uuids recoveredAtMs job record) := by
  have member := findJob_mem recovered.found
  have valid := consistent.valid job member
  obtain ⟨present, _⟩ := findRecord_spec recovered.recorded
  refine armed_update armed recovered.found ((armed job member).mono (fun same => same) rfl rfl ?_)
  intro after recorded schedule
  obtain ⟨kept, _⟩ | ⟨old, kept, same, rfl⟩ := mem_updateRecord valid.runs recorded
  · exact ⟨after, kept, schedule, rfl, rfl, fun live => live⟩
  · exact ⟨record, present, schedule, rfl, rfl, fun _ => rfl⟩

theorem grantClaim_armed {process : Process} {uuids : Uuids} {claimedAtMs : Int} {id idempotencyKey : String}
    {invocation : ExecutionInvocation} (armed : Armed jobs)
    (granted : Granted jobs id invocation idempotencyKey claimedAtMs job) :
    Armed (updateJob jobs id fun _ => (grantClaim deps job invocation idempotencyKey process uuids claimedAtMs).1) := by
  refine armed_update armed granted.found ?_
  intro enabled after recorded schedule due
  rcases List.mem_append.mp recorded with old | new
  · exact armed job (findJob_mem granted.found) enabled after old schedule due
  · rw [List.mem_singleton.mp new]
    exact ⟨rfl, rfl⟩

theorem completeClaim_armed (later : Later deps) (consistent : Consistent issued jobs) (armed : Armed jobs)
    (due : Due nowMs jobs) {claim : ClaimedJob} {ending : Ending} (faithful : Faithful issued jobs claim)
    (timely : Timely issued jobs claim.runId ending.endedAtMs) : Armed (completeClaim deps claim ending jobs).1 := by
  simp only [completeClaim]
  split
  next => exact armed
  next job found =>
    split
    next => exact armed
    next =>
      split
      next => exact armed
      next record held =>
        split
        next => exact armed_clear armed
        next open' =>
          split
          next => exact armed_clear armed
          next =>
            have recorded := (Option.filter_eq_some_iff.mp held).1
            have live : record.terminalStatus = none := by simpa using open'
            obtain ⟨member, named⟩ := findRecord_spec recorded
            obtain ⟨trigger, occurrence, edition⟩ := faithful.records record ⟨job, findJob_mem found, member⟩ named
            refine armed_settle ending.status ending.endedAtMs consistent armed due found recorded live
              (timely.past job (findJob_mem found) record member named live)
              (advanceSchedule_rearmed later ending trigger occurrence edition faithful.forced) ?_
            exact congrArg (·.executionLedger) (advanceSchedule_same ..)

theorem checkStaleJob_armed (later : Later deps) (consistent : Consistent issued jobs) (armed : Armed jobs)
    (due : Due nowMs jobs) {candidate : WatchdogCandidate} {readMs : Int}
    (timely : ∀ runId, candidate.runningRunId = some runId → Timely issued jobs runId readMs) :
    Armed (checkStaleJob deps candidate readMs jobs).1 := by
  simp only [checkStaleJob]
  split
  next => exact armed
  next job found =>
    split
    next => exact armed
    next =>
      split
      next => exact armed
      next runId running =>
        split
        next => exact armed
        next record held =>
          obtain ⟨recorded, accepted⟩ := Option.filter_eq_some_iff.mp held
          have live := Option.isNone_iff_eq_none.mp (Bool.and_eq_true_iff.mp accepted).2
          obtain ⟨member, named⟩ := findRecord_spec recorded
          have valid := consistent.valid job (findJob_mem found)
          refine armed_settle .error readMs consistent armed due found recorded live
            ((timely runId running).past job (findJob_mem found) record member named live)
            (watchdogSchedule_rearmed later candidate readMs (valid.edition record member)) ?_
          have same := watchdogSchedule_same deps candidate record readMs (clearActiveExecution job)
          exact congrArg (·.executionLedger) (same.setRecord runId (settleRecord .error readMs))

theorem settleExplicitCancellation_armed (later : Later deps) (consistent : Consistent issued jobs) (armed : Armed jobs)
    (due : Due nowMs jobs) {snapshot : CronJob} {runId : String} {status : TerminalStatus} {endedAtMs : Int}
    (timely : Timely issued jobs runId endedAtMs) :
    Armed (settleExplicitCancellation deps snapshot runId status endedAtMs jobs).1 := by
  simp only [settleExplicitCancellation]
  split
  next => exact armed
  next job found =>
    split
    next => exact armed
    next record held =>
      obtain ⟨recorded, accepted⟩ := Option.filter_eq_some_iff.mp held
      have live := Option.isNone_iff_eq_none.mp accepted
      obtain ⟨member, named⟩ := findRecord_spec recorded
      have valid := consistent.valid job (findJob_mem found)
      refine armed_settle status endedAtMs consistent armed due found recorded live
        (timely.past job (findJob_mem found) record member named live)
        (settleSchedule_rearmed later snapshot status endedAtMs (valid.edition record member)) ?_
      exact congrArg (·.executionLedger) (settleSchedule_same ..)

theorem quarantineLegacyOrphan_armed (armed : Armed jobs) (claim : ClaimedJob) (endedAtMs : Int) :
    Armed (quarantineLegacyOrphan claim endedAtMs jobs).1 := by
  simp only [quarantineLegacyOrphan]
  split
  next => exact armed
  next job found =>
    split
    next => exact armed
    next =>
      split
      next => exact armed
      next =>
        refine armed_update armed found fun enabled => ?_
        cases enabled

theorem rearm_unstuck (later : Later deps) {readMs : Int} (named : Named job) (past : job.enabled = true → Past readMs job) :
    Unstuck (job.rearm deps readMs) := by
  have named' : Named (job.rearm deps readMs) := named
  exact unstuck_of_next named' past fun _ computed => computeJobNextRunAtMs_later later computed

theorem armed_append (armed : Armed jobs) (empty : job.state.executionLedger = []) : Armed (jobs ++ [job]) := by
  intro other member
  rcases List.mem_append.mp member with old | new
  · exact armed other old
  · rw [List.mem_singleton.mp new]
    intro _ record recorded
    rw [empty] at recorded
    cases recorded

theorem patchJob_unstuck (later : Later deps) (named : Named job) {patch : CronJobPatch} {payload : CronPayload}
    {readMs : Int} (past : patch.enabled.getD job.enabled = true → Past readMs job) :
    Unstuck (patchJob deps job patch payload readMs) :=
  rearm_unstuck later named past

structure Ready (plan : SystemPlan) (nowMs readMs : Int) (jobs : List CronJob) : Prop where
  armed : Armed jobs
  due : Due nowMs jobs
  past : ∀ planned ∈ plan.toUpdate, planned.enabled = true → ∀ job ∈ jobs, job.id = planned.id → Past readMs job

theorem createSystemJob_ready (deps : Deps) {plan : SystemPlan} {readMs : Int} (ready : Ready plan nowMs readMs jobs) {planned : CronJob}
    (empty : planned.state = .empty) : Ready plan nowMs readMs (createSystemJob deps readMs jobs planned) := by
  simp only [createSystemJob]
  split
  · exact ready
  · have ledger : (if planned.enabled then planned.rearm deps readMs else planned).state.executionLedger = [] := by
      split <;> simp [CronJob.rearm, CronJob.setNextRun, empty, CronJobState.empty]
    refine ⟨armed_append ready.armed ledger, fun record ran => ?_, fun other listed enabled job member same record recorded => ?_⟩
    · obtain ⟨job, member, recorded⟩ := ran
      rcases List.mem_append.mp member with old | new
      · exact ready.due record ⟨job, old, recorded⟩
      · rw [List.mem_singleton.mp new, ledger] at recorded
        cases recorded
    · rcases List.mem_append.mp member with old | new
      · exact ready.past other listed enabled job old same record recorded
      · rw [List.mem_singleton.mp new, ledger] at recorded
        cases recorded

theorem updateSystemJob_ready (later : Later deps) {plan : SystemPlan} {readMs : Int}
    (ready : Ready plan nowMs readMs jobs) {planned : CronJob} (listed : planned ∈ plan.toUpdate) :
    Ready plan nowMs readMs (updateSystemJob deps readMs jobs planned) := by
  have each (job : CronJob) (member : job ∈ updateSystemJob deps readMs jobs planned) :
      Unstuck job ∧ ∃ old ∈ jobs, job.id = old.id ∧ job.state.executionLedger = old.state.executionLedger := by
    rcases mem_updateFirst member with kept | ⟨old, present, same, rfl⟩
    · exact ⟨ready.armed job kept, job, kept, rfl, rfl⟩
    · refine ⟨?_, old, present, ?_⟩
      · split
        · exact ready.armed old present
        · have named : Named old := ready.due.named present
          refine rearm_unstuck later ?_ fun enabled => ?_
          · exact named
          · exact ready.past planned listed enabled old present (of_decide_eq_true same)
      · split <;> exact ⟨rfl, rfl⟩
  refine ⟨fun job member => (each job member).1, fun record ⟨job, member, recorded⟩ => ?_,
    fun other also enabled job member same record recorded => ?_⟩
  · obtain ⟨_, old, present, _, ledger⟩ := each job member
    exact ready.due record ⟨old, present, ledger ▸ recorded⟩
  · obtain ⟨_, old, present, id, ledger⟩ := each job member
    exact ready.past other also enabled old present (id.symm.trans same) record (ledger ▸ recorded)

theorem foldl_ready {plan : SystemPlan} {readMs : Int} {step : List CronJob → CronJob → List CronJob}
    {items : List CronJob} (each : ∀ jobs, Ready plan nowMs readMs jobs → ∀ item ∈ items,
      Ready plan nowMs readMs (step jobs item)) (ready : Ready plan nowMs readMs jobs) :
    Ready plan nowMs readMs (items.foldl step jobs) := by
  induction items generalizing jobs with
  | nil => exact ready
  | cons item rest ih =>
    exact ih (fun jobs ready item member => each jobs ready item (List.mem_cons_of_mem _ member))
      (each jobs ready item (List.mem_cons_self ..))

theorem edit_armed (later : Later deps) {cron : Cron} (armed : Armed cron.jobs) (due : Due cron.nowMs cron.jobs)
    {edit : Edit} {readMs : Int} (punctual : Punctual cron (.editing edit readMs) .commit)
    (planned : ∀ plan, edit = .applySystemJobs plan → ∀ job ∈ plan.toCreate, job.state = .empty)
    (applied : edit.apply deps readMs cron.nowMs cron.jobs = some after) : Armed after := by
  cases edit with
  | add id create =>
    cases applied
    exact armed_append armed rfl
  | update id patch =>
    simp only [Edit.apply, Cron.update] at applied
    split at applied
    next =>
      cases applied
      exact armed
    next job found =>
      split at applied
      next => cases applied
      next =>
        obtain ⟨payload, _, rfl⟩ := Option.map_eq_some_iff.mp applied
        have member := findJob_mem found
        have same : job.id = id := by simpa using List.find?_some found
        exact armed_update armed found (patchJob_unstuck later (due.named member) (punctual job member same))
  | applySystemJobs plan =>
    cases applied
    have ready : Ready plan cron.nowMs readMs cron.jobs := ⟨armed, due, punctual⟩
    have created := foldl_ready (fun jobs ready job member =>
      createSystemJob_ready deps ready (planned plan rfl job member)) ready
    exact (foldl_ready (fun jobs ready job listed => updateSystemJob_ready later ready listed) created).armed
  | transferOwner id expectedOwner owner =>
    simp only [Edit.apply, transferCronJobOwner] at applied
    split at applied
    next =>
      cases applied
      exact armed
    next job found =>
      split at applied
      next => cases applied
      next =>
        cases applied
        refine armed_update armed found fun enabled => ?_
        cases enabled
  | remove id =>
    simp only [Edit.apply, Cron.remove] at applied
    split at applied
    next => cases applied
    next =>
      cases applied
      exact fun job member => armed job (List.eraseP_sublist.subset member)
  | removeByOwners owners =>
    cases applied
    exact fun job member => armed job (List.mem_of_mem_filter member)

theorem normalizeStoredJob_unstuck (later : Later deps) {process : Process} {isProcessAlive : Int → Bool} {readMs : Int}
    (unstuck : Unstuck job) (named : Named job)
    (past : job.enabled = true → job.state.nextRunAtMs = none → Past readMs job) :
    Unstuck (normalizeStoredJob deps process isProcessAlive readMs job) := by
  have freed : (freedJob process isProcessAlive readMs job).enabled = job.enabled ∧
      (freedJob process isProcessAlive readMs job).updatedAtMs = job.updatedAtMs ∧
      (freedJob process isProcessAlive readMs job).state.nextRunAtMs = job.state.nextRunAtMs ∧
      (freedJob process isProcessAlive readMs job).state.executionLedger = job.state.executionLedger := by
    have base : (normalizeEverySchedule job readMs).enabled = job.enabled ∧
        (normalizeEverySchedule job readMs).updatedAtMs = job.updatedAtMs := by
      simp only [normalizeEverySchedule]
      split <;> exact ⟨rfl, rfl⟩
    have state := normalizeEverySchedule_state job readMs
    simp only [freedJob]
    split
    · exact ⟨base.1, base.2, congrArg (·.nextRunAtMs) state, congrArg (·.executionLedger) state⟩
    · exact ⟨base.1, base.2, congrArg (·.nextRunAtMs) state, congrArg (·.executionLedger) state⟩
  obtain ⟨enabled, updatedAtMs, next, ledger⟩ := freed
  rw [normalizeStoredJob_eq]
  split
  next armed =>
    simp only [Bool.and_eq_true, Option.isNone_iff_eq_none, enabled, next] at armed
    refine rearm_unstuck later ?_ fun _ => ?_
    · intro record recorded
      exact named record (ledger ▸ recorded)
    · intro record recorded
      exact past armed.1 armed.2 record (ledger ▸ recorded)
  next =>
    refine unstuck.mono (fun same => enabled ▸ same) updatedAtMs next fun record recorded schedule => ?_
    exact ⟨record, ledger ▸ recorded, schedule, rfl, rfl, fun live => live⟩

end

variable {cron after : Cron} {call : Call} {move : Move} {rest : Option Call}

structure Timed (cron : Cron) : Prop where
  shared : Shared cron
  armed : Armed cron.jobs
  due : Due cron.nowMs cron.jobs

def Knows (cron : Cron) : Call → Prop
  | .claiming _ _ _ _ claimedAtMs => claimedAtMs ≤ cron.nowMs
  | .claimed claim | .executing claim | .quarantining claim _ => Faithful cron.issued cron.jobs claim
  | .completing claim ending =>
    Faithful cron.issued cron.jobs claim ∧ Timely cron.issued cron.jobs claim.runId ending.endedAtMs
  | .watching candidate => ∀ runId, candidate.runningRunId = some runId → runId ∈ cron.issued
  | .cleaning candidate nowMs =>
    ∀ runId, candidate.runningRunId = some runId → Timely cron.issued cron.jobs runId nowMs
  | .cancelling _ runId => runId ∈ cron.issued
  | .settling _ runId _ endedAtMs => Timely cron.issued cron.jobs runId endedAtMs
  | _ => True

theorem Knows.advances {fresh : List String} {marked : Option String} {other : Call}
    (advances : Advances cron.issued fresh marked cron.jobs after.jobs) (issued : after.issued = fresh ++ cron.issued)
    (now : cron.nowMs ≤ after.nowMs) (knows : Knows cron other) : Knows after other := by
  have faithful {claim : ClaimedJob} (known : Faithful cron.issued cron.jobs claim) :
      Faithful after.issued after.jobs claim := issued ▸ known.advances advances
  have timely {runId : String} {readMs : Int} (known : Timely cron.issued cron.jobs runId readMs) :
      Timely after.issued after.jobs runId readMs := issued ▸ known.advances advances
  have named {runId : String} (known : runId ∈ cron.issued) : runId ∈ after.issued :=
    issued ▸ List.mem_append_right _ known
  cases other with
  | claiming => exact Int.le_trans knows now
  | claimed | executing | quarantining => exact faithful knows
  | completing => exact ⟨faithful knows.1, timely knows.2⟩
  | watching => exact fun runId running => named (knows runId running)
  | cleaning => exact fun runId running => timely (knows runId running)
  | cancelling => exact named knows
  | settling => exact timely knows
  | _ => trivial

theorem advance_now (moved : advance deps cron call move = some (after, rest)) : cron.nowMs ≤ after.nowMs := by
  unfold advance at moved
  split at moved
  case h_1 =>
    split at moved
    next early =>
      cases moved
      exact early
    next => cases moved
  all_goals
    first
    | (cases moved; done)
    | (cases moved; exact Int.le_refl _)
    | (split at moved <;> cases moved <;> exact Int.le_refl _)

theorem claimCronJob_timed (deps : Deps) (process : Process) {uuids : Uuids} (timed : Timed cron) {claimedAtMs : Int}
    (recent : claimedAtMs ≤ cron.nowMs) (newRun : cronRunId claimedAtMs uuids ∉ cron.issued)
    (newLease : uuids.lease ∉ cron.issued) (schedulerActive : Bool) (id : String) (invocation : ExecutionInvocation)
    (idempotencyKey : String) :
    let outcome := claimCronJob deps process uuids schedulerActive id invocation idempotencyKey claimedAtMs cron.jobs
    Armed outcome.1 ∧ Due cron.nowMs outcome.1 ∧ ∀ claim, outcome.2 = .claim claim →
      Faithful (cronRunId claimedAtMs uuids :: uuids.lease :: cron.issued) outcome.1 claim := by
  intro outcome
  have advances := claimCronJob_advances deps process timed.shared.consistent newRun newLease schedulerActive id
    invocation idempotencyKey
  obtain ⟨same, refused⟩ | ⟨job, granted, changed, value⟩ :=
    claimCronJob_cases deps process uuids schedulerActive id invocation idempotencyKey claimedAtMs cron.jobs
  · rw [same]
    exact ⟨timed.armed, timed.due, fun claim produced => absurd produced (refused claim)⟩
  rw [changed] at advances ⊢
  refine ⟨grantClaim_armed timed.armed granted, fun record ⟨holder, member, recorded⟩ schedule => ?_,
    fun claim produced => ?_⟩
  · rcases mem_updateFirst member with kept | ⟨_, _, _, rfl⟩
    · exact timed.due record ⟨holder, kept, recorded⟩ schedule
    · rcases List.mem_append.mp recorded with old | new
      · exact timed.due record ⟨job, findJob_mem granted.found, old⟩ schedule
      · rw [List.mem_singleton.mp new] at schedule ⊢
        obtain ⟨at', _, due, early⟩ := granted.due schedule
        exact ⟨at', due, by omega⟩
  · cases value.symm.trans produced
    refine ⟨List.mem_cons_self .., rfl, fun record stored same => ?_⟩
    have recorded : Stored (updateJob cron.jobs id fun _ =>
          (grantClaim deps job invocation idempotencyKey process uuids claimedAtMs).1)
        (leaseRecord process uuids.lease claimedAtMs false
          (newExecution deps job invocation idempotencyKey process uuids claimedAtMs)) :=
      ⟨_, mem_updated granted.found _, List.mem_append_right _ (List.mem_singleton.mpr rfl)⟩
    rw [advances.consistent.record_eq stored recorded same]
    exact ⟨rfl, rfl, rfl⟩

theorem recoverCronClaim_timed (deps : Deps) (process : Process) {uuids : Uuids} (timed : Timed cron)
    (newLease : uuids.lease ∉ cron.issued) (id runId : String) (expectedLeaseId : Option String) (recoveredAtMs : Int) :
    let outcome := recoverCronClaim deps process uuids id runId expectedLeaseId recoveredAtMs cron.jobs
    Armed outcome.1 ∧ Due cron.nowMs outcome.1 ∧ ∀ claim, outcome.2.claim = some claim →
      Faithful (uuids.lease :: cron.issued) outcome.1 claim := by
  intro outcome
  have consistent := timed.shared.consistent
  obtain ⟨refused, advances, same⟩ | ⟨job, record, recovered, changed, value⟩ :=
    recoverCronClaim_cases deps process uuids consistent id runId expectedLeaseId recoveredAtMs
  · refine ⟨?_, ?_, fun claim produced => by cases refused.symm.trans produced⟩
    · rcases same with same | same
      · exact same ▸ timed.armed
      · exact same ▸ armed_clear timed.armed
    · intro other ⟨holder, member, recorded⟩
      have kept : ∃ old ∈ cron.jobs, holder.state.executionLedger = old.state.executionLedger := by
        rcases same with same | same
        · exact ⟨holder, same ▸ member, rfl⟩
        · rw [same] at member
          rcases mem_updateFirst member with kept | ⟨old, present, _, rfl⟩
          · exact ⟨holder, kept, rfl⟩
          · exact ⟨old, present, rfl⟩
      obtain ⟨old, present, ledger⟩ := kept
      exact timed.due other ⟨old, present, ledger ▸ recorded⟩
  have advances := recoveredJob_advances deps process recoveredAtMs consistent newLease recovered
  have valid := consistent.valid job (findJob_mem recovered.found)
  obtain ⟨member, named⟩ := findRecord_spec recovered.recorded
  have stored : Stored cron.jobs record := ⟨job, findJob_mem recovered.found, member⟩
  rw [changed]
  refine ⟨recoveredJob_armed consistent timed.armed recovered, ?_, fun claim produced => ?_⟩
  · intro other ⟨holder, present, recorded⟩ schedule
    rcases mem_updateFirst present with kept | ⟨_, _, _, rfl⟩
    · exact timed.due other ⟨holder, kept, recorded⟩ schedule
    · obtain ⟨kept, _⟩ | ⟨old, kept, same, rfl⟩ := mem_updateRecord valid.runs recorded
      · exact timed.due other ⟨job, findJob_mem recovered.found, kept⟩ schedule
      · exact timed.due record stored schedule
  · cases value.symm.trans produced
    obtain ⟨updatedAtMs, edition⟩ := Option.isSome_iff_exists.mp (valid.edition record member)
    refine ⟨List.mem_cons_of_mem _ (consistent.ids_issued stored).1, rfl, fun other present same => ?_⟩
    have leased : Stored (updateJob cron.jobs id fun _ => recoveredJob deps process uuids recoveredAtMs job record)
        (leaseRecord process uuids.lease recoveredAtMs true record) := by
      refine ⟨_, mem_updated recovered.found _, ?_⟩
      apply mem_setRecord
      exact (named ▸ recovered.recorded : job.findRecord record.runId = some record)
    rw [advances.consistent.record_eq present leased same]
    refine ⟨rfl, rfl, ?_⟩
    simp [claimSnapshot, scheduleFenceUpdatedAtMs, leaseRecord, edition]

structure OnTime (after : Cron) (rest : Option Call) : Prop where
  armed : Armed after.jobs
  due : Due after.nowMs after.jobs
  knows : ∀ next, rest = some next → Knows after next

theorem OnTime.of_outcome {outcome : List CronJob × Option CronRunLogEntry} (due : Due cron.nowMs cron.jobs)
    (done : Outcome cron.issued cron.jobs outcome) (armed : Armed outcome.1) :
    OnTime (settled cron outcome).1 (settled cron outcome).2 := by
  refine ⟨armed, due.settled done.advances, fun next going => ?_⟩
  obtain ⟨entry, _, rfl⟩ := Option.map_eq_some_iff.mp going
  trivial

theorem advance_onTime (later : Later deps) (timed : Timed cron) (asserted : Asserted cron call) (knows : Knows cron call)
    (punctual : Punctual cron call move) (moved : advance deps cron call move = some (after, rest)) :
    OnTime after rest := by
  obtain ⟨shared, armed, due⟩ := timed
  have consistent := shared.consistent
  cases call with
  | clock =>
    cases move <;> simp only [advance, reduceCtorEq] at moved
    split at moved <;> cases moved
    next early =>
      refine ⟨armed, fun record stored schedule => ?_, fun next going => by cases going; trivial⟩
      obtain ⟨at', same, before⟩ := due record stored schedule
      exact ⟨at', same, Int.le_trans before early⟩
  | claiming process id invocation idempotencyKey claimedAtMs =>
    cases move <;> simp only [advance, reduceCtorEq] at moved
    split at moved <;> cases moved
    next new =>
      simp only [Bool.or_eq_true, List.contains_eq_mem, decide_eq_true_eq, not_or] at new
      obtain ⟨armed, due, faithful⟩ := claimCronJob_timed deps process ⟨shared, armed, due⟩ knows new.1 new.2 _ id
        invocation idempotencyKey
      refine ⟨armed, due, fun next going => ?_⟩
      split at going <;> cases going
      next claim produced => exact faithful claim produced
  | claimed claim =>
    cases move <;> simp only [advance, reduceCtorEq] at moved
    case release =>
      split at moved <;> cases moved
      exact ⟨releaseClaim_armed armed claim, due.settled (releaseClaim_advances consistent asserted.2),
        fun next going => by cases going⟩
    case mark =>
      split at moved <;> cases moved
      have advances := markCronClaimRunning_advances consistent claim cron.nowMs
      refine ⟨markCronClaimRunning_armed consistent armed claim _, due.settled advances, fun next going => ?_⟩
      split at going <;> cases going
      exact Faithful.advances knows advances
    case expire =>
      split at moved <;> cases moved
      exact ⟨armed, due, fun next going => by cases going; exact knows⟩
  | executing claim =>
    cases move <;> simp only [advance, reduceCtorEq] at moved
    cases moved
    exact ⟨armed, due, fun next going => by cases going; exact ⟨knows, .now knows.known due⟩⟩
  | completing claim ending =>
    cases move <;> simp only [advance, reduceCtorEq] at moved
    cases moved
    exact .of_outcome due (completeClaim_outcome consistent claim ending)
      (completeClaim_armed later consistent armed due knows.1 knows.2)
  | recovering process id runId expectedLeaseId recoveredAtMs =>
    cases move <;> simp only [advance, reduceCtorEq] at moved
    split at moved <;> cases moved
    next new =>
      obtain ⟨armed, due, faithful⟩ := recoverCronClaim_timed deps process ⟨shared, armed, due⟩ (by simpa using new) id
        runId expectedLeaseId recoveredAtMs
      refine ⟨armed, due, fun next going => ?_⟩
      obtain ⟨claim, produced, rfl⟩ := Option.map_eq_some_iff.mp going
      exact faithful claim produced
  | quarantining claim endedAtMs =>
    cases move <;> simp only [advance, reduceCtorEq] at moved
    cases moved
    exact .of_outcome due (quarantineLegacyOrphan_outcome consistent claim endedAtMs)
      (quarantineLegacyOrphan_armed armed claim endedAtMs)
  | watching candidate =>
    cases move <;> simp only [advance, reduceCtorEq] at moved
    split at moved <;> cases moved
    exact ⟨armed, due, fun next going => by cases going; exact fun runId running => .now (knows runId running) due⟩
  | cleaning candidate nowMs =>
    cases move <;> simp only [advance, reduceCtorEq] at moved
    cases moved
    exact .of_outcome due (checkStaleJob_outcome consistent candidate nowMs)
      (checkStaleJob_armed later consistent armed due knows)
  | cancelling job runId =>
    cases move <;> simp only [advance, reduceCtorEq] at moved
    cases moved
    exact ⟨armed, due, fun next going => by cases going; exact .now knows due⟩
  | settling job runId status endedAtMs =>
    cases move <;> simp only [advance, reduceCtorEq] at moved
    cases moved
    exact .of_outcome due (settleExplicitCancellation_outcome consistent job runId status endedAtMs)
      (settleExplicitCancellation_armed later consistent armed due knows)
  | editing edit readMs =>
    cases move <;> simp only [advance, reduceCtorEq] at moved
    cases moved
    cases applied : edit.apply deps readMs cron.nowMs cron.jobs with
    | none => exact ⟨armed, due, fun next going => by cases going⟩
    | some jobs =>
      have planned (plan : SystemPlan) (same : edit = .applySystemJobs plan) :
          ∀ job ∈ plan.toCreate, job.state = .empty := by
        subst same
        exact asserted
      exact ⟨edit_armed later armed due punctual planned applied,
        due.kept (edit_keeps consistent planned applied), fun next going => by cases going⟩
  | repairing process isProcessAlive readMs =>
    cases move <;> simp only [advance, reduceCtorEq] at moved
    cases moved
    refine ⟨fun job member => ?_, due.kept (repair_keeps consistent isProcessAlive readMs),
      fun next going => by cases going⟩
    obtain ⟨old, present, rfl⟩ := List.mem_map.mp member
    exact normalizeStoredJob_unstuck later (armed old present) (due.named present) (punctual old present)
  | logging entry =>
    cases move <;> simp only [advance, reduceCtorEq] at moved
    cases moved
    exact ⟨armed, due, fun next going => by cases going⟩

def timing : Outline Cron Call :=
  ⟨Timed, fun cron call => Asserted cron call ∧ Knows cron call, Distinct, Grows⟩

theorem timing_sound (later : Later deps) : timing.Sound (service deps Punctual) where
  refl := Grows.refl
  trans := Grows.trans
  symm := by
    have sound : outline.Sound (service deps Punctual) := outline_sound
    intro call other distinct
    exact sound.symm distinct
  starts := by
    intro cron call timed started
    have sound : outline.Sound (service deps Punctual) := outline_sound
    obtain ⟨asserted, distinct⟩ := sound.starts timed.shared started
    refine ⟨⟨asserted, ?_⟩, fun other held => distinct other held.1⟩
    cases call with
    | claiming => exact Int.le_of_eq started.2
    | watching candidate =>
      obtain ⟨job, member, made⟩ := started
      intro runId running
      simp only [watchdogCandidate] at made
      split at made
      next => cases made
      next =>
        obtain ⟨_, _, rfl⟩ := Option.map_eq_some_iff.mp made
        exact (timed.shared.consistent.valid job member).named runId running
    | cancelling job runId =>
      obtain ⟨member, cancellable⟩ := started
      simp only [isCancellable, Option.any_eq_true] at cancellable
      obtain ⟨record, found, _⟩ := cancellable
      obtain ⟨recorded, named⟩ := findRecord_spec found
      exact named ▸ ((timed.shared.consistent.valid job member).ids record recorded).1
    | claimed | executing | completing | quarantining | cleaning | settling => exact started.elim
    | _ => trivial
  advances := by
    intro cron call move after rest timed held punctual moved
    have sound : outline.Sound (service deps Punctual) := outline_sound
    obtain ⟨shared, grows, continues⟩ := sound.advances timed.shared held.1 punctual moved
    have onTime := advance_onTime later timed held.1 held.2 punctual moved
    refine ⟨⟨shared, onTime.armed, onTime.due⟩, grows, fun next going => ?_⟩
    obtain ⟨asserted, distinct⟩ := continues next going
    exact ⟨⟨asserted, onTime.knows next going⟩, fun other also => distinct other also.1⟩
  stable := by
    intro cron call move after rest other timed held punctual moved also distinct
    have sound : outline.Sound (service deps Punctual) := outline_sound
    refine ⟨sound.stable timed.shared held.1 punctual moved also.1 distinct, ?_⟩
    obtain ⟨entry, rfl, rfl, rfl⟩ | effect := advance_effect timed.shared held.1 moved
    · cases other <;> exact also.2
    · obtain ⟨fresh, marked, issued, advances, _⟩ := effect.store
      exact also.2.advances advances issued (advance_now moved)

/-- While edits land with readings no older than what the job has executed, no enabled job
without a running claim is due for an occurrence of its own ledger. -/
theorem never_stuck (later : Later deps) {nowMs : Int} {world : World Cron Call}
    (run : Run (service deps Punctual) (started nowMs) world) : ∀ job ∈ world.shared.jobs, ¬Stuck job := by
  have initial : Timed ⟨[], [], [], nowMs⟩ := by
    have empty : Run (service deps Punctual) (started nowMs) (started nowMs) := .refl
    refine ⟨(holds_of_run empty).shared, fun job member => ?_, fun record ⟨job, member, _⟩ => ?_⟩
    · cases member
    · cases member
  have timed := ((Outline.Holds.start initial).run (timing_sound later) run).1.shared
  intro job member ⟨enabled, idle, record, recorded, schedule, due⟩
  have live := (timed.armed job member enabled record recorded schedule due).1
  have running := ((timed.shared.consistent.valid job member).held record recorded live).run
  rw [idle] at running
  cases running

def atTheEnd : System Cron Call Move := service everyMinute Punctual

instance (cron : Cron) (call : Call) : Decidable (atTheEnd.starts cron call) :=
  inferInstanceAs (Decidable (starts everyMinute cron call))

instance (cron : Cron) (call : Call) (move : Move) : Decidable (atTheEnd.permits cron call move) :=
  inferInstanceAs (Decidable (Punctual cron call move))

def renamed : Call := .editing (.update "job" ⟨none, none, some⟩) 59999

/-- The edit reads the clock, the job's occurrence is claimed, and then the edit lands. -/
def turns (edited : List (Turn Call Move)) : List (Turn Call Move) :=
  [.start .clock, .start (.editing (.add "job" ⟨none, .every 60000 none, .systemEvent, none⟩) 0), .advance 1 .commit,
    .advance 0 (.tick 59999), .start renamed, .advance 0 (.tick 60000),
    .start (.claiming worker "job" ⟨.schedule, some 60000, none, none, none, none⟩ "cron:job:schedule:60000" 60000)] ++
    edited ++ [.advance 3 .mark, .advance 3 (.finish .ok false), .advance 3 .commit]

def early : Option (World Cron Call) :=
  (started 0).play atTheEnd (turns [.advance 2 .commit, .advance 3 (.claim ⟨"r", "l", "s"⟩ true)])

theorem never_stuck_early : ∃ world, early = some world ∧
    world.shared.jobs.map (·.state.nextRunAtMs) = [some 120000] ∧ ∀ job ∈ world.shared.jobs, ¬Stuck job := by
  have facts : (early.map fun world => world.shared.jobs.map (·.state.nextRunAtMs)) = some [some 120000] := by
    decide +kernel
  obtain ⟨world, played, next⟩ := Option.map_eq_some_iff.mp facts
  have later : Later everyMinute := fun _ _ _ _ wrong => by cases wrong
  exact ⟨world, played, next, never_stuck later (World.run_of_play atTheEnd played)⟩

/-- The edit that lands after the claim arms the claimed occurrence again, and the
completion leaves the schedule to the edit. -/
theorem stuck_after_late_edit : ∃ world, Run atAnyTime (started 0) world ∧ ∃ job ∈ world.shared.jobs, Stuck job := by
  have facts : (((started 0).play atAnyTime
      (turns [.advance 3 (.claim ⟨"r", "l", "s"⟩ true), .advance 2 .commit])).map fun world =>
      world.shared.jobs.any fun job => job.enabled && job.state.runningRunId.isNone &&
        job.state.executionLedger.any fun record =>
          record.trigger = .schedule && record.scheduledAtMs = job.state.nextRunAtMs) = some true := by
    decide +kernel
  obtain ⟨world, played, stuck⟩ := Option.map_eq_some_iff.mp facts
  refine ⟨world, World.run_of_play atAnyTime played, ?_⟩
  simpa only [Stuck, List.any_eq_true, Bool.and_eq_true, decide_eq_true_eq, Option.isNone_iff_eq_none, and_assoc] using stuck

end AgentSaas.Proofs.CronSchedule
