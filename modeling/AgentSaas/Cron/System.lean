import AgentSaas.Cron.Service
import AgentSaas.Interleaving

/-! The cron service in any number of processes: every call, await by await, over the
atomic job store. -/

namespace AgentSaas.Cron
open Interleaving

/-- The store and the run log. `issued` has every UUID that names a run or a lease. -/
structure Cron where
  jobs : List CronJob
  log : List CronRunLogEntry
  issued : List String
  nowMs : Int

inductive Edit where
  | add (id : String) (create : CronJobCreate)
  | update (id : String) (patch : CronJobPatch)
  | applySystemJobs (plan : SystemPlan)
  | transferOwner (id expectedOwner owner : String)
  | remove (id : String)
  | removeByOwners (ownerIds : List String)

/-- The mutation of an edit; `readMs` was read before it was queued. -/
def Edit.apply (deps : Deps) (readMs nowMs : Int) (jobs : List CronJob) : Edit → Option (List CronJob)
  | .add id create => some (jobs ++ [createdJob deps id create readMs])
  | .update id patch => Cron.update deps id patch readMs jobs
  | .applySystemJobs plan => some (Cron.applySystemJobs deps plan readMs jobs)
  | .transferOwner id expectedOwner owner => transferCronJobOwner id expectedOwner owner nowMs jobs
  | .remove id => Cron.remove id jobs
  | .removeByOwners ownerIds => some (Cron.removeByOwners ownerIds jobs)

/-- Where a call stands between two of its steps. -/
inductive Call where
  | clock
  | claiming (process : Process) (id : String) (invocation : ExecutionInvocation) (idempotencyKey : String)
      (claimedAtMs : Int)
  | claimed (claim : ClaimedJob)
  | executing (claim : ClaimedJob)
  | completing (claim : ClaimedJob) (ending : Ending)
  | recovering (process : Process) (id runId : String) (expectedLeaseId : Option String) (recoveredAtMs : Int)
  | quarantining (claim : ClaimedJob) (endedAtMs : Int)
  | watching (candidate : WatchdogCandidate)
  | cleaning (candidate : WatchdogCandidate) (nowMs : Int)
  | cancelling (job : CronJob) (runId : String)
  | settling (job : CronJob) (runId : String) (status : TerminalStatus) (endedAtMs : Int)
  | editing (edit : Edit) (readMs : Int)
  | repairing (process : Process) (isProcessAlive : Int → Bool) (readMs : Int)
  | logging (entry : CronRunLogEntry)

inductive Move where
  | tick (nowMs : Int)
  | claim (uuids : Uuids) (schedulerActive : Bool)
  | release
  | mark
  | finish (status : TerminalStatus) (executionTimedOut : Bool)
  | expire
  | stopped (status : TerminalStatus)
  | commit
  | append

/-- The log entry of a settled run is appended in a step of its own. -/
def settled (cron : Cron) (outcome : List CronJob × Option CronRunLogEntry) : Cron × Option Call :=
  ({ cron with jobs := outcome.1 }, outcome.2.map .logging)

def advance (deps : Deps) (cron : Cron) : Call → Move → Option (Cron × Option Call)
  | .clock, .tick nowMs => if cron.nowMs ≤ nowMs then some ({ cron with nowMs }, some .clock) else none
  | .claiming process id invocation idempotencyKey claimedAtMs, .claim uuids schedulerActive =>
    if cron.issued.contains (cronRunId claimedAtMs uuids) || cron.issued.contains uuids.lease then none
    else
      let (jobs, value) :=
        claimCronJob deps process uuids schedulerActive id invocation idempotencyKey claimedAtMs cron.jobs
      some ({ cron with jobs, issued := cronRunId claimedAtMs uuids :: uuids.lease :: cron.issued },
        match value with
        | .claim claim => some (.claimed claim)
        | _ => none)
  | .claimed claim, .release =>
    if claim.recovered then none else some ({ cron with jobs := releaseClaim claim cron.jobs }, none)
  | .claimed claim, .mark =>
    if claim.isLegacyOrphan then none
    else
      let (jobs, marked) := markCronClaimRunning claim cron.nowMs cron.jobs
      some ({ cron with jobs }, if marked then some (.executing claim) else none)
  | .claimed claim, .expire =>
    if claim.isLegacyOrphan then some (cron, some (.quarantining claim cron.nowMs)) else none
  | .executing claim, .finish status executionTimedOut =>
    some (cron, some (.completing claim ⟨status, executionTimedOut, cron.nowMs⟩))
  | .completing claim ending, .commit => some (settled cron (completeClaim deps claim ending cron.jobs))
  | .recovering process id runId expectedLeaseId recoveredAtMs, .claim uuids _ =>
    if cron.issued.contains uuids.lease then none
    else
      let (jobs, value) := recoverCronClaim deps process uuids id runId expectedLeaseId recoveredAtMs cron.jobs
      some ({ cron with jobs, issued := uuids.lease :: cron.issued }, value.claim.map .claimed)
  | .quarantining claim endedAtMs, .commit => some (settled cron (quarantineLegacyOrphan claim endedAtMs cron.jobs))
  | .watching candidate, .expire =>
    if candidate.deadlineAtMs < cron.nowMs then some (cron, some (.cleaning candidate cron.nowMs)) else none
  | .cleaning candidate nowMs, .commit => some (settled cron (checkStaleJob deps candidate nowMs cron.jobs))
  | .cancelling job runId, .stopped status => some (cron, some (.settling job runId status cron.nowMs))
  | .settling job runId status endedAtMs, .commit =>
    some (settled cron (settleExplicitCancellation deps job runId status endedAtMs cron.jobs))
  | .editing edit readMs, .commit =>
    some ({ cron with jobs := (edit.apply deps readMs cron.nowMs cron.jobs).getD cron.jobs }, none)
  | .repairing process isProcessAlive readMs, .commit =>
    some ({ cron with jobs := cron.jobs.map (normalizeStoredJob deps process isProcessAlive readMs) }, none)
  | .logging entry, .append => some ({ cron with log := cron.log ++ [entry] }, none)
  | _, _ => none

/-- Clock readings and snapshots are taken when a call starts. A planned system job is
new: it has no state. -/
def starts (deps : Deps) (cron : Cron) : Call → Prop
  | .clock => True
  | .claiming _ id invocation idempotencyKey claimedAtMs =>
    claimKey id invocation = .ok idempotencyKey ∧ claimedAtMs = cron.nowMs
  | .recovering _ _ _ _ recoveredAtMs => recoveredAtMs = cron.nowMs
  | .watching candidate => ∃ job ∈ cron.jobs, watchdogCandidate deps job = some candidate
  | .cancelling job runId => job ∈ cron.jobs ∧ isCancellable job runId = true
  | .editing (.applySystemJobs plan) readMs =>
    (∀ job ∈ plan.toCreate, job.state = .empty) ∧ readMs = cron.nowMs
  | .editing _ readMs => readMs = cron.nowMs
  | .repairing _ _ readMs => readMs = cron.nowMs
  | _ => False

instance (deps : Deps) (cron : Cron) (call : Call) : Decidable (starts deps cron call) :=
  match call with
  | .clock => isTrue trivial
  | .claiming .. => inferInstanceAs (Decidable (_ ∧ _))
  | .recovering .. => inferInstanceAs (Decidable (_ = _))
  | .watching _ => inferInstanceAs (Decidable (∃ job ∈ cron.jobs, _))
  | .cancelling .. => inferInstanceAs (Decidable (_ ∧ _))
  | .editing (.applySystemJobs _) _ => inferInstanceAs (Decidable (_ ∧ _))
  | .editing (.add ..) _ | .editing (.update ..) _ | .editing (.transferOwner ..) _ | .editing (.remove _) _
  | .editing (.removeByOwners _) _ | .repairing .. => inferInstanceAs (Decidable (_ = _))
  | .claimed _ | .executing _ | .completing .. | .quarantining .. | .cleaning .. | .settling .. | .logging _ =>
    isFalse id

def service (deps : Deps) (permits : Cron → Call → Move → Prop) : System Cron Call Move :=
  ⟨starts deps, permits, advance deps⟩

end AgentSaas.Cron
