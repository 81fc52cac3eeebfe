import AgentSaas.Cron.System
import Mathlib.Data.List.Nodup
import Mathlib.Data.List.Pairwise

/-! The execution ledgers: what each transaction of the store keeps, and what it may do
to the records that were there. -/

namespace AgentSaas.Proofs.CronRecords
open AgentSaas.Cron

structure Held (state : CronJobState) (record : CronExecutionRecord) : Prop where
  run : state.runningRunId = some record.runId
  lease : state.runningLeaseId = some record.leaseId
  since : state.runningAtMs.isSome

structure Valid (issued : List String) (state : CronJobState) : Prop where
  keys : (state.executionLedger.map (·.idempotencyKey)).Nodup
  runs : (state.executionLedger.map (·.runId)).Nodup
  held : ∀ record ∈ state.executionLedger, record.terminalStatus = none → Held state record
  untimed : state.runningTimedOutAtMs = none
  terminal : ∀ record ∈ state.executionLedger, record.status = .terminal → record.terminalStatus.isSome
  edition : ∀ record ∈ state.executionLedger, record.scheduleUpdatedAtMs.isSome
  ids : ∀ record ∈ state.executionLedger, record.runId ∈ issued ∧ record.leaseId ∈ issued
  named : ∀ runId, state.runningRunId = some runId → runId ∈ issued

/-- What one step may do to a record; `marked` is the lease of the record that the step
marks running. -/
structure Follows (issued : List String) (marked : Option String) (before after : CronExecutionRecord) : Prop where
  runId : after.runId = before.runId
  trigger : after.trigger = before.trigger
  scheduledAtMs : after.scheduledAtMs = before.scheduledAtMs
  edition : after.scheduleUpdatedAtMs = before.scheduleUpdatedAtMs
  lease : after.leaseId = before.leaseId ∨ after.leaseId ∉ issued ∧ after.status = .claimed
  settled : ∀ status, before.terminalStatus = some status → after.terminalStatus = some status
  status : after.terminalStatus = none → after.leaseId = before.leaseId → some before.leaseId ≠ marked →
    after.status = before.status

theorem Follows.refl (issued : List String) (marked : Option String) (record : CronExecutionRecord) :
    Follows issued marked record record :=
  ⟨rfl, rfl, rfl, rfl, .inl rfl, fun _ settled => settled, fun _ _ _ => rfl⟩

structure New (issued : List String) (record : CronExecutionRecord) : Prop where
  run : record.runId ∉ issued
  lease : record.leaseId ∉ issued
  status : record.status = .claimed

def Extends (issued : List String) (marked : Option String) (before after : List CronExecutionRecord) : Prop :=
  ∀ record ∈ after, (∃ old ∈ before, Follows issued marked old record) ∨
    New issued record ∧ ∀ old ∈ before, old.terminalStatus ≠ none

structure Changes (issued fresh : List String) (marked : Option String) (before after : CronJobState) : Prop where
  valid : Valid (fresh ++ issued) after
  records : Extends issued marked before.executionLedger after.executionLedger

theorem Extends.refl (issued : List String) (marked : Option String) (ledger : List CronExecutionRecord) :
    Extends issued marked ledger ledger :=
  fun record member => .inl ⟨record, member, .refl _ _ record⟩

theorem Valid.grow {issued fresh state} (valid : Valid issued state) : Valid (fresh ++ issued) state :=
  { valid with
    ids := fun record member =>
      ⟨List.mem_append_right _ (valid.ids record member).1, List.mem_append_right _ (valid.ids record member).2⟩
    named := fun runId running => List.mem_append_right _ (valid.named runId running) }

theorem Valid.record_eq {issued state} (valid : Valid issued state) {record other : CronExecutionRecord}
    (member : record ∈ state.executionLedger) (second : other ∈ state.executionLedger)
    (same : record.runId = other.runId) : record = other :=
  List.inj_on_of_nodup_map valid.runs member second same

theorem Changes.refl {issued fresh marked state} (valid : Valid issued state) :
    Changes issued fresh marked state state :=
  ⟨valid.grow, .refl _ _ _⟩

theorem updateFirst_missing {wanted : α → Bool} (change : α → α) {items : List α}
    (missing : items.find? wanted = none) : updateFirst wanted change items = items := by
  induction items with
  | nil => rfl
  | cons first rest ih =>
    rw [List.find?_cons] at missing
    split at missing
    next => cases missing
    next miss => simp [updateFirst, miss, ih missing]

theorem updateFirst_split {wanted : α → Bool} {items : List α} {found : α} (first : items.find? wanted = some found) :
    ∃ before after, items = before ++ found :: after ∧
      ∀ change, updateFirst wanted change items = before ++ change found :: after := by
  induction items with
  | nil => cases first
  | cons head rest ih =>
    rw [List.find?_cons] at first
    split at first
    next hit =>
      cases first
      exact ⟨[], rest, rfl, fun change => by simp [updateFirst, hit]⟩
    next miss =>
      obtain ⟨before, after, rfl, updated⟩ := ih first
      exact ⟨head :: before, after, rfl, fun change => by simp [updateFirst, miss, updated change]⟩

theorem mem_updateFirst {wanted : α → Bool} {change : α → α} {items : List α} {item : α}
    (member : item ∈ updateFirst wanted change items) :
    item ∈ items ∨ ∃ old ∈ items, wanted old = true ∧ item = change old := by
  cases found : items.find? wanted with
  | none => exact .inl (updateFirst_missing change found ▸ member)
  | some old =>
    obtain ⟨before, after, rfl, updated⟩ := updateFirst_split found
    rw [updated, List.mem_append, List.mem_cons] at member
    rcases member with member | rfl | member
    · exact .inl (List.mem_append_left _ member)
    · exact .inr ⟨old, List.mem_of_find?_eq_some found, List.find?_some found, rfl⟩
    · exact .inl (List.mem_append_right _ (List.mem_cons_of_mem _ member))

theorem map_updateFirst {wanted : α → Bool} {change : α → α} (key : α → β) {items : List α}
    (same : ∀ item ∈ items, wanted item = true → key (change item) = key item) :
    (updateFirst wanted change items).map key = items.map key := by
  induction items with
  | nil => rfl
  | cons first rest ih =>
    simp only [updateFirst]
    split
    next hit => simp [same first (List.mem_cons_self ..) hit]
    next => simp [ih fun item member => same item (List.mem_cons_of_mem _ member)]

theorem mem_updateRecord {ledger : List CronExecutionRecord} (nodup : (ledger.map (·.runId)).Nodup) {runId : String}
    {change : CronExecutionRecord → CronExecutionRecord} {record : CronExecutionRecord}
    (member : record ∈ updateFirst (·.runId = runId) change ledger) :
    record ∈ ledger ∧ record.runId ≠ runId ∨ ∃ old ∈ ledger, old.runId = runId ∧ record = change old := by
  induction ledger with
  | nil => cases member
  | cons first rest ih =>
    obtain ⟨absent, nodup⟩ := List.nodup_cons.mp nodup
    simp only [updateFirst] at member
    split at member
    next hit =>
      have hit : first.runId = runId := of_decide_eq_true hit
      cases List.mem_cons.mp member with
      | inl changed => exact .inr ⟨first, List.mem_cons_self .., hit, changed⟩
      | inr member =>
        refine .inl ⟨List.mem_cons_of_mem _ member, fun same => absent ?_⟩
        exact List.mem_map.mpr ⟨record, member, same.trans hit.symm⟩
    next miss =>
      have miss : first.runId ≠ runId := fun same => miss (decide_eq_true same)
      cases List.mem_cons.mp member with
      | inl same => exact .inl ⟨same ▸ List.mem_cons_self .., same ▸ miss⟩
      | inr member =>
        obtain ⟨member, other⟩ | ⟨old, member, found, changed⟩ := ih nodup member
        · exact .inl ⟨List.mem_cons_of_mem _ member, other⟩
        · exact .inr ⟨old, List.mem_cons_of_mem _ member, found, changed⟩

section
variable {issued : List String} {job : CronJob} {record : CronExecutionRecord} {runId : String}

theorem findRecord_spec (found : job.findRecord runId = some record) :
    record ∈ job.state.executionLedger ∧ record.runId = runId :=
  ⟨List.mem_of_find?_eq_some found, by simpa using List.find?_some found⟩

/-- Two jobs whose states differ in `nextRunAtMs` alone. -/
def SameRuns (job other : CronJob) : Prop := other.state = { job.state with nextRunAtMs := other.state.nextRunAtMs }

theorem SameRuns.changes {fresh marked} {other : CronJob} (same : SameRuns job other) {before : CronJobState}
    (changes : Changes issued fresh marked before job.state) : Changes issued fresh marked before other.state := by
  rw [same]
  obtain ⟨valid, records⟩ := changes
  refine ⟨⟨valid.keys, valid.runs, fun record member live => ?_, valid.untimed, valid.terminal, valid.edition,
    valid.ids, valid.named⟩, records⟩
  have held := valid.held record member live
  exact ⟨held.run, held.lease, held.since⟩

theorem SameRuns.setRecord {other : CronJob} (same : SameRuns job other) (runId : String)
    (change : CronExecutionRecord → CronExecutionRecord) :
    SameRuns (job.setRecord runId change) (other.setRecord runId change) := by
  unfold SameRuns at *
  simp only [CronJob.setRecord]
  rw [same]

theorem clear_changes (marked : Option String) (valid : Valid issued job.state)
    (closed : ∀ record ∈ job.state.executionLedger, record.terminalStatus ≠ none) :
    Changes issued [] marked job.state (clearActiveExecution job).state := by
  refine ⟨⟨valid.keys, valid.runs, fun record member live => ?_, rfl, valid.terminal, valid.edition, valid.ids,
    fun _ running => by cases running⟩, .refl _ _ _⟩
  exact absurd live (closed record member)

theorem closed_of_running (valid : Valid issued job.state) (running : job.state.runningRunId = some runId)
    (closed : ∀ record, job.findRecord runId = some record → record.terminalStatus ≠ none) :
    ∀ record ∈ job.state.executionLedger, record.terminalStatus ≠ none := by
  intro record member live
  have same : record.runId = runId := Option.some.inj ((valid.held record member live).run.symm.trans running)
  cases found : job.findRecord runId with
  | none => exact List.find?_eq_none.mp found record member (by simpa using same)
  | some other =>
    obtain ⟨second, named⟩ := findRecord_spec found
    cases valid.record_eq member second (same.trans named.symm)
    exact closed record found live

/-- The job's running record changes, and its running fields with it: `base` has the
ledger of `job` and the new fields. -/
theorem setRecord_changes {fresh marked} {base : CronJob} {change : CronExecutionRecord → CronExecutionRecord}
    (valid : Valid issued job.state) (running : job.state.runningRunId = some runId)
    (found : job.findRecord runId = some record) (ledger : base.state.executionLedger = job.state.executionLedger)
    (untimed : base.state.runningTimedOutAtMs = none)
    (same : base.state.runningRunId = none ∨ base.state.runningRunId = job.state.runningRunId) (follows : Follows issued marked record (change record))
    (key : (change record).idempotencyKey = record.idempotencyKey) (lease : (change record).leaseId ∈ fresh ++ issued)
    (held : (change record).terminalStatus = none → Held base.state (change record))
    (terminal : (change record).status = .terminal → (change record).terminalStatus.isSome) :
    Changes issued fresh marked job.state (base.setRecord runId change).state := by
  obtain ⟨member, named⟩ := findRecord_spec found
  have one (old : CronExecutionRecord) (second : old ∈ job.state.executionLedger) (same : old.runId = runId) :
      old = record := valid.record_eq second member (same.trans named.symm)
  have cases_of (after : CronExecutionRecord)
      (changed : after ∈ updateFirst (·.runId = runId) change job.state.executionLedger) :
      after = change record ∨ after ∈ job.state.executionLedger ∧ after.terminalStatus ≠ none := by
    obtain ⟨kept, other⟩ | ⟨old, second, same, rfl⟩ := mem_updateRecord valid.runs changed
    · refine .inr ⟨kept, fun live => other ?_⟩
      exact Option.some.inj ((valid.held after kept live).run.symm.trans running)
    · exact .inl (one old second same ▸ rfl)
  have keyed {β : Type} (field : CronExecutionRecord → β) (same : field (change record) = field record) :
      (updateFirst (·.runId = runId) change job.state.executionLedger).map field =
        job.state.executionLedger.map field :=
    map_updateFirst field fun old second hit => one old second (of_decide_eq_true hit) ▸ same
  rw [CronJob.setRecord, ledger]
  refine ⟨⟨?_, ?_, fun after changed live => ?_, untimed, fun after changed ended => ?_, fun after changed => ?_,
    fun after changed => ?_, fun other running => ?_⟩, fun after changed => ?_⟩
  · exact (keyed (·.idempotencyKey) key).symm ▸ valid.keys
  · exact (keyed (·.runId) follows.runId).symm ▸ valid.runs
  · obtain rfl | ⟨_, closed⟩ := cases_of after changed
    · exact ⟨(held live).run, (held live).lease, (held live).since⟩
    · exact absurd live closed
  · obtain rfl | ⟨kept, _⟩ := cases_of after changed
    · exact terminal ended
    · exact valid.terminal after kept ended
  · obtain rfl | ⟨kept, _⟩ := cases_of after changed
    · exact follows.edition ▸ valid.edition record member
    · exact valid.edition after kept
  · obtain rfl | ⟨kept, _⟩ := cases_of after changed
    · exact ⟨follows.runId ▸ List.mem_append_right _ (valid.ids record member).1, lease⟩
    · exact valid.grow.ids after kept
  · cases same with
    | inl none => cases none.symm.trans running
    | inr same => exact valid.grow.named other (same.symm.trans running)
  · obtain rfl | ⟨kept, _⟩ := cases_of after changed
    · exact .inl ⟨record, member, follows⟩
    · exact .inl ⟨after, kept, .refl _ _ after⟩

theorem settle_changes (marked : Option String) (valid : Valid issued job.state)
    (found : job.findRecord runId = some record) (live : record.terminalStatus = none) (status : TerminalStatus)
    (endedAtMs : Int) :
    Changes issued [] marked job.state
      ((clearActiveExecution job).setRecord runId (settleRecord status endedAtMs)).state := by
  obtain ⟨member, named⟩ := findRecord_spec found
  refine setRecord_changes valid ?_ found rfl rfl (.inl rfl) ?_ rfl (valid.ids record member).2 ?_ ?_
  · exact named ▸ (valid.held record member live).run
  · refine ⟨rfl, rfl, rfl, rfl, .inl rfl, fun other settled => ?_, fun open' => ?_⟩
    · simp [live] at settled
    · simp [settleRecord] at open'
  · intro open'
    simp [settleRecord] at open'
  · intro _
    rfl

end

def Stored (jobs : List CronJob) (record : CronExecutionRecord) : Prop :=
  ∃ job ∈ jobs, record ∈ job.state.executionLedger

def Apart (ledger other : List CronExecutionRecord) : Prop :=
  ∀ record ∈ ledger, ∀ second ∈ other, record.runId ≠ second.runId

theorem Apart.symm {ledger other : List CronExecutionRecord} (apart : Apart ledger other) : Apart other ledger :=
  fun record member second also same => apart second also record member same.symm

structure Consistent (issued : List String) (jobs : List CronJob) : Prop where
  valid : ∀ job ∈ jobs, Valid issued job.state
  apart : (jobs.map (·.state.executionLedger)).Pairwise Apart

structure Advances (issued fresh : List String) (marked : Option String) (before after : List CronJob) : Prop where
  consistent : Consistent (fresh ++ issued) after
  ledgers : ∀ job ∈ after, job.state.executionLedger = [] ∨
    ∃ old ∈ before, Extends issued marked old.state.executionLedger job.state.executionLedger

structure Keeps (issued : List String) (before after : List CronJob) : Prop where
  consistent : Consistent issued after
  ledgers : ∀ job ∈ after, job.state.executionLedger = [] ∨
    ∃ old ∈ before, job.state.executionLedger = old.state.executionLedger

section
variable {issued fresh : List String} {marked : Option String} {jobs after : List CronJob} {id : String}

theorem Consistent.ids_issued (consistent : Consistent issued jobs) {record : CronExecutionRecord}
    (stored : Stored jobs record) : record.runId ∈ issued ∧ record.leaseId ∈ issued := by
  obtain ⟨job, member, recorded⟩ := stored
  exact (consistent.valid job member).ids record recorded

theorem Consistent.record_eq (consistent : Consistent issued jobs) {record other : CronExecutionRecord}
    (stored : Stored jobs record) (second : Stored jobs other) (same : record.runId = other.runId) :
    record = other := by
  obtain ⟨job, member, recorded⟩ := stored
  obtain ⟨holder, also, found⟩ := second
  by_cases one : job = holder
  · subst one
    exact (consistent.valid job member).record_eq recorded found same
  · have symm : Std.Symm fun job other : CronJob => Apart job.state.executionLedger other.state.executionLedger :=
      ⟨fun _ _ => Apart.symm⟩
    have apart := (List.pairwise_map.mp consistent.apart).forall member also one
    exact absurd same (apart record recorded other found)

theorem Advances.records (advances : Advances issued fresh marked jobs after) {record : CronExecutionRecord}
    (stored : Stored after record) :
    (∃ old, Stored jobs old ∧ Follows issued marked old record) ∨ New issued record := by
  obtain ⟨job, member, recorded⟩ := stored
  obtain empty | ⟨old, present, extended⟩ := advances.ledgers job member
  · rw [empty] at recorded
    cases recorded
  · obtain ⟨source, kept, follows⟩ | ⟨new, _⟩ := extended record recorded
    · exact .inl ⟨source, ⟨old, present, kept⟩, follows⟩
    · exact .inr new

theorem Keeps.refl (consistent : Consistent issued jobs) : Keeps issued jobs jobs :=
  ⟨consistent, fun job member => .inr ⟨job, member, rfl⟩⟩

theorem Keeps.trans {middle : List CronJob} (first : Keeps issued jobs middle) (last : Keeps issued middle after) :
    Keeps issued jobs after := by
  refine ⟨last.consistent, fun job member => ?_⟩
  obtain empty | ⟨between, present, same⟩ := last.ledgers job member
  · exact .inl empty
  · rw [same]
    exact first.ledgers between present

theorem Consistent.grow (consistent : Consistent issued jobs) : Consistent (fresh ++ issued) jobs :=
  ⟨fun job member => (consistent.valid job member).grow, consistent.apart⟩

theorem Keeps.advances (keeps : Keeps issued jobs after) : Advances issued fresh marked jobs after := by
  refine ⟨keeps.consistent.grow, fun job member => ?_⟩
  obtain empty | ⟨old, present, same⟩ := keeps.ledgers job member
  · exact .inl empty
  · exact .inr ⟨old, present, same ▸ .refl _ _ _⟩

theorem Keeps.of_sublist (consistent : Consistent issued jobs) (valid : ∀ job ∈ after, Valid issued job.state)
    (ledgers : (after.map (·.state.executionLedger)).Sublist (jobs.map (·.state.executionLedger) ++ [[]])) :
    Keeps issued jobs after := by
  refine ⟨⟨valid, ?_⟩, ?_⟩
  · refine List.Pairwise.sublist ledgers (List.pairwise_append.mpr ⟨consistent.apart, by simp, ?_⟩)
    intro ledger _ other empty record _ second member
    rw [List.mem_singleton.mp empty] at member
    cases member
  · intro job member
    have listed := ledgers.subset (List.mem_map_of_mem member)
    rcases List.mem_append.mp listed with kept | empty
    · obtain ⟨old, present, same⟩ := List.mem_map.mp kept
      exact .inr ⟨old, present, same.symm⟩
    · exact .inl (List.mem_singleton.mp empty)

theorem keeps_update (consistent : Consistent issued jobs) {change : CronJob → CronJob}
    (same : ∀ job, SameRuns job (change job)) : Keeps issued jobs (updateJob jobs id change) := by
  have ledger (job : CronJob) : (change job).state.executionLedger = job.state.executionLedger :=
    congrArg (·.executionLedger) (same job)
  refine .of_sublist consistent ?_ ?_
  · intro job member
    rcases mem_updateFirst member with kept | ⟨old, present, _, rfl⟩
    · exact consistent.valid job kept
    · have changes : Changes issued [] none old.state old.state := .refl (consistent.valid old present)
      exact ((same old).changes changes).valid
  · rw [updateJob, map_updateFirst _ fun job _ _ => ledger job]
    exact List.sublist_append_left ..

theorem advances_update (consistent : Consistent issued jobs) {job : CronJob} {change : CronJob → CronJob}
    (found : findJob jobs id = some job) (changes : Changes issued fresh marked job.state (change job).state) :
    Advances issued fresh marked jobs (updateJob jobs id change) := by
  obtain ⟨before, after, rfl, updated⟩ := updateFirst_split found
  rw [updateJob, updated]
  have apart_of {other : List CronExecutionRecord} (issuedOther : ∀ record ∈ other, record.runId ∈ issued)
      (apart : Apart job.state.executionLedger other) : Apart (change job).state.executionLedger other := by
    intro record member second also same
    obtain ⟨old, kept, follows⟩ | ⟨new, _⟩ := changes.records record member
    · exact apart old kept second also (follows.runId.symm.trans same)
    · exact new.run (same ▸ issuedOther second also)
  have issued_of (other : CronJob) (member : other ∈ before ++ job :: after) (record : CronExecutionRecord)
      (recorded : record ∈ other.state.executionLedger) : record.runId ∈ issued :=
    ((consistent.valid other member).ids record recorded).1
  refine ⟨⟨?_, ?_⟩, ?_⟩
  · intro other member
    rcases List.mem_append.mp member with earlier | later
    · exact (consistent.valid other (List.mem_append_left _ earlier)).grow
    · cases List.mem_cons.mp later with
      | inl same => exact same ▸ changes.valid
      | inr later => exact (consistent.valid other (List.mem_append_right _ (List.mem_cons_of_mem _ later))).grow
  · have apart := consistent.apart
    simp only [List.map_append, List.map_cons, List.pairwise_append, List.pairwise_cons, List.mem_map, List.mem_cons,
      forall_exists_index, and_imp] at apart ⊢
    obtain ⟨first, ⟨head, last⟩, across⟩ := apart
    refine ⟨first, ⟨?_, last⟩, ?_⟩
    · rintro _ other member rfl
      exact apart_of (issued_of other (by simp [member])) (head _ other member rfl)
    · rintro _ other member rfl ledger (rfl | ⟨second, later, rfl⟩)
      · exact (apart_of (issued_of other (by simp [member])) (across _ other member rfl _ (.inl rfl)).symm).symm
      · exact across _ other member rfl _ (.inr ⟨second, later, rfl⟩)
  · intro other member
    rcases List.mem_append.mp member with earlier | later
    · exact .inr ⟨other, List.mem_append_left _ earlier, .refl _ _ _⟩
    · cases List.mem_cons.mp later with
      | inl same => exact .inr ⟨job, by simp, same ▸ changes.records⟩
      | inr later => exact .inr ⟨other, List.mem_append_right _ (List.mem_cons_of_mem _ later), .refl _ _ _⟩

end

end AgentSaas.Proofs.CronRecords
