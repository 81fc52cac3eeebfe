import AgentSaas.Proofs.TransactionSafety
import AgentSaas.Runs.Dispatch

/-! One executing run in a session. The gate of `acquireLease` is enough as long as
no other path makes a run execute behind its back. -/

namespace AgentSaas.Proofs.RunDispatch
open AgentSaas.Transactions AgentSaas.Tables AgentSaas.Runs Dispatch TransactionSafety

variable {tenantId sessionId : String} {a b db : Database} {held : List Lock} {α β : Type}

def Grows (a b : Database) : Prop :=
  ∀ runId row, a.run runId = some row →
    ∃ after, b.run runId = some after ∧ after.tenantId = row.tenantId ∧ after.sessionId = row.sessionId

theorem Grows.refl (db : Database) : Grows db db := fun _ row found => ⟨row, found, rfl, rfl⟩

theorem Grows.trans {c : Database} (first : Grows a b) (last : Grows b c) : Grows a c := by
  intro runId row found
  obtain ⟨middle, inside, tenant, session⟩ := first runId row found
  obtain ⟨after, present, sameTenant, sameSession⟩ := last runId middle inside
  exact ⟨after, present, sameTenant.trans tenant, sameSession.trans session⟩

def Keeps (tenantId sessionId : String) : Lock → Database → Database → Prop
  | .run runId, a, b => b.run runId = a.run runId
  | .dispatch tenant session, a, b => tenant = tenantId → session = sessionId →
    ∀ runId, Executes tenantId sessionId b runId → Executes tenantId sessionId a runId
  | _, _, _ => True

theorem Keeps.refl (key : Lock) (db : Database) : Keeps tenantId sessionId key db db := by
  cases key with
  | run => rfl
  | dispatch => exact fun _ _ _ executes => executes
  | _ => trivial

theorem Keeps.trans {key : Lock} {c : Database} (first : Keeps tenantId sessionId key a b)
    (last : Keeps tenantId sessionId key b c) : Keeps tenantId sessionId key a c := by
  cases key with
  | run => exact Eq.trans last first
  | dispatch =>
    unfold Keeps at first last
    exact fun tenant session runId executes => first tenant session runId (last tenant session runId executes)
  | _ => trivial

def dispatching (tenantId sessionId : String) : Rules Database Lock where
  invariant db := ∀ left right, Executes tenantId sessionId db left → Executes tenantId sessionId db right → left = right
  grows := Grows
  keeps := Keeps tenantId sessionId
  permits := Quiet tenantId sessionId
  grows_refl := Grows.refl
  grows_trans := Grows.trans
  keeps_refl := Keeps.refl
  keeps_trans := Keeps.trans

def Starts (tenantId sessionId : String) (a b : Database) (runId : String) : Prop :=
  Executes tenantId sessionId b runId ∧ ¬ Executes tenantId sessionId a runId

structure Moved (tenantId sessionId : String) (held : List Lock) (a b : Database) : Prop where
  grows : Grows a b
  untouched : ∀ runId, .run runId ∉ held → b.run runId = a.run runId
  single : ∀ left right, Starts tenantId sessionId a b left → Starts tenantId sessionId a b right → left = right

theorem executes_of_untouched {runId : String} (same : b.run runId = a.run runId) :
    Executes tenantId sessionId b runId ↔ Executes tenantId sessionId a runId := by
  unfold Executes
  rw [same]

/-- A commit that starts a run either has the dispatch lock and found the session
idle, or is quiet. -/
theorem Moved.commits (moved : Moved tenantId sessionId held a b)
    (valid : (dispatching tenantId sessionId).invariant a)
    (alone : .dispatch tenantId sessionId ∈ held → ∀ runId, Starts tenantId sessionId a b runId →
      ∀ other, ¬ Executes tenantId sessionId a other) :
    (dispatching tenantId sessionId).Commits held a b := by
  intro others apart quiet
  have idle : ∀ runId, Starts tenantId sessionId a b runId →
      (∀ other, ¬ Executes tenantId sessionId a other) ∧ ¬ others (.dispatch tenantId sessionId) := by
    intro runId starts
    by_cases owned : .dispatch tenantId sessionId ∈ held
    · exact ⟨alone owned runId starts, apart _ owned⟩
    · exact quiet owned runId starts.1 starts.2
  refine ⟨?_, moved.grows, ?_⟩
  · intro left right first last
    by_cases old : Executes tenantId sessionId a left
    · by_cases also : Executes tenantId sessionId a right
      · exact valid left right old also
      · exact ((idle right ⟨last, also⟩).1 left old).elim
    · by_cases also : Executes tenantId sessionId a right
      · exact ((idle left ⟨first, old⟩).1 right also).elim
      · exact moved.single left right ⟨first, old⟩ ⟨last, also⟩
  · intro key blocked
    cases key with
    | run runId => exact moved.untouched runId fun owned => apart _ owned blocked
    | dispatch tenant session =>
      rintro rfl rfl runId executes
      by_contra fresh
      exact (idle runId ⟨executes, fresh⟩).2 blocked
    | _ => trivial

abbrev Safe (tenantId sessionId : String) (program : Session α) (transaction : Open Database Lock) (db : Database) : Prop :=
  (dispatching tenantId sessionId).Safe (fun _ after _ => after = .closed) program transaction db

theorem returned_safe (value : α) : Safe tenantId sessionId (.returned value) .closed db := fun _ _ _ => rfl

theorem Safe.bind {program : Session α} {next : α → Session β}
    (safe : Safe tenantId sessionId program .closed db) (valid : (dispatching tenantId sessionId).invariant db)
    (resume : ∀ value db, (dispatching tenantId sessionId).invariant db →
      Safe tenantId sessionId (next value) .closed db) :
    Safe tenantId sessionId (program >>= next) .closed db :=
  Rules.Safe.bind safe valid fun value _ db kept closed => by
    subst closed
    exact resume value db kept

theorem set_grows {update : String → Run → Run}
    (identity : ∀ runId row, (update runId row).tenantId = row.tenantId ∧ (update runId row).sessionId = row.sessionId) :
    Grows db { db with runs := db.runs.modify update } := by
  intro runId row found
  refine ⟨update runId row, ?_, identity runId row⟩
  change (db.runs.row runId).map (update runId) = some (update runId row)
  rw [show db.runs.row runId = some row from found, Option.map_some]

theorem updateRun_write_other {runId other : String} {update : Database → RowUpdate} (apart : other ≠ runId) :
    ((updateRun runId update).write a b).run other = b.run other := by
  simp [updateRun, Database.run, apart]

theorem updateRun_moved (runId : String) (update : Database → RowUpdate) :
    Moved tenantId sessionId ((updateRun runId update).locks a) b ((updateRun runId update).write a b) := by
  refine ⟨?_, ?_, ?_⟩
  · refine set_grows fun key row => ?_
    split
    · exact ((update a).identity row).2
    · exact ⟨rfl, rfl⟩
  · intro other unlocked
    by_cases same : other = runId
    · subst same
      have missed : (a.run other).any (update a).hits = false := by
        by_contra hit
        simp [updateRun, hit] at unlocked
      unfold Database.run at missed
      simp [updateRun, Database.run, missed]
    · exact updateRun_write_other same
  · intro left right first last
    have fresh {key : String} (starts : Starts tenantId sessionId b ((updateRun runId update).write a b) key) :
        key = runId := by
      by_contra apart
      exact starts.2 ((executes_of_untouched (updateRun_write_other apart)).mp starts.1)
    rw [fresh first, fresh last]

theorem execute_safe {statement : Query α}
    (moved : ∀ snapshot later, Moved tenantId sessionId (statement.locks snapshot) later (statement.write snapshot later))
    (ungated : ∀ snapshot, .dispatch tenantId sessionId ∉ statement.locks snapshot) :
    Safe tenantId sessionId (execute statement) .closed db :=
  Rules.Safe.executed fun snapshot later _ _ valid _ =>
    ⟨(moved snapshot later).commits valid fun owned => (ungated snapshot owned).elim, fun _ _ _ => rfl⟩

theorem updateRun_safe (runId : String) (update : Database → RowUpdate) :
    Safe tenantId sessionId (execute (updateRun runId update)) .closed db :=
  execute_safe (fun _ _ => updateRun_moved runId update) fun snapshot => by
    simp only [updateRun]
    split <;> simp

theorem updateLockedRun_moved (runId : String) (update : RowUpdate) :
    Moved tenantId sessionId ((updateLockedRun runId update).locks a) b ((updateLockedRun runId update).write a b) := by
  have other {key : String} (apart : key ≠ runId) :
      ((updateLockedRun runId update).write a b).run key = b.run key := by
    simp [updateLockedRun, Database.run, apart]
  refine ⟨?_, ?_, ?_⟩
  · refine set_grows fun key row => ?_
    split
    · exact ⟨update.apply_tenantId row, update.apply_sessionId row⟩
    · exact ⟨rfl, rfl⟩
  · intro key unlocked
    by_cases same : key = runId
    · subst same
      have missing : a.run key = none := by
        by_contra present
        simp [updateLockedRun, Option.isSome_iff_ne_none.mpr present] at unlocked
      simp [updateLockedRun, Database.run, show a.runs.row key = none from missing]
    · exact other same
  · intro left right first last
    have fresh {key : String} (starts : Starts tenantId sessionId b ((updateLockedRun runId update).write a b) key) :
        key = runId := by
      by_contra apart
      exact starts.2 ((executes_of_untouched (other apart)).mp starts.1)
    rw [fresh first, fresh last]

theorem updateLockedRun_safe (runId : String) (update : RowUpdate) :
    Safe tenantId sessionId (execute (updateLockedRun runId update)) .closed db :=
  execute_safe (fun _ _ => updateLockedRun_moved runId update) fun snapshot => by
    simp only [updateLockedRun]
    split <;> simp

theorem insertRun_moved {row : Run} (pending : row.status = .pending) :
    Moved tenantId sessionId ((insertRun row).locks a) b ((insertRun row).write a b) := by
  by_cases present : (a.run row.runId).isSome
  · have same : (insertRun row).write a b = b := by simp [insertRun, present]
    rw [same]
    exact ⟨.refl b, fun _ _ => rfl, fun _ _ starts _ => (starts.2 starts.1).elim⟩
  · have written : (insertRun row).write a b = { b with runs := b.runs.insert row.runId row } := by
      simp [insertRun, present]
    rw [written]
    refine ⟨fun key old found => ⟨old, Table.insert_row_kept found, rfl, rfl⟩, fun key unlocked => ?_, ?_⟩
    · exact Table.insert_row_other (fun same => unlocked (by simp [insertRun, present, same])) row
    · intro left right starts _
      obtain ⟨⟨after, found, tenant, session, executing⟩, idle⟩ := starts
      by_cases old : b.run left = some after
      · exact (idle ⟨after, old, tenant, session, executing⟩).elim
      · have fresh : after = row := by
          change (b.runs.insert row.runId row).row left = some after at found
          by_cases known : (b.runs.row row.runId).isSome
          · rw [Table.insert_of_some known] at found
            exact (old found).elim
          · rw [Table.insert_row_of_none (by simpa using known)] at found
            by_cases same : left = row.runId
            · rw [same, Function.update_self] at found
              exact (Option.some.inj found).symm
            · rw [Function.update_of_ne same] at found
              exact (old found).elim
        rw [fresh, pending] at executing
        cases executing

/-! Transactions that stop runs and start none. -/

/-- The transaction has no dispatch lock, and its patch only touches rows it has
locked and makes none of them execute. -/
structure Stops (tenantId sessionId : String) (transaction : Open Database Lock) : Prop where
  ungated : .dispatch tenantId sessionId ∉ transaction.held
  untouched : ∀ db runId, .run runId ∉ transaction.held → (transaction.patch db).run runId = db.run runId
  grows : ∀ db, Grows db (transaction.patch db)
  executes : ∀ db runId, Executes tenantId sessionId (transaction.patch db) runId → Executes tenantId sessionId db runId

theorem Stops.closed : Stops tenantId sessionId .closed :=
  ⟨List.not_mem_nil, fun _ _ _ => rfl, fun db => .refl db, fun _ _ executes => executes⟩

theorem Stops.lock {transaction : Open Database Lock} (stops : Stops tenantId sessionId transaction)
    {more : List Lock} (ungated : .dispatch tenantId sessionId ∉ more) :
    Stops tenantId sessionId ⟨more ++ transaction.held, transaction.patch⟩ :=
  ⟨fun owned => (List.mem_append.mp owned).elim ungated stops.ungated,
    fun db runId free => stops.untouched db runId fun owned => free (List.mem_append_right _ owned), stops.grows,
    stops.executes⟩

theorem executes_set {update : String → Run → Run} {runId : String}
    (identity : ∀ key row, (update key row).tenantId = row.tenantId ∧ (update key row).sessionId = row.sessionId)
    (settles : ∀ key row, (update key row).status.isExecuting → row.status.isExecuting)
    (executes : Executes tenantId sessionId { db with runs := db.runs.modify update } runId) :
    Executes tenantId sessionId db runId := by
  obtain ⟨after, found, tenant, session, executing⟩ := executes
  obtain ⟨row, present, rfl⟩ := Option.map_eq_some_iff.mp (show (db.runs.row runId).map (update runId) = some after from found)
  exact ⟨row, present, (identity runId row).1.symm.trans tenant, (identity runId row).2.symm.trans session,
    settles runId row executing⟩

theorem Stops.updateRuns {transaction : Open Database Lock} (stops : Stops tenantId sessionId transaction)
    {wanted : String → Run → Bool} {update : Database → String → RowUpdate}
    (settles : ∀ db key row, ((update db key).set row).status.isExecuting → row.status.isExecuting) :
    Stops tenantId sessionId (transaction.after (updateRuns wanted update) db) := by
  have identity : ∀ key row,
      (if ((transaction.patch db).hits wanted update).contains key then (update (transaction.patch db) key).set row
        else row).tenantId = row.tenantId ∧
      (if ((transaction.patch db).hits wanted update).contains key then (update (transaction.patch db) key).set row
        else row).sessionId = row.sessionId := by
    intro key row
    split
    · exact ((update _ key).identity row).2
    · exact ⟨rfl, rfl⟩
  refine ⟨?_, fun later runId free => ?_, fun later => ?_, fun later runId executes => ?_⟩
  · simp [Open.after, Runs.updateRuns, stops.ungated]
  · simp only [Open.after, Runs.updateRuns, List.mem_append, List.mem_map, Lock.run.injEq, exists_eq_right, not_or] at free
    have kept := stops.untouched later runId free.2
    simpa [Open.after, Runs.updateRuns, Database.run, free.1] using kept
  · exact (stops.grows later).trans (set_grows identity)
  · refine stops.executes later runId (executes_set identity (fun key row executing => ?_) executes)
    split at executing
    · exact settles _ key row executing
    · exact executing

theorem Stops.updateRun {transaction : Open Database Lock} (stops : Stops tenantId sessionId transaction)
    {runId : String} {update : Database → RowUpdate}
    (settles : ∀ db row, ((update db).set row).status.isExecuting → row.status.isExecuting) :
    Stops tenantId sessionId (transaction.after (updateRun runId update) db) := by
  have moved := @updateRun_moved tenantId sessionId (transaction.patch db)
  refine ⟨?_, fun later key free => ?_, fun later => ?_, fun later key executes => ?_⟩
  · simp only [Open.after, Runs.updateRun]
    split <;> simp [stops.ungated]
  · obtain ⟨first, last⟩ := not_or.mp (fun owned => free (List.mem_append.mpr owned))
    exact ((moved runId update).untouched key first).trans (stops.untouched later key last)
  · exact (stops.grows later).trans (moved runId update).grows
  · refine stops.executes later key (executes_set (fun other row => ?_) (fun other row executing => ?_) executes)
    · split
      · exact ((update _).identity row).2
      · exact ⟨rfl, rfl⟩
    · split at executing
      · exact settles _ row executing
      · exact executing

theorem Stops.commit {transaction : Open Database Lock} (stops : Stops tenantId sessionId transaction)
    (valid : (dispatching tenantId sessionId).invariant db) :
    (dispatching tenantId sessionId).Commits transaction.held db (transaction.patch db) := by
  have moved : Moved tenantId sessionId transaction.held db (transaction.patch db) :=
    ⟨stops.grows db, stops.untouched db, fun left _ starts _ => (starts.2 (stops.executes db left starts.1)).elim⟩
  exact moved.commits valid fun owned => (stops.ungated owned).elim

theorem finish_safe {transaction : Open Database Lock} (stops : Stops tenantId sessionId transaction) (value : α) :
    Safe tenantId sessionId (do commit; return value) transaction db :=
  Rules.Safe.commit fun _ valid _ => ⟨stops.commit valid, fun _ => returned_safe value⟩

theorem lockRun_locks (runId : String) (snapshot : Database) :
    .dispatch tenantId sessionId ∉ (lockRun runId).locks snapshot := by
  simp only [lockRun, Statement.lock]
  split <;> simp

theorem markStatus_safe (runId : String) (status : RunStatus) (reason : Option String) (patch : Metadata) :
    Safe tenantId sessionId (RunStore.markStatus runId status reason patch) .closed db := by
  unfold RunStore.markStatus
  split
  · refine Rules.Safe.lock fun first _ _ => ?_
    have stops := Stops.lock .closed (@lockRun_locks tenantId sessionId runId first)
    split
    · exact finish_safe stops none
    · split
      · exact finish_safe stops (some _)
      · refine Rules.Safe.answer fun outside => Rules.Safe.query fun later _ _ => ?_
        exact finish_safe (stops.updateRun fun _ _ executing => by cases executing) _
  · exact Rules.Safe.answer fun outside => updateLockedRun_safe runId _

theorem markStatusIfCurrent_safe {runId : String} {expectedStatuses : List RunStatus} {status : RunStatus}
    {reason : Option String} {patch : Metadata} {leaseAuthority : Option RunLeaseAuthority} :
    Safe tenantId sessionId (RunStore.markStatusIfCurrent runId expectedStatuses status reason patch leaseAuthority)
      .closed db :=
  Rules.Safe.answer fun _ => updateRun_safe runId _

theorem get_safe (runId : String) : Safe tenantId sessionId (RunStore.get runId) .closed db :=
  Rules.Safe.executed fun _ _ _ _ valid _ => ⟨.unchanged valid, fun _ _ _ => rfl⟩

variable (valid : (dispatching tenantId sessionId).invariant db)
include valid

theorem trackRunStateAfterEvent_safe (runId : String) (event : RunStore.StateEvent) :
    Safe tenantId sessionId (RunStore.trackRunStateAfterEvent runId event) .closed db := by
  unfold RunStore.trackRunStateAfterEvent
  split
  · exact returned_safe false
  · refine (get_safe runId).bind valid fun before db kept => ?_
    split
    · exact returned_safe false
    · exact (markStatus_safe runId _ _ _).bind kept fun updated _ _ => returned_safe _

theorem finalizeTerminalRun_safe {runId : String} {status : RunStatus} {reason : Option String} {patch : Metadata}
    {stateOnlyRepair : Bool} :
    Safe tenantId sessionId (RunStore.finalizeTerminalRun runId status reason patch stateOnlyRepair) .closed db := by
  refine (get_safe runId).bind valid fun _ db kept => ?_
  cases stateOnlyRepair with
  | true =>
    refine Rules.Safe.answer fun outside => ?_
    exact (updateRun_safe runId _).bind kept fun _ _ _ => returned_safe _
  | false => exact markStatusIfCurrent_safe.bind kept fun _ _ _ => returned_safe _

theorem markRunState_safe {runId : String} {status : RunStatus} {reason : Option String} {patch : Metadata} :
    Safe tenantId sessionId (RunStore.markRunState runId status reason patch) .closed db := by
  refine (get_safe runId).bind valid fun _ db kept => ?_
  split
  · exact finalizeTerminalRun_safe kept
  · exact (markStatus_safe runId status reason _).bind kept fun _ _ _ => returned_safe _

omit valid

theorem reapExpiredLiveness_safe (now staleGraceMs : Int) (limit : Nat) :
    Safe tenantId sessionId (RunStore.reapExpiredLiveness now staleGraceMs limit) .closed db := by
  refine Rules.Safe.answer fun first => Rules.Safe.lock fun snapshot _ _ => ?_
  refine Rules.Safe.answer fun second => Rules.Safe.query fun other _ _ => ?_
  refine Rules.Safe.answer fun third => Rules.Safe.query fun last _ _ => finish_safe ?_ _
  refine Stops.updateRuns (Stops.updateRuns (Stops.lock .closed ?_) fun _ _ _ executing => ?_) fun _ _ _ executing => ?_
  · intro owned
    obtain ⟨_, _, same⟩ := List.mem_map.mp owned
    cases same
  · cases executing
  · exact executing

theorem refused_safe {transaction : Open Database Lock} : Safe tenantId sessionId RunStore.refused transaction db :=
  Rules.Safe.rollback fun _ _ _ => returned_safe _

structure Reads (transaction : Open Database Lock) : Prop where
  patch : transaction.patch = id
  locks : ∀ key ∈ transaction.held, key = .capacity

theorem admitCapacity_safe {runId : String} {now : Int} {maxConcurrentRuns : Option Int}
    {admission : Option RunStore.RunLeaseAdmission} :
    (dispatching tenantId sessionId).Safe (fun _ after _ => Reads after)
      (RunStore.admitCapacity runId now maxConcurrentRuns admission) .closed db := by
  unfold RunStore.admitCapacity
  split
  · exact fun _ _ _ => ⟨rfl, fun _ owned => by cases owned⟩
  next maximum =>
    have reads : Reads ⟨[.capacity] ++ [], id⟩ := ⟨rfl, fun key owned => by simpa using owned⟩
    have counted {db : Database} : (dispatching tenantId sessionId).Safe (fun _ after _ => Reads after)
        (RunStore.admitByCount now maximum admission) ⟨[.capacity] ++ [], id⟩ db :=
      Rules.Safe.read fun _ _ _ => fun _ _ _ => reads
    refine Rules.Safe.lock fun _ _ _ => ?_
    split
    · exact counted
    · refine Rules.Safe.read fun _ _ _ => ?_
      split
      split
      · exact fun _ _ _ => reads
      · split
        · exact counted
        · exact fun _ _ _ => reads

theorem blockersCleared_alone {runId : String} {candidate : Run} (cleared : db.blockersCleared runId candidate = true) :
    ∀ other, other ≠ runId → ¬ Executes candidate.tenantId candidate.sessionId db other := by
  rintro other apart ⟨row, found, tenant, session, executing⟩
  simp only [Database.blockersCleared, Bool.and_eq_true, Bool.not_eq_true'] at cleared
  have idle := Table.has_eq_false.mp cleared.1.2 other row found
  simp [tenant, session, apart, executing] at idle

theorem takeLease_cleared {runId : String} {request : LeaseRequest} {inherits : Bool} {snapshot later : Database}
    (changed : ((RunStore.takeLease runId request inherits).write snapshot later).run runId ≠ later.run runId) :
    ∃ row, snapshot.run runId = some row ∧ snapshot.blockersCleared runId row = true := by
  cases found : snapshot.run runId with
  | none =>
    rw [Database.run] at found
    simp [RunStore.takeLease, updateRun, Database.run, found] at changed
  | some row =>
    refine ⟨row, rfl, ?_⟩
    by_contra blocked
    unfold Database.run at found
    simp [RunStore.takeLease, updateRun, Database.run, found, acquireLease, blocked] at changed

/-- The gate's answer holds until the commit, because the dispatch lock keeps it. -/
theorem takeLease_commits {runId : String} {request : LeaseRequest} {inherits : Bool} {snapshot later : Database}
    {gated : List Lock} (tenant session : String) (valid : (dispatching tenantId sessionId).invariant later)
    (known : ∀ row, snapshot.run runId = some row → row.tenantId = tenant ∧ row.sessionId = session)
    (only : .dispatch tenantId sessionId ∈ gated → tenant = tenantId ∧ session = sessionId)
    (moved : (dispatching tenantId sessionId).Moves ((RunStore.takeLease runId request inherits).locks snapshot ++ gated)
      snapshot later) :
    (dispatching tenantId sessionId).Commits ((RunStore.takeLease runId request inherits).locks snapshot ++ gated) later
      ((RunStore.takeLease runId request inherits).write snapshot later) := by
  have one := @updateRun_moved tenantId sessionId snapshot later runId
    fun db => acquireLease request inherits (db.runningTool runId) ((db.run runId).any (db.blockersCleared runId))
  refine Moved.commits ⟨one.grows, fun key free => ?_, one.single⟩ valid fun owned key starts other => ?_
  · exact one.untouched key fun inside => free (List.mem_append_left _ inside)
  · have dispatch : Lock.dispatch tenantId sessionId ∈ gated := by
      refine (List.mem_append.mp owned).resolve_left fun inside => ?_
      simp only [RunStore.takeLease, updateRun] at inside
      split at inside <;> simp at inside
    obtain ⟨rfl, rfl⟩ := only dispatch
    have mine : key = runId := by
      by_contra apart
      exact starts.2 ((executes_of_untouched (updateRun_write_other apart)).mp starts.1)
    subst mine
    obtain ⟨row, found, cleared⟩ := takeLease_cleared fun same => starts.2 ((executes_of_untouched same).mp starts.1)
    obtain ⟨rfl, rfl⟩ := known row found
    intro executes
    by_cases same : other = key
    · exact starts.2 (same ▸ executes)
    · have kept : Keeps row.tenantId row.sessionId (.dispatch row.tenantId row.sessionId) snapshot later := moved.2 _ owned
      unfold Keeps at kept
      exact blockersCleared_alone cleared other same (kept rfl rfl other executes)

theorem acquireLease_safe {runId : String} {request : LeaseRequest} {maxConcurrentRuns : Option Int}
    {admission : Option RunStore.RunLeaseAdmission} {identity : Option RunStore.RunLeaseIdentity}
    (valid : (dispatching tenantId sessionId).invariant db) :
    Safe tenantId sessionId (RunStore.acquireLease runId request maxConcurrentRuns admission identity) .closed db := by
  unfold RunStore.acquireLease
  split
  · exact returned_safe _
  · refine Rules.Safe.bind admitCapacity_safe valid fun inherits transaction db _ reads => ?_
    split
    · exact refused_safe
    next inherits =>
      refine Rules.Safe.read fun seen _ _ => ?_
      split
      · exact refused_safe
      next tenant session candidate =>
        split
        · exact refused_safe
        · refine Rules.Safe.lock fun first _ gained => Rules.Safe.query fun snapshot _ more => ?_
          refine Rules.Safe.commit fun later kept moved => ⟨?_, fun _ => returned_safe _⟩
          have plain : transaction.patch = id := reads.patch
          simp only [Open.after, plain, Function.comp_id, id_eq] at moved ⊢
          refine takeLease_commits tenant session kept ?_ ?_ moved
          · intro row found
            obtain ⟨old, chosen, same⟩ := Option.map_eq_some_iff.mp candidate
            obtain ⟨rfl, rfl⟩ := Prod.mk.inj same
            rw [plain] at chosen
            obtain ⟨after, present, tenant, session⟩ := Grows.trans gained.1 more.1 runId old (Option.filter_eq_some_iff.mp chosen).1
            obtain rfl : row = after := Option.some.inj (found.symm.trans present)
            exact ⟨tenant, session⟩
          · intro owned
            cases List.mem_append.mp owned with
            | inl gate =>
              obtain ⟨rfl, rfl⟩ := Lock.dispatch.inj (List.mem_singleton.mp gate)
              exact ⟨rfl, rfl⟩
            | inr held => cases reads.locks _ held

theorem changeOthers_safe (inputs : Table String SteeringInput → Table String SteeringInput)
    (invocations : Table String ToolInvocation → Table String ToolInvocation) :
    Safe tenantId sessionId (execute (changeOthers inputs invocations)) .closed db :=
  execute_safe (fun _ _ => ⟨.refl _, fun _ _ => rfl, fun _ _ starts _ => (starts.2 starts.1).elim⟩) fun _ => by
    simp [changeOthers]

theorem request_safe (request : Request) (valid : (dispatching tenantId sessionId).invariant db) :
    Safe tenantId sessionId request.run .closed db := by
  cases request with
  | enqueue row =>
    refine (execute_safe (fun _ _ => insertRun_moved rfl) fun snapshot => ?_).bind valid fun _ _ _ => returned_safe _
    simp only [insertRun]
    split <;> simp
  | acquireLease runId request maxConcurrentRuns admission identity =>
    exact (acquireLease_safe valid).bind valid fun _ _ _ => returned_safe _
  | renewLease runId request source => exact (updateRun_safe runId _).bind valid fun _ _ _ => returned_safe _
  | releaseLease runId workerId finalStatus reason leaseToken =>
    exact Rules.Safe.answer fun _ => (updateRun_safe runId _).bind valid fun _ _ _ => returned_safe _
  | reapExpiredLiveness now staleGraceMs limit =>
    exact (reapExpiredLiveness_safe now staleGraceMs limit).bind valid fun _ _ _ => returned_safe _
  | trackRunStateAfterEvent runId event =>
    exact (trackRunStateAfterEvent_safe valid runId event).bind valid fun _ _ _ => returned_safe _
  | markRunState runId status reason patch => exact (markRunState_safe valid).bind valid fun _ _ _ => returned_safe _
  | claimPersistedInteractionResume runId expectedStatuses reason patch =>
    exact Rules.Safe.answer fun _ => (updateRun_safe runId _).bind valid fun _ _ _ => returned_safe _
  | finalizeTerminalRun runId status reason patch stateOnlyRepair =>
    exact (finalizeTerminalRun_safe valid).bind valid fun _ _ _ => returned_safe _
  | changeOthers inputs invocations =>
    exact (changeOthers_safe inputs invocations).bind valid fun _ _ _ => returned_safe _

theorem covers : (dispatching tenantId sessionId).Covers (store (Quiet tenantId sessionId)) (fun _ _ _ => True) where
  permits permitted := permitted
  admits := by
    rintro _ program db ⟨request, rfl⟩ valid
    exact (request_safe request valid).weaken fun _ _ _ _ _ => trivial
  lasting _ _ _ := trivial

/-- Two runs of a session never execute at once, as long as a commit that makes one
execute without the dispatch lock is quiet. -/
theorem one_executes (tenantId sessionId : String) {start : Database} {world : World Database Lock Outside Reply}
    (idle : ∀ runId, ¬ Executes tenantId sessionId start runId)
    (run : Run (store (Quiet tenantId sessionId)) ⟨start, []⟩ world) :
    ∀ left right, Executes tenantId sessionId world.db left → Executes tenantId sessionId world.db right →
      left = right := by
  have started : (dispatching tenantId sessionId).invariant start :=
    fun left _ executes _ => (idle left executes).elim
  exact ((Rules.Holds.start started).run covers run).1.invariant

def submission (runId : String) : Run :=
  pendingRun ⟨runId, "s1", some "u1", none, some "acme", none, some "web", some runId, none, none, .empty⟩ .empty 1 1

def lease (runId workerId : String) : Request :=
  .acquireLease runId ⟨workerId, 60000, 2, none⟩ none none none

/-- A step that the dispatch lock covers, or that makes no run execute. -/
def gatedOnly (own : List Lock) (before after : Database) : Bool :=
  let executing := fun (db : Database) => db.runs.select fun _ row =>
    row.tenantId = "acme" && row.sessionId = "s1" && row.status.isExecuting
  own.contains (.dispatch "acme" "s1") || (executing after).all (executing before).contains

theorem gatedOnly_quiet {own : List Lock} {others : Lock → Prop} (gated : gatedOnly own a b = true) :
    Quiet "acme" "s1" own others a b := by
  intro unlocked runId executes idle
  simp only [gatedOnly, Bool.or_eq_true, List.contains_iff_mem, unlocked, false_or, List.all_eq_true] at gated
  obtain ⟨row, found, tenant, session, executing⟩ := executes
  obtain ⟨old, present, same⟩ := Table.mem_select.mp (gated runId (Table.mem_select.mpr ⟨row, found, by
    simp [tenant, session, executing]⟩))
  simp only [Bool.and_eq_true, decide_eq_true_eq] at same
  exact (idle ⟨old, present, same.1.1, same.1.2, same.2⟩).elim

theorem requests_admitted {permits : List Lock → (Lock → Prop) → Database → Database → Prop} (requests : List Request) :
    Run (store permits) (World.mk Database.empty []) (World.spawn ⟨.empty, []⟩ (requests.map Request.run)) :=
  run_of_spawn _ fun program member _ => by
    obtain ⟨request, _, rfl⟩ := List.mem_map.mp member
    exact ⟨request, rfl⟩

def outside : Outside := ⟨3, [], true⟩

def contended : Option (World Database Lock Outside Reply) :=
  (World.spawn ⟨.empty, []⟩ ([.enqueue (submission "r1"), .enqueue (submission "r2"), lease "r1" "w1",
    lease "r2" "w2"].map Request.run)).play gatedOnly
    ([0, 0, 1, 1, 2, 2, 2, 2, 3, 3, 3, 3].map fun index => (index, outside))

theorem one_executes_contended : ∃ world, contended = some world ∧
    ["r1", "r2"].map (fun runId => (world.db.run runId).map (·.status)) = [some .running, some .pending] ∧
    ∀ left right, Executes "acme" "s1" world.db left → Executes "acme" "s1" world.db right → left = right := by
  have played : contended.map (fun world => ["r1", "r2"].map fun runId => (world.db.run runId).map (·.status)) =
      some [some .running, some .pending] := by decide +kernel
  obtain ⟨world, same, statuses⟩ := Option.map_eq_some_iff.mp played
  have run : Run (store (Quiet "acme" "s1")) (World.mk Database.empty []) world :=
    (requests_admitted _).trans (run_of_play (fun _ _ _ _ => gatedOnly_quiet) same)
  have idle : ∀ runId, ¬ Executes "acme" "s1" Database.empty runId := by
    rintro runId ⟨row, found, _⟩
    cases found
  exact ⟨world, same, statuses, one_executes "acme" "s1" idle run⟩

/-- The first run waits for an approval, the second is leased meanwhile, and the
approval sets the first one running again. -/
def resumed : Option (World Database Lock Outside Reply) :=
  (World.spawn ⟨.empty, []⟩ ([.enqueue (submission "r1"), lease "r1" "w1",
    .trackRunStateAfterEvent "r1" (.approvalRequested "a1"), .enqueue (submission "r2"), lease "r2" "w2",
    .trackRunStateAfterEvent "r1" (.approvalResolved "a1")].map Request.run)).play (fun _ _ _ => true)
    ([0, 0, 1, 1, 1, 1, 2, 2, 2, 2, 2, 3, 3, 4, 4, 4, 4, 5, 5, 5, 5, 5].map fun index => (index, outside))

theorem resumed_executes_twice : ¬ ∀ world : World Database Lock Outside Reply,
    Run (store fun _ _ _ _ => True) ⟨.empty, []⟩ world →
    ∀ left right, Executes "acme" "s1" world.db left → Executes "acme" "s1" world.db right → left = right := by
  intro claimed
  have played : resumed.map (fun world => ["r1", "r2"].map fun runId =>
      (world.db.run runId).map fun row => (row.tenantId, row.sessionId, row.status)) =
      some [some ("acme", "s1", .running), some ("acme", "s1", .running)] := by decide +kernel
  obtain ⟨world, same, rows⟩ := Option.map_eq_some_iff.mp played
  simp only [List.map_cons, List.map_nil, List.cons.injEq, and_true] at rows
  have executes {runId : String} (row : (world.db.run runId).map (fun row => (row.tenantId, row.sessionId, row.status)) =
      some ("acme", "s1", .running)) : Executes "acme" "s1" world.db runId := by
    obtain ⟨found, present, fields⟩ := Option.map_eq_some_iff.mp row
    simp only [Prod.mk.injEq] at fields
    exact ⟨found, present, fields.1, fields.2.1, by rw [fields.2.2]; rfl⟩
  have run : Run (store fun _ _ _ _ => True) (World.mk Database.empty []) world :=
    (requests_admitted _).trans (run_of_play (fun _ _ _ _ _ => trivial) same)
  exact absurd (claimed world run "r1" "r2" (executes rows.1) (executes rows.2)) (by decide)

end AgentSaas.Proofs.RunDispatch
