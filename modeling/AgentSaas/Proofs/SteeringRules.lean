import AgentSaas.Proofs.TransactionSafety
import AgentSaas.Runs.Steering

/-! What a steering transaction may do to the run and input rows it has locked, and
what that leaves of everybody else's promises. -/

namespace AgentSaas.Proofs.SteeringRules
open AgentSaas.Transactions AgentSaas.Tables AgentSaas.Runs TransactionSafety

variable {a b c db : Database} {held more : List Lock} {α β : Type}

def IsSteered (row : Run) : Prop := row.status = .completed ∧ row.statusReason = some "steered_into_run"

/-- An input names a source and a target of its own session, and it is applied
exactly when its source was completed by steering. -/
structure Consistent (db : Database) : Prop where
  source : ∀ key input, db.input key = some input →
    ∃ row, db.run key = some row ∧ row.tenantId = input.tenantId ∧ row.sessionId = input.sessionId
  target : ∀ key input, db.input key = some input →
    ∃ row, db.run input.targetRunId = some row ∧ row.tenantId = input.tenantId ∧ row.sessionId = input.sessionId
  applied : ∀ key input row, db.input key = some input → db.run key = some row →
    (input.state = .applied ↔ IsSteered row)

def Undispatched (tenantId sessionId : String) (db : Database) (key : String) : Prop :=
  ∃ input row, db.input key = some input ∧ input.tenantId = tenantId ∧ input.sessionId = sessionId ∧
    input.state.isOpen ∧ db.run key = some row ∧ row.status = .pending

def Quieted (db : Database) (targetRunId : String) : Prop :=
  ∃ target, db.run targetRunId = some target ∧ RunStore.isSealed target = true ∧
    ∀ key input source, db.input key = some input → input.targetRunId = targetRunId → input.state.isOpen →
      db.run key = some source → source.status ≠ .pending

def Withdrawn (db : Database) (sourceRunId : String) : Prop :=
  ∃ row, db.run sourceRunId = some row ∧ row.status = .cancelled

structure RunMove (before after : Run) : Prop where
  tenant : after.tenantId = before.tenantId
  session : after.sessionId = before.sessionId
  sink : before.status.isTerminal → after.status = before.status ∧ after.statusReason = before.statusReason
  pending : after.status = .pending → before.status = .pending
  closed : RunStore.isSealed before → RunStore.isSealed after

theorem RunMove.refl (row : Run) : RunMove row row := ⟨rfl, rfl, fun _ => ⟨rfl, rfl⟩, id, id⟩

theorem RunMove.trans {first middle last : Run} (left : RunMove first middle) (right : RunMove middle last) :
    RunMove first last := by
  refine ⟨right.tenant.trans left.tenant, right.session.trans left.session, fun ended => ?_,
    fun pending => left.pending (right.pending pending), fun shut => right.closed (left.closed shut)⟩
  obtain ⟨status, reason⟩ := left.sink ended
  obtain ⟨same, kept⟩ := right.sink (status ▸ ended)
  exact ⟨same.trans status, kept.trans reason⟩

theorem RunMove.update {update : RowUpdate} {row : Run} (still : row.status.isTerminal = false)
    (pending : (update.set row).status = .pending → row.status = .pending)
    (window : (update.set row).metadata "steeringInputWindow" = row.metadata "steeringInputWindow") :
    RunMove row (update.set row) := by
  refine ⟨(update.identity row).2.1, (update.identity row).2.2, fun ended => ?_, pending, fun shut => ?_⟩
  · simp [still] at ended
  · rw [RunStore.isSealed, window]
    exact shut

structure InputMove (before after : SteeringInput) : Prop where
  tenant : after.tenantId = before.tenantId
  session : after.sessionId = before.sessionId
  target : after.targetRunId = before.targetRunId
  sink : before.state.isOpen = false → after.state = before.state
  opened : after.state.isOpen → before.state.isOpen

theorem InputMove.refl (input : SteeringInput) : InputMove input input := ⟨rfl, rfl, rfl, fun _ => rfl, id⟩

theorem InputMove.trans {first middle last : SteeringInput} (left : InputMove first middle)
    (right : InputMove middle last) : InputMove first last := by
  refine ⟨right.tenant.trans left.tenant, right.session.trans left.session, right.target.trans left.target,
    fun settled => ?_, fun opened => left.opened (right.opened opened)⟩
  have same := left.sink settled
  exact (right.sink (same ▸ settled)).trans same

structure Grows (a b : Database) : Prop where
  runs : ∀ key row, a.run key = some row → ∃ after, b.run key = some after ∧ RunMove row after
  inputs : ∀ key input, a.input key = some input → ∃ after, b.input key = some after ∧ InputMove input after
  quieted : ∀ target, Quieted a target → Quieted b target

theorem Grows.refl (db : Database) : Grows db db :=
  ⟨fun _ row found => ⟨row, found, .refl row⟩, fun _ input found => ⟨input, found, .refl input⟩, fun _ quieted => quieted⟩

theorem Grows.trans (first : Grows a b) (last : Grows b c) : Grows a c := by
  refine ⟨fun key row found => ?_, fun key input found => ?_,
    fun target quieted => last.quieted target (first.quieted target quieted)⟩
  · obtain ⟨middle, inside, move⟩ := first.runs key row found
    obtain ⟨after, present, next⟩ := last.runs key middle inside
    exact ⟨after, present, move.trans next⟩
  · obtain ⟨middle, inside, move⟩ := first.inputs key input found
    obtain ⟨after, present, next⟩ := last.inputs key middle inside
    exact ⟨after, present, move.trans next⟩

theorem Withdrawn.grow {key : String} (withdrawn : Withdrawn a key) (growth : Grows a b) : Withdrawn b key := by
  obtain ⟨row, found, cancelled⟩ := withdrawn
  obtain ⟨after, present, move⟩ := growth.runs key row found
  exact ⟨after, present, (move.sink (by simp [cancelled, RunStatus.isTerminal])).1.trans cancelled⟩

def Keeps : Lock → Database → Database → Prop
  | .run key, a, b => b.run key = a.run key
  | .input key, a, b => b.input key = a.input key
  | .message tenantId sessionId, a, b => ∀ key, Undispatched tenantId sessionId b key → Undispatched tenantId sessionId a key
  | _, _, _ => True

theorem Keeps.refl (key : Lock) (db : Database) : Keeps key db db := by
  cases key with
  | run | input => rfl
  | message => exact fun _ undispatched => undispatched
  | _ => trivial

theorem Keeps.trans {key : Lock} (first : Keeps key a b) (last : Keeps key b c) : Keeps key a c := by
  cases key with
  | run | input => exact Eq.trans last first
  | message =>
    unfold Keeps at first last
    exact fun key undispatched => first key (last key undispatched)
  | _ => trivial

def steering : Rules Database Lock where
  invariant := Consistent
  grows := Grows
  keeps := Keeps
  permits _ _ _ _ := True
  grows_refl := Grows.refl
  grows_trans := Grows.trans
  keeps_refl := Keeps.refl
  keeps_trans := Keeps.trans

theorem run_kept {key : String} (moved : steering.Moves held a b) (owned : .run key ∈ held) : b.run key = a.run key :=
  moved.2 _ owned

theorem input_kept {key : String} (moved : steering.Moves held a b) (owned : .input key ∈ held) :
    b.input key = a.input key := moved.2 _ owned

structure Change (held : List Lock) (a b : Database) : Prop where
  runs : ∀ key row, a.run key = some row →
    ∃ after, b.run key = some after ∧ RunMove row after ∧ (.run key ∈ held ∨ after = row)
  inputs : ∀ key input, a.input key = some input →
    ∃ after, b.input key = some after ∧ InputMove input after ∧ (.input key ∈ held ∨ after = input)
  noRun : ∀ key, a.run key = none → b.run key = none
  noInput : ∀ key, a.input key = none → b.input key = none
  applied : Consistent a → ∀ key input row, b.input key = some input → b.run key = some row →
    (input.state = .applied ↔ IsSteered row)

variable (change : Change held a b)
include change

theorem Change.runBefore {key : String} {after : Run} (found : b.run key = some after) :
    ∃ row, a.run key = some row ∧ RunMove row after ∧ (.run key ∈ held ∨ after = row) := by
  cases before : a.run key with
  | none => simp [change.noRun key before] at found
  | some row =>
    obtain ⟨moved, present, move⟩ := change.runs key row before
    obtain rfl : moved = after := Option.some.inj (present.symm.trans found)
    exact ⟨row, rfl, move⟩

theorem Change.inputBefore {key : String} {after : SteeringInput} (found : b.input key = some after) :
    ∃ input, a.input key = some input ∧ InputMove input after ∧ (.input key ∈ held ∨ after = input) := by
  cases before : a.input key with
  | none => simp [change.noInput key before] at found
  | some input =>
    obtain ⟨moved, present, move⟩ := change.inputs key input before
    obtain rfl : moved = after := Option.some.inj (present.symm.trans found)
    exact ⟨input, rfl, move⟩

theorem Change.consistent (valid : Consistent a) : Consistent b := by
  have named {key : String} {tenantId sessionId : String} (known : ∃ row, a.run key = some row ∧
      row.tenantId = tenantId ∧ row.sessionId = sessionId) :
      ∃ row, b.run key = some row ∧ row.tenantId = tenantId ∧ row.sessionId = sessionId := by
    obtain ⟨row, found, tenant, session⟩ := known
    obtain ⟨after, present, move, _⟩ := change.runs key row found
    exact ⟨after, present, move.tenant.trans tenant, move.session.trans session⟩
  refine ⟨fun key after found => ?_, fun key after found => ?_, change.applied valid⟩
  · obtain ⟨input, before, move, _⟩ := change.inputBefore found
    rw [move.tenant, move.session]
    exact named (valid.source key input before)
  · obtain ⟨input, before, move, _⟩ := change.inputBefore found
    rw [move.tenant, move.session, move.target]
    exact named (valid.target key input before)

theorem Change.undispatched {tenantId sessionId key : String} (later : Undispatched tenantId sessionId b key) :
    Undispatched tenantId sessionId a key := by
  obtain ⟨after, source, found, tenant, session, opened, present, pending⟩ := later
  obtain ⟨input, before, move, _⟩ := change.inputBefore found
  obtain ⟨row, old, step, _⟩ := change.runBefore present
  exact ⟨input, row, before, move.tenant.symm.trans tenant, move.session.symm.trans session, move.opened opened, old,
    step.pending pending⟩

theorem Change.grows : Grows a b := by
  refine ⟨fun key row found => ?_, fun key input found => ?_, fun target quieted => ?_⟩
  · obtain ⟨after, present, move, _⟩ := change.runs key row found
    exact ⟨after, present, move⟩
  · obtain ⟨after, present, move, _⟩ := change.inputs key input found
    exact ⟨after, present, move⟩
  · obtain ⟨row, found, shut, empty⟩ := quieted
    obtain ⟨after, present, move, _⟩ := change.runs target row found
    refine ⟨after, present, move.closed shut, fun key input source inside same opened owner pending => ?_⟩
    obtain ⟨before, first, step, _⟩ := change.inputBefore inside
    obtain ⟨old, known, last, _⟩ := change.runBefore owner
    exact empty key before old first (step.target.symm.trans same) (step.opened opened) known (last.pending pending)

theorem Change.commits (valid : Consistent a) : steering.Commits held a b := by
  intro others apart _
  refine ⟨change.consistent valid, change.grows, fun key blocked => ?_⟩
  cases key with
  | run key =>
    cases before : a.run key with
    | none => exact (change.noRun key before).trans before.symm
    | some row =>
      obtain ⟨after, present, _, owned | same⟩ := change.runs key row before
      · exact (apart _ owned blocked).elim
      · exact present.trans (same ▸ before.symm)
  | input key =>
    cases before : a.input key with
    | none => exact (change.noInput key before).trans before.symm
    | some input =>
      obtain ⟨after, present, _, owned | same⟩ := change.inputs key input before
      · exact (apart _ owned blocked).elim
      · exact present.trans (same ▸ before.symm)
  | message => exact fun key later => change.undispatched later
  | _ => trivial

theorem Change.mono (subset : held ⊆ more) : Change more a b := by
  refine ⟨fun key row found => ?_, fun key input found => ?_, change.noRun, change.noInput, change.applied⟩
  · obtain ⟨after, present, move, locked⟩ := change.runs key row found
    exact ⟨after, present, move, locked.imp_left (subset ·)⟩
  · obtain ⟨after, present, move, locked⟩ := change.inputs key input found
    exact ⟨after, present, move, locked.imp_left (subset ·)⟩

theorem Change.trans (last : Change held b c) : Change held a c := by
  refine ⟨fun key row found => ?_, fun key input found => ?_, fun key none => last.noRun key (change.noRun key none),
    fun key none => last.noInput key (change.noInput key none), fun valid => last.applied (change.consistent valid)⟩
  · obtain ⟨middle, inside, move, first⟩ := change.runs key row found
    obtain ⟨after, present, next, second⟩ := last.runs key middle inside
    refine ⟨after, present, move.trans next, ?_⟩
    cases first with
    | inl owned => exact .inl owned
    | inr same => exact second.imp_right fun equal => equal.trans same
  · obtain ⟨middle, inside, move, first⟩ := change.inputs key input found
    obtain ⟨after, present, next, second⟩ := last.inputs key middle inside
    refine ⟨after, present, move.trans next, ?_⟩
    cases first with
    | inl owned => exact .inl owned
    | inr same => exact second.imp_right fun equal => equal.trans same

omit change

theorem Change.set (input : String → SteeringInput → SteeringInput) (run : String → Run → Run)
    (inputs : ∀ key, b.input key = (a.input key).map (input key)) (runs : ∀ key, b.run key = (a.run key).map (run key))
    (inputMoves : ∀ key before, a.input key = some before →
      InputMove before (input key before) ∧ (.input key ∈ held ∨ input key before = before))
    (runMoves : ∀ key before, a.run key = some before →
      RunMove before (run key before) ∧ (.run key ∈ held ∨ run key before = before))
    (balance : ∀ key before row, a.input key = some before → a.run key = some row →
      (before.state = .applied ↔ IsSteered row) → ((input key before).state = .applied ↔ IsSteered (run key row))) :
    Change held a b := by
  refine ⟨fun key before found => ?_, fun key before found => ?_, fun key none => ?_, fun key none => ?_,
    fun valid key after row found present => ?_⟩
  · exact ⟨run key before, by rw [runs, found]; rfl, runMoves key before found⟩
  · exact ⟨input key before, by rw [inputs, found]; rfl, inputMoves key before found⟩
  · rw [runs, none]; rfl
  · rw [inputs, none]; rfl
  · rw [inputs] at found
    rw [runs] at present
    obtain ⟨before, first, rfl⟩ := Option.map_eq_some_iff.mp found
    obtain ⟨source, second, rfl⟩ := Option.map_eq_some_iff.mp present
    exact balance key before source first second (valid.applied key before source first second)

theorem Change.same (runs : b.runs = a.runs) (inputs : b.inputs = a.inputs) : Change held a b := by
  refine Change.set (fun _ input => input) (fun _ row => row) (fun key => ?_) (fun key => ?_)
    (fun _ before _ => ⟨.refl before, .inr rfl⟩) (fun _ before _ => ⟨.refl before, .inr rfl⟩) fun _ _ _ _ _ same => same
  · simp [Database.input, inputs]
  · simp [Database.run, runs]

/-! Statements, run on snapshot `a` and written to `b`. -/

theorem updateInputs_change {wanted : Database → String → SteeringInput → Bool}
    {set : String → SteeringInput → SteeringInput}
    (kept : ∀ key, .input key ∈ (updateInputs wanted set).locks a → b.input key = a.input key)
    (moves : ∀ key input, a.input key = some input → wanted a key input →
      InputMove input (set key input) ∧ ((set key input).state = .applied ↔ input.state = .applied)) :
    Change ((updateInputs wanted set).locks a) b ((updateInputs wanted set).write a b) := by
  have changed {key : String} {input : SteeringInput} (hit : key ∈ a.inputs.select (wanted a))
      (found : b.input key = some input) :
      .input key ∈ (updateInputs wanted set).locks a ∧ InputMove input (set key input) ∧
        ((set key input).state = .applied ↔ input.state = .applied) := by
    have locked : .input key ∈ (updateInputs wanted set).locks a := List.mem_map_of_mem hit
    obtain ⟨row, present, chosen⟩ := Table.mem_select.mp hit
    obtain rfl : input = row := Option.some.inj (found.symm.trans ((kept key locked).trans present))
    exact ⟨locked, moves key input present chosen⟩
  refine Change.set _ (fun _ row => row) (fun key => rfl) (fun key => by simp [updateInputs, Database.run])
    (fun key before found => ?_) (fun _ before _ => ⟨.refl before, .inr rfl⟩) fun key before row found _ same => ?_
  · split
    next hit =>
      obtain ⟨locked, move, _⟩ := changed (List.contains_iff_mem.mp hit) found
      exact ⟨move, .inl locked⟩
    next => exact ⟨.refl before, .inr rfl⟩
  · split
    next hit => exact (changed (List.contains_iff_mem.mp hit) found).2.2.trans same
    next => exact same

theorem updateRuns_change {wanted : String → Run → Bool} {update : Database → String → RowUpdate}
    (kept : ∀ key, .run key ∈ (updateRuns wanted update).locks a → b.run key = a.run key)
    (moves : ∀ key row, a.run key = some row → wanted key row → (update a key).hits row →
      RunMove row ((update a key).set row) ∧ (IsSteered ((update a key).set row) ↔ IsSteered row)) :
    Change ((updateRuns wanted update).locks a) b ((updateRuns wanted update).write a b) := by
  have changed {key : String} {row : Run} (hit : key ∈ a.hits wanted update) (found : b.run key = some row) :
      .run key ∈ (updateRuns wanted update).locks a ∧ RunMove row ((update a key).set row) ∧
        (IsSteered ((update a key).set row) ↔ IsSteered row) := by
    have locked : .run key ∈ (updateRuns wanted update).locks a := List.mem_map_of_mem hit
    obtain ⟨old, present, chosen⟩ := Table.mem_select.mp hit
    obtain rfl : row = old := Option.some.inj (found.symm.trans ((kept key locked).trans present))
    simp only [Bool.and_eq_true] at chosen
    exact ⟨locked, moves key row present chosen.1 chosen.2⟩
  refine Change.set (fun _ input => input) _ (fun key => by simp [updateRuns, Database.input]) (fun key => rfl)
    (fun _ before _ => ⟨.refl before, .inr rfl⟩) (fun key before found => ?_) fun key before row _ found same => ?_
  · split
    next hit =>
      obtain ⟨locked, move, _⟩ := changed (List.contains_iff_mem.mp hit) found
      exact ⟨move, .inl locked⟩
    next => exact ⟨.refl before, .inr rfl⟩
  · split
    next hit => exact same.trans (changed (List.contains_iff_mem.mp hit) found).2.2.symm
    next => exact same

theorem updateRun_change {runId : String} {update : Database → RowUpdate}
    (kept : .run runId ∈ (updateRun runId update).locks a → b.run runId = a.run runId)
    (moves : ∀ row, a.run runId = some row → (update a).hits row →
      RunMove row ((update a).set row) ∧ (IsSteered ((update a).set row) ↔ IsSteered row)) :
    Change ((updateRun runId update).locks a) b ((updateRun runId update).write a b) := by
  have changed {key : String} {row : Run} (hit : (key = runId && (a.run runId).any (update a).hits) = true)
      (found : b.run key = some row) :
      .run key ∈ (updateRun runId update).locks a ∧ RunMove row ((update a).set row) ∧
        (IsSteered ((update a).set row) ↔ IsSteered row) := by
    simp only [Bool.and_eq_true, decide_eq_true_eq] at hit
    obtain ⟨rfl, hit⟩ := hit
    have locked : .run key ∈ (updateRun key update).locks a := by simp [updateRun, hit]
    rw [kept locked] at found
    rw [found] at hit
    exact ⟨locked, moves row found hit⟩
  refine Change.set (fun _ input => input) _ (fun key => by simp [updateRun, Database.input]) (fun key => rfl)
    (fun _ before _ => ⟨.refl before, .inr rfl⟩) (fun key before found => ?_) fun key before row _ found same => ?_
  · split
    next hit =>
      obtain ⟨locked, move, _⟩ := changed hit found
      exact ⟨move, .inl locked⟩
    next => exact ⟨.refl before, .inr rfl⟩
  · split
    next hit => exact same.trans (changed hit found).2.2.symm
    next => exact same

structure Local (write : Database → Database) : Prop where
  runs : ∀ {a b key}, b.run key = a.run key → (write b).run key = (write a).run key
  inputs : ∀ {a b key}, b.input key = a.input key → (write b).input key = (write a).input key

theorem Local.same : Local fun db => db := ⟨fun kept => kept, fun kept => kept⟩

theorem Local.modify (input : String → SteeringInput → SteeringInput) (run : String → Run → Run)
    {write : Database → Database} (inputs : ∀ db key, (write db).input key = (db.input key).map (input key))
    (runs : ∀ db key, (write db).run key = (db.run key).map (run key)) : Local write :=
  ⟨fun kept => by rw [runs, runs, kept], fun kept => by rw [inputs, inputs, kept]⟩

theorem updateInputs_local (wanted : Database → String → SteeringInput → Bool)
    (set : String → SteeringInput → SteeringInput) (snapshot : Database) :
    Local ((updateInputs wanted set).write snapshot) :=
  .modify _ (fun _ row => row) (fun _ _ => rfl) fun _ _ => by simp [updateInputs, Database.run]

theorem updateRuns_local (wanted : String → Run → Bool) (update : Database → String → RowUpdate) (snapshot : Database) :
    Local ((updateRuns wanted update).write snapshot) :=
  .modify (fun _ input => input) _ (fun _ _ => by simp [updateRuns, Database.input]) fun _ _ => rfl

theorem updateRun_local (runId : String) (update : Database → RowUpdate) (snapshot : Database) :
    Local ((updateRun runId update).write snapshot) :=
  .modify (fun _ input => input) _ (fun _ _ => by simp [updateRun, Database.input]) fun _ _ => rfl

/-- A transaction that changes rows it has locked, and the withdrawals that its
commit brings. -/
structure Steady (promised : List String) (transaction : Open Database Lock) (db : Database) : Prop where
  valid : Consistent db
  rows : Local transaction.patch
  change : ∀ later, Consistent later → steering.Moves transaction.held db later →
    Change transaction.held later (transaction.patch later)
  withdrawn : ∀ later, Consistent later → steering.Moves transaction.held db later →
    ∀ key ∈ promised, Withdrawn (transaction.patch later) key

variable {transaction : Open Database Lock} {promised : List String}

theorem Steady.closed (valid : Consistent db) : Steady [] .closed db :=
  ⟨valid, .same, fun _ _ _ => .same rfl rfl, fun _ _ _ _ member => by cases member⟩

theorem Steady.later (steady : Steady promised transaction a) (valid : Consistent b)
    (moved : steering.Moves transaction.held a b) : Steady promised transaction b :=
  ⟨valid, steady.rows, fun later valid more => steady.change later valid (moved.trans more),
    fun later valid more => steady.withdrawn later valid (moved.trans more)⟩

theorem Steady.lock (steady : Steady promised transaction db) (more : List Lock) :
    Steady promised ⟨more ++ transaction.held, transaction.patch⟩ db := by
  have fewer {later : Database} (moved : steering.Moves (more ++ transaction.held) db later) :
      steering.Moves transaction.held db later := moved.mono (List.subset_append_right _ _)
  refine ⟨steady.valid, steady.rows, fun later valid moved => ?_,
    fun later valid moved => steady.withdrawn later valid (fewer moved)⟩
  exact (steady.change later valid (fewer moved)).mono (List.subset_append_right _ _)

theorem Steady.run_kept (steady : Steady promised transaction db) {key : String} (moved : steering.Moves held a b)
    (owned : .run key ∈ held) : (transaction.patch b).run key = (transaction.patch a).run key :=
  steady.rows.runs (moved.2 _ owned)

theorem Steady.input_kept (steady : Steady promised transaction db) {key : String} (moved : steering.Moves held a b)
    (owned : .input key ∈ held) : (transaction.patch b).input key = (transaction.patch a).input key :=
  steady.rows.inputs (moved.2 _ owned)

structure SeesRun (transaction : Open Database Lock) (db : Database) (key : String) (row : Run) : Prop where
  locked : .run key ∈ transaction.held
  found : (transaction.patch db).run key = some row

structure SeesInput (transaction : Open Database Lock) (db : Database) (key : String) (input : SteeringInput) : Prop where
  locked : .input key ∈ transaction.held
  found : (transaction.patch db).input key = some input

section Sees

variable {key : String} {row : Run} {input : SteeringInput} {statement : Query α}

theorem SeesRun.later (sees : SeesRun transaction a key row) (steady : Steady promised transaction a)
    (moved : steering.Moves transaction.held a b) : SeesRun transaction b key row :=
  ⟨sees.locked, (steady.run_kept moved sees.locked).trans sees.found⟩

theorem SeesInput.later (sees : SeesInput transaction a key input) (steady : Steady promised transaction a)
    (moved : steering.Moves transaction.held a b) : SeesInput transaction b key input :=
  ⟨sees.locked, (steady.input_kept moved sees.locked).trans sees.found⟩

theorem SeesRun.after (sees : SeesRun transaction db key row)
    (kept : ∀ snapshot db, (statement.write snapshot db).run key = db.run key) :
    SeesRun (transaction.after statement db) db key row :=
  ⟨List.mem_append_right _ sees.locked, (kept _ _).trans sees.found⟩

theorem SeesInput.after (sees : SeesInput transaction db key input)
    (kept : ∀ snapshot db, (statement.write snapshot db).input key = db.input key) :
    SeesInput (transaction.after statement db) db key input :=
  ⟨List.mem_append_right _ sees.locked, (kept _ _).trans sees.found⟩

end Sees

theorem Steady.after {statement : Query α} (steady : Steady promised transaction db)
    (rows : Local (statement.write (transaction.patch db)))
    (change : ∀ later, (∀ key, .run key ∈ statement.locks (transaction.patch db) →
        later.run key = (transaction.patch db).run key) →
      (∀ key, .input key ∈ statement.locks (transaction.patch db) →
        later.input key = (transaction.patch db).input key) →
      Change (statement.locks (transaction.patch db)) later (statement.write (transaction.patch db) later)) :
    Steady promised (transaction.after statement db) db := by
  have both {later : Database} (moved : steering.Moves (transaction.after statement db).held db later) :
      steering.Moves transaction.held db later ∧ Change (statement.locks (transaction.patch db)) (transaction.patch later)
        (statement.write (transaction.patch db) (transaction.patch later)) :=
    ⟨moved.mono (List.subset_append_right _ _), change _
      (fun _ owned => steady.run_kept moved (List.mem_append_left _ owned))
      fun _ owned => steady.input_kept moved (List.mem_append_left _ owned)⟩
  refine ⟨steady.valid, ⟨fun kept => rows.runs (steady.rows.runs kept), fun kept => rows.inputs (steady.rows.inputs kept)⟩,
    fun later valid moved => ?_, fun later valid moved key member => ?_⟩
  · have first : Change (transaction.after statement db).held later (transaction.patch later) :=
      (steady.change later valid (both moved).1).mono (List.subset_append_right _ _)
    exact first.trans ((both moved).2.mono (List.subset_append_left _ _))
  · exact (steady.withdrawn later valid (both moved).1 key member).grow (both moved).2.grows

theorem Steady.frame {statement : Query α} (steady : Steady promised transaction db)
    (runs : ∀ snapshot db, (statement.write snapshot db).runs = db.runs)
    (inputs : ∀ snapshot db, (statement.write snapshot db).inputs = db.inputs) :
    Steady promised (transaction.after statement db) db := by
  refine steady.after ⟨fun kept => ?_, fun kept => ?_⟩ fun later _ _ => .same (runs _ _) (inputs _ _)
  · simpa [Database.run, runs] using kept
  · simpa [Database.input, inputs] using kept

theorem Steady.updateInputs {wanted : Database → String → SteeringInput → Bool}
    {set : String → SteeringInput → SteeringInput} (steady : Steady promised transaction db)
    (moves : ∀ key input, (transaction.patch db).input key = some input → wanted (transaction.patch db) key input →
      InputMove input (set key input) ∧ ((set key input).state = .applied ↔ input.state = .applied)) :
    Steady promised (transaction.after (updateInputs wanted set) db) db :=
  steady.after (updateInputs_local _ _ _) fun _ _ kept => updateInputs_change kept moves

theorem Steady.updateNone {wanted : Database → String → SteeringInput → Bool}
    {set : String → SteeringInput → SteeringInput} (steady : Steady promised transaction db)
    (none : (transaction.patch db).inputs.select (wanted (transaction.patch db)) = []) :
    Steady promised (transaction.after (Runs.updateInputs wanted set) db) db := by
  refine steady.updateInputs fun key input found wanted => ?_
  have hit := Table.mem_select.mpr ⟨input, found, wanted⟩
  rw [none] at hit
  cases hit

theorem Steady.updateRuns {wanted : String → Run → Bool} {update : Database → String → RowUpdate}
    (steady : Steady promised transaction db)
    (moves : ∀ key row, ((update (transaction.patch db) key).hits row) →
      RunMove row ((update (transaction.patch db) key).set row) ∧
        (IsSteered ((update (transaction.patch db) key).set row) ↔ IsSteered row)) :
    Steady promised (transaction.after (updateRuns wanted update) db) db :=
  steady.after (updateRuns_local _ _ _) fun _ kept _ => updateRuns_change kept fun key row _ _ => moves key row

theorem Steady.updateRun {runId : String} {update : Database → RowUpdate} (steady : Steady promised transaction db)
    (moves : ∀ row, (update (transaction.patch db)).hits row → RunMove row ((update (transaction.patch db)).set row) ∧
      (IsSteered ((update (transaction.patch db)).set row) ↔ IsSteered row)) :
    Steady promised (transaction.after (updateRun runId update) db) db :=
  steady.after (updateRun_local _ _ _) fun _ kept _ => updateRun_change (kept _) fun row _ => moves row

theorem Steady.promise {statement : Query α} (steady : Steady promised transaction db)
    (after : Steady promised (transaction.after statement db) db) {more : List String}
    (cancels : ∀ key ∈ more, ∃ row, SeesRun transaction db key row ∧
      ∀ later, later.run key = some row → Withdrawn (statement.write (transaction.patch db) later) key) :
    Steady (more ++ promised) (transaction.after statement db) db := by
  refine ⟨after.valid, after.rows, after.change, fun later valid moved key member => ?_⟩
  cases List.mem_append.mp member with
  | inl made =>
    obtain ⟨row, sees, cancelled⟩ := cancels key made
    exact cancelled _ (sees.later steady (moved.mono (List.subset_append_right _ _))).found
  | inr known => exact after.withdrawn later valid moved key known

/-- An input is applied and its source completed in two statements of one
transaction. -/
theorem Steady.steer {wanted : Database → String → SteeringInput → Bool} {chosen : String → Run → Bool}
    {now later : Int} {targetRunId : String} {middle : Open Database Lock}
    (first : middle = transaction.after (Runs.updateInputs wanted fun _ => RunStore.applyInput now) a)
    (valid : Consistent b) (steady : Steady promised transaction a) (moved : steering.Moves middle.held a b)
    (reserved : ∀ key input, (transaction.patch a).input key = some input → wanted (transaction.patch a) key input →
      input.state = .reserved)
    (pending : ∀ key ∈ (transaction.patch a).inputs.select (wanted (transaction.patch a)),
      ∃ row, SeesRun transaction a key row ∧ row.status = .pending ∧ chosen key row)
    (only : ∀ key row, chosen key row → key ∈ (transaction.patch a).inputs.select (wanted (transaction.patch a))) :
    Steady promised (middle.after (Runs.updateRuns chosen fun _ _ => steeredIntoRun targetRunId later) b) b := by
  subst first
  set applied := (transaction.patch a).inputs.select (wanted (transaction.patch a))
  set middle := transaction.after (Runs.updateInputs wanted fun _ => RunStore.applyInput now) a
  set final := middle.after (Runs.updateRuns chosen fun _ _ => steeredIntoRun targetRunId later) b
  have inputLock {key : String} (hit : key ∈ applied) : .input key ∈ middle.held :=
    List.mem_append_left _ (List.mem_map_of_mem hit)
  -- The second statement hits the sources of exactly the inputs that the first one applied.
  have hits {key : String} : key ∈ (middle.patch b).hits chosen (fun _ _ => steeredIntoRun targetRunId later) ↔
      key ∈ applied := by
    refine Table.mem_select.trans ⟨?_, fun hit => ?_⟩
    · rintro ⟨row, _, wanted⟩
      simp only [Bool.and_eq_true] at wanted
      exact only key row wanted.1
    · obtain ⟨row, sees, waiting, wanted⟩ := pending key hit
      refine ⟨row, (steady.run_kept moved (List.mem_append_right _ sees.locked)).trans sees.found, ?_⟩
      simp [wanted, steeredIntoRun, waiting]
  have before {key : String} {other : Database} (more : steering.Moves middle.held a other) (hit : key ∈ applied) :
      ∃ input row, (transaction.patch other).input key = some input ∧ input.state = .reserved ∧
        (transaction.patch other).run key = some row ∧ row.status = .pending := by
    obtain ⟨input, found, wanted⟩ := Table.mem_select.mp hit
    obtain ⟨row, sees, waiting, _⟩ := pending key hit
    exact ⟨input, row, (steady.input_kept more (inputLock hit)).trans found, reserved key input found wanted,
      (steady.run_kept more (List.mem_append_right _ sees.locked)).trans sees.found, waiting⟩
  have step {other : Database} (more : steering.Moves final.held b other) :
      Change final.held (transaction.patch other) (final.patch other) := by
    have total := moved.trans (more.mono (List.subset_append_right _ _))
    refine Change.set _ _ (fun key => rfl) (fun key => rfl) (fun key input found => ?_) (fun key row found => ?_)
      fun key input row found present same => ?_
    · split
      next hit =>
        have hit := List.contains_iff_mem.mp hit
        obtain ⟨_, _, first, state, _⟩ := before total hit
        obtain rfl := Option.some.inj (found.symm.trans first)
        refine ⟨⟨rfl, rfl, rfl, fun closed => ?_, fun opened => ?_⟩, .inl (List.mem_append_right _ (inputLock hit))⟩
        · simp [state, SteeringState.isOpen] at closed
        · cases opened
      next => exact ⟨.refl input, .inr rfl⟩
    · split
      next hit =>
        have hit := List.contains_iff_mem.mp hit
        obtain ⟨_, _, _, _, first, waiting⟩ := before total (hits.mp hit)
        obtain rfl := Option.some.inj (found.symm.trans first)
        refine ⟨.update ?_ (fun _ => waiting) ?_, .inl (List.mem_append_left _ (List.mem_map_of_mem hit))⟩
        · simp [waiting, RunStatus.isTerminal]
        · simp [steeredIntoRun]
      next => exact ⟨.refl row, .inr rfl⟩
    · by_cases hit : key ∈ applied
      · rw [if_pos (List.contains_iff_mem.mpr hit), if_pos (List.contains_iff_mem.mpr (hits.mpr hit))]
        exact ⟨fun _ => ⟨rfl, rfl⟩, fun _ => rfl⟩
      · rw [if_neg (mt List.contains_iff_mem.mp hit), if_neg (mt List.contains_iff_mem.mp (mt hits.mp hit))]
        exact same
  have fewer {other : Database} (more : steering.Moves final.held b other) : steering.Moves transaction.held a other :=
    (moved.trans (more.mono (List.subset_append_right _ _))).mono (List.subset_append_right _ _)
  refine ⟨valid, ⟨fun kept => ?_, fun kept => ?_⟩, fun other valid more => ?_, fun other valid more key member => ?_⟩
  · exact (updateRuns_local _ _ _).runs ((updateInputs_local _ _ _).runs (steady.rows.runs kept))
  · exact (updateRuns_local _ _ _).inputs ((updateInputs_local _ _ _).inputs (steady.rows.inputs kept))
  · have earlier : Change final.held other (transaction.patch other) :=
      (steady.change other valid (fewer more)).mono fun _ owned =>
        List.mem_append_right _ (List.mem_append_right _ owned)
    exact earlier.trans (step more)
  · exact (steady.withdrawn other valid (fewer more) key member).grow (step more).grows

end AgentSaas.Proofs.SteeringRules
