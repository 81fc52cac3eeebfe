import AgentSaas.Proofs.SteeringRules

/-! A steered message is applied or withdrawn, never both. -/

namespace AgentSaas.Proofs.Steering
open AgentSaas.Transactions AgentSaas.Tables AgentSaas.Runs Runs.Steering TransactionSafety SteeringRules

variable {a b db : Database} {held : List Lock} {α β : Type}
  {transaction : Open Database Lock} {promised : List String} {promise : α → Database → Prop}
  {post : α → Open Database Lock → Database → Prop}

abbrev Safe (promise : α → Database → Prop) (program : Session α) (transaction : Open Database Lock) (db : Database) : Prop :=
  steering.Safe (fun value _ db => promise value db) program transaction db

theorem returned_safe {value : α} (kept : ∀ later, Grows db later → promise value later) :
    Safe promise (.returned value) transaction db :=
  fun later _ moved => kept later moved.1

theorem commit_safe {next : Unit → Session α} (steady : Steady promised transaction db)
    (resume : ∀ later, Consistent later → (∀ key ∈ promised, Withdrawn later key) → Safe promise (next ()) .closed later) :
    Safe promise (commit >>= next) transaction db := by
  refine Rules.Safe.commit fun later valid moved => ⟨(steady.change later valid moved).commits valid, fun kept => ?_⟩
  exact resume _ kept (steady.withdrawn later valid moved)

theorem finish_safe {promise : Except SteeringError α → Database → Prop} (steady : Steady promised transaction db)
    (value : α) (kept : ∀ later, (∀ key ∈ promised, Withdrawn later key) → promise (.ok value) later) :
    Safe promise (RunStore.finish value) transaction db := by
  refine commit_safe steady fun later _ withdrawn => returned_safe fun final growth => kept final fun key member => ?_
  exact (withdrawn key member).grow growth

theorem abort_safe {promise : Except SteeringError α → Database → Prop} {error : SteeringError}
    (kept : ∀ later, promise (.error error) later) : Safe promise (RunStore.abort error) transaction db :=
  Rules.Safe.rollback fun _ _ _ => returned_safe fun later _ => kept later

theorem query_safe {statement : Query β} {next : β → Session α} (steady : Steady promised transaction db)
    (resume : ∀ later, Consistent later → steering.Moves transaction.held db later → Steady promised transaction later →
      steering.Safe post (next (statement.result (transaction.patch later))) (transaction.after statement later) later) :
    steering.Safe post (query statement >>= next) transaction db :=
  Rules.Safe.query fun later valid moved => resume later valid moved (steady.later valid moved)

structure Carried (before : Open Database Lock) (a : Database) (after : Open Database Lock) (b : Database) : Prop where
  runs : ∀ {key row}, SeesRun before a key row → SeesRun after b key row
  inputs : ∀ {key input}, SeesInput before a key input → SeesInput after b key input

theorem frame_safe {statement : Query β} {next : β → Session α}
    (apart : ∀ snapshot db, (statement.write snapshot db).runs = db.runs ∧ (statement.write snapshot db).inputs = db.inputs)
    (steady : Steady promised transaction db)
    (resume : ∀ later, Carried transaction db (transaction.after statement later) later →
      Steady promised (transaction.after statement later) later →
      steering.Safe post (next (statement.result (transaction.patch later))) (transaction.after statement later) later) :
    steering.Safe post (query statement >>= next) transaction db := by
  have runs snapshot db := (apart snapshot db).1
  have inputs snapshot db := (apart snapshot db).2
  refine query_safe steady fun later valid moved here => resume later ⟨fun sees => ?_, fun sees => ?_⟩ (here.frame runs inputs)
  · exact (sees.later steady moved).after fun snapshot db => by rw [Database.run, runs, Database.run]
  · exact (sees.later steady moved).after fun snapshot db => by rw [Database.input, inputs, Database.input]

theorem updateInputs_safe {wanted : Database → String → SteeringInput → Bool} {set : String → SteeringInput → SteeringInput}
    {next : List String → Session α} (steady : Steady promised transaction db)
    (moves : ∀ db key input, wanted db key input →
      InputMove input (set key input) ∧ ((set key input).state = .applied ↔ input.state = .applied))
    (resume : ∀ later, (∀ {key row}, SeesRun transaction db key row →
        SeesRun (transaction.after (updateInputs wanted set) later) later key row) →
      Steady promised (transaction.after (updateInputs wanted set) later) later →
      steering.Safe post (next ((transaction.patch later).inputs.select (wanted (transaction.patch later))))
        (transaction.after (updateInputs wanted set) later) later) :
    steering.Safe post (query (updateInputs wanted set) >>= next) transaction db := by
  refine query_safe steady fun later _ moved here => resume later (fun sees => ?_) (here.updateInputs fun key input _ => ?_)
  · exact (sees.later steady moved).after fun _ _ => rfl
  · exact moves _ key input

theorem updateRun_safe {runId : String} {update : RowUpdate} {next : Option Run → Session α}
    (steady : Steady promised transaction db)
    (moves : ∀ row, update.hits row → RunMove row (update.set row) ∧ (IsSteered (update.set row) ↔ IsSteered row))
    (resume : ∀ later result, (∀ row, SeesRun transaction db runId row → update.hits row →
        (update.set row).status = .cancelled →
        Steady ([runId] ++ promised) (transaction.after (updateRun runId fun _ => update) later) later) →
      Steady promised (transaction.after (updateRun runId fun _ => update) later) later →
      steering.Safe post (next result) (transaction.after (updateRun runId fun _ => update) later) later) :
    steering.Safe post (query (updateRun runId fun _ => update) >>= next) transaction db := by
  refine query_safe steady fun later _ moved here => resume later _ (fun row sees hit ends => ?_) (here.updateRun moves)
  have sees := sees.later steady moved
  refine here.promise (here.updateRun moves) fun key member => ?_
  obtain rfl := List.mem_singleton.mp member
  refine ⟨row, sees, fun other found => ⟨update.set row, ?_, ends⟩⟩
  change (other.run key).map _ = _
  simp [found, sees.found, hit]

theorem updateRuns_safe {wanted : String → Run → Bool} {update : String → RowUpdate}
    {next : List (String × Run) → Session α} (steady : Steady promised transaction db)
    (moves : ∀ key row, (update key).hits row →
      RunMove row ((update key).set row) ∧ (IsSteered ((update key).set row) ↔ IsSteered row))
    (resume : ∀ later result, (∀ more : List String, (∀ key ∈ more, ∃ row, SeesRun transaction db key row ∧
          wanted key row ∧ (update key).hits row ∧ ((update key).set row).status = .cancelled) →
        Steady (more ++ promised) (transaction.after (updateRuns wanted fun _ => update) later) later) →
      Steady promised (transaction.after (updateRuns wanted fun _ => update) later) later →
      steering.Safe post (next result) (transaction.after (updateRuns wanted fun _ => update) later) later) :
    steering.Safe post (query (updateRuns wanted fun _ => update) >>= next) transaction db := by
  refine query_safe steady fun later _ moved here => resume later _ (fun more ended => ?_) (here.updateRuns moves)
  refine here.promise (here.updateRuns moves) fun key member => ?_
  obtain ⟨row, sees, mine, hit, ends⟩ := ended key member
  have sees := sees.later steady moved
  refine ⟨row, sees, fun other found => ⟨(update key).set row, ?_, ends⟩⟩
  have chosen : key ∈ (transaction.patch later).hits wanted fun _ => update :=
    Table.mem_select.mpr ⟨row, sees.found, by simp [mine, hit]⟩
  change (other.run key).map _ = _
  simp [found, chosen]

theorem lockRuns_sees {wanted : String → Run → Bool} {key : String} {row : Run}
    (member : (key, row) ∈ (lockRuns wanted).result (transaction.patch db)) :
    SeesRun (transaction.after (lockRuns wanted) db) db key row ∧ wanted key row = true := by
  obtain ⟨other, chosen, same⟩ := List.mem_filterMap.mp member
  obtain ⟨_, found, equal⟩ := Option.map_eq_some_iff.mp same
  obtain ⟨rfl, rfl⟩ := Prod.mk.inj equal
  obtain ⟨kept, present, wanted⟩ := Table.mem_select.mp chosen
  obtain rfl := Option.some.inj (found.symm.trans present)
  exact ⟨⟨List.mem_append_left _ (List.mem_map_of_mem chosen), found⟩, wanted⟩

theorem pendingOnly_sees {wanted : String → Run → Bool} {key : String}
    (member : key ∈ RunStore.pendingOnly ((lockRuns wanted).result (transaction.patch db))) :
    ∃ row, SeesRun (transaction.after (lockRuns wanted) db) db key row ∧ row.status = .pending ∧ wanted key row = true := by
  obtain ⟨⟨_, row⟩, inside, rfl⟩ := List.mem_map.mp member
  obtain ⟨chosen, pending⟩ := List.mem_filter.mp inside
  obtain ⟨sees, wanted⟩ := lockRuns_sees chosen
  exact ⟨row, sees, of_decide_eq_true pending, wanted⟩

theorem lockInputs_sees {wanted : Database → String → SteeringInput → Bool} {key : String}
    (member : key ∈ ((lockInputs wanted).result (transaction.patch db)).map (·.1)) :
    ∃ input, SeesInput (transaction.after (lockInputs wanted) db) db key input ∧
      wanted (transaction.patch db) key input = true := by
  obtain ⟨⟨_, input⟩, inside, rfl⟩ := List.mem_map.mp member
  obtain ⟨other, chosen, same⟩ := List.mem_filterMap.mp inside
  obtain ⟨_, found, equal⟩ := Option.map_eq_some_iff.mp same
  obtain ⟨rfl, rfl⟩ := Prod.mk.inj equal
  obtain ⟨kept, present, wanted⟩ := Table.mem_select.mp chosen
  obtain rfl := Option.some.inj (found.symm.trans present)
  exact ⟨_, ⟨List.mem_append_left _ (List.mem_map_of_mem chosen), found⟩, wanted⟩

theorem reserve_move {input : SteeringInput} {now : Int} (pending : input.state = .pending) :
    InputMove input { input with state := .reserved, reservedAt := input.reservedAt <|> some now } := by
  refine ⟨rfl, rfl, rfl, fun closed => ?_, fun _ => ?_⟩ <;> simp_all [SteeringState.isOpen]

theorem reserveSteeringInputs_safe (valid : Consistent db) (targetRunId : String) (sourceRunIds : List String) :
    Safe (fun _ _ => True) (RunStore.reserveSteeringInputs targetRunId sourceRunIds) .closed db := by
  unfold RunStore.reserveSteeringInputs
  split
  · exact returned_safe fun _ _ => trivial
  · refine Rules.Safe.answer fun outside => frame_safe (fun _ _ => ⟨rfl, rfl⟩) (.closed valid) fun _ _ steady => ?_
    split
    · exact commit_safe steady fun _ _ _ => returned_safe fun _ _ => trivial
    · refine frame_safe (fun _ _ => ⟨rfl, rfl⟩) steady fun _ _ steady => ?_
      dsimp only
      split
      · exact commit_safe steady fun _ _ _ => returned_safe fun _ _ => trivial
      · refine updateInputs_safe steady (fun _ key input wanted => ?_) fun _ _ steady => frame_safe (fun _ _ => ⟨rfl, rfl⟩) steady fun _ _ steady => ?_
        · simp only [Bool.and_eq_true, decide_eq_true_eq] at wanted
          exact ⟨reserve_move wanted.2, by simp [wanted.2]⟩
        · exact commit_safe steady fun _ _ _ => returned_safe fun _ _ => trivial

theorem markSteeringInputsApplied_safe (valid : Consistent db) (targetRunId : String) (sourceRunIds : List String) :
    Safe (fun _ _ => True) (RunStore.markSteeringInputsApplied targetRunId sourceRunIds) .closed db := by
  unfold RunStore.markSteeringInputsApplied
  split
  · exact returned_safe fun _ _ => trivial
  · refine Rules.Safe.answer fun outside => frame_safe (fun _ _ => ⟨rfl, rfl⟩) (.closed valid) fun _ _ steady => ?_
    split
    · exact commit_safe steady fun _ _ _ => returned_safe fun _ _ => trivial
    · refine frame_safe (fun _ _ => ⟨rfl, rfl⟩) steady fun _ _ locked => ?_
      dsimp only
      split
      · exact commit_safe locked fun _ _ _ => returned_safe fun _ _ => trivial
      · refine query_safe locked fun _ _ moved steady => ?_
        split
        next none => exact commit_safe (steady.updateNone none) fun _ _ _ => returned_safe fun _ _ => trivial
        · refine Rules.Safe.query fun _ kept more => ?_
          refine commit_safe (Steady.steer rfl kept steady more ?_ ?_ ?_) fun _ _ _ => returned_safe fun _ _ => trivial
          · intro key input _ wanted
            simp only [Bool.and_eq_true, decide_eq_true_eq] at wanted
            exact wanted.2
          · intro key hit
            obtain ⟨input, found, wanted⟩ := Table.mem_select.mp hit
            simp only [Bool.and_eq_true, decide_eq_true_eq, List.contains_iff_mem, List.mem_filter] at wanted
            obtain ⟨row, sees, waiting, _⟩ := pendingOnly_sees wanted.1.2.2
            exact ⟨row, sees.later locked moved, waiting, List.contains_iff_mem.mpr hit⟩
          · exact fun key row wanted => List.contains_iff_mem.mp wanted

def Ready (tenantId sessionId targetRunId : String) (transaction : Open Database Lock) (db : Database) (key : String) : Prop :=
  ∃ row input, SeesRun transaction db key row ∧ SeesInput transaction db key input ∧
    (row.status = .pending ∧ row.tenantId = tenantId ∧ row.sessionId = sessionId) ∧
    input.tenantId = tenantId ∧ input.sessionId = sessionId ∧ input.targetRunId = targetRunId ∧ input.state = .reserved

theorem Ready.carry {tenantId sessionId targetRunId key : String} {after : Open Database Lock}
    (ready : Ready tenantId sessionId targetRunId transaction a key) (carried : Carried transaction a after b) :
    Ready tenantId sessionId targetRunId after b key := by
  obtain ⟨row, input, seesRun, seesInput, facts⟩ := ready
  exact ⟨row, input, carried.runs seesRun, carried.inputs seesInput, facts⟩

theorem Ready.later {tenantId sessionId targetRunId key : String}
    (ready : Ready tenantId sessionId targetRunId transaction a key) (steady : Steady promised transaction a)
    (moved : steering.Moves transaction.held a b) : Ready tenantId sessionId targetRunId transaction b key := by
  obtain ⟨row, input, seesRun, seesInput, facts⟩ := ready
  exact ⟨row, input, seesRun.later steady moved, seesInput.later steady moved, facts⟩

theorem applyReserved_safe {tenantId sessionId targetRunId : String} {inputs : List RunStore.SteeringApplyInput}
    {applied : List String} (steady : Steady promised transaction db)
    (ready : ∀ key ∈ applied, Ready tenantId sessionId targetRunId transaction db key) :
    Safe (fun _ _ => True) (RunStore.applyReserved tenantId sessionId targetRunId inputs applied) transaction db := by
  unfold RunStore.applyReserved
  refine frame_safe (fun _ _ => ⟨rfl, rfl⟩) steady fun _ first steady => frame_safe (fun _ _ => ⟨rfl, rfl⟩) steady fun _ second steady => ?_
  refine Rules.Safe.answer fun outside => query_safe steady fun snapshot _ moved here => ?_
  have hit := fun key member => (((ready key member).carry first).carry second).later steady moved
  refine Rules.Safe.query fun last kept more => ?_
  refine commit_safe (Steady.steer rfl kept here more ?_ ?_ ?_) fun _ _ _ => returned_safe fun _ _ => trivial
  · intro key input _ wanted
    simp only [Bool.and_eq_true, decide_eq_true_eq] at wanted
    exact wanted.2
  · intro key chosen
    obtain ⟨input, _, wanted⟩ := Table.mem_select.mp chosen
    simp only [Bool.and_eq_true, decide_eq_true_eq, List.contains_iff_mem] at wanted
    obtain ⟨row, _, sees, _, ⟨waiting, tenant, session⟩, _⟩ := hit key wanted.1.2
    exact ⟨row, sees, waiting, by simp [tenant, session, wanted.1.2]⟩
  · intro key row wanted
    simp only [Bool.and_eq_true, decide_eq_true_eq, List.contains_iff_mem] at wanted
    obtain ⟨_, input, _, sees, _, tenant, session, target, state⟩ := hit key wanted.2
    exact Table.mem_select.mpr ⟨input, sees.found, by simp [tenant, session, target, state, wanted.2]⟩

theorem nothingApplied_safe (steady : Steady promised transaction db) :
    Safe (fun _ _ => True) RunStore.nothingApplied transaction db :=
  commit_safe steady fun _ _ _ => returned_safe fun _ _ => trivial

theorem applySteeringInputsAtomically_safe (valid : Consistent db) (targetRunId : String) (inputs : List RunStore.SteeringApplyInput)
    (tenantId : String) :
    Safe (fun _ _ => True) (RunStore.applySteeringInputsAtomically targetRunId inputs tenantId) .closed db := by
  unfold RunStore.applySteeringInputsAtomically
  split
  · exact returned_safe fun _ _ => trivial
  · refine frame_safe (fun _ _ => ⟨rfl, rfl⟩) (.closed valid) fun _ _ steady => ?_
    dsimp only
    split
    · exact nothingApplied_safe steady
    · refine frame_safe (fun _ _ => ⟨rfl, rfl⟩) steady fun _ _ steady => frame_safe (fun _ _ => ⟨rfl, rfl⟩) steady fun _ _ steady => ?_
      split
      · exact nothingApplied_safe steady
      · refine frame_safe (fun _ _ => ⟨rfl, rfl⟩) steady fun _ _ steady => frame_safe (fun _ _ => ⟨rfl, rfl⟩) steady fun _ carried steady => ?_
        split
        · exact nothingApplied_safe steady
        · refine applyReserved_safe steady fun key member => ?_
          have chosen := (List.mem_filter.mp member).2
          simp only [Bool.and_eq_true, List.contains_iff_mem] at chosen
          obtain ⟨row, seesRun, waiting, mine⟩ := pendingOnly_sees chosen.1
          obtain ⟨input, seesInput, wanted⟩ := lockInputs_sees chosen.2
          simp only [Bool.and_eq_true, decide_eq_true_eq] at mine wanted
          exact ⟨row, input, carried.runs seesRun, seesInput, ⟨waiting, mine.1.1, mine.1.2⟩, wanted.1.1.1.1,
            wanted.1.1.1.2, wanted.1.1.2, wanted.2⟩

theorem closed_move {input : SteeringInput} {state : SteeringState} (opened : input.state.isOpen)
    (closes : state.isOpen = false) : InputMove input { input with state := state } := by
  refine ⟨rfl, rfl, rfl, fun settled => ?_, fun again => ?_⟩
  · simp [opened] at settled
  · simp [closes] at again

theorem ended_move {update : RowUpdate} {row : Run} (still : row.status.isTerminal = false)
    (ends : (update.set row).status = .cancelled)
    (window : (update.set row).metadata "steeringInputWindow" = row.metadata "steeringInputWindow") :
    RunMove row (update.set row) ∧ (IsSteered (update.set row) ↔ IsSteered row) := by
  refine ⟨.update still (fun pending => ?_) window, fun steered => ?_, fun steered => ?_⟩
  · cases ends.symm.trans pending
  · cases ends.symm.trans steered.1
  · simp [steered.1, RunStatus.isTerminal] at still

theorem lockRun_sees {runId : String} {row : Run} (found : (lockRun runId).result (transaction.patch db) = some row) :
    SeesRun (transaction.after (lockRun runId) db) db runId row := by
  have found : (transaction.patch db).run runId = some row := found
  exact ⟨List.mem_append_left _ (by simp [lockRun, Statement.lock, found]), found⟩

theorem cancelPendingSteeringSourceRun_safe (valid : Consistent db) (sourceRunId reason : String) :
    Safe (fun result db => result.ok = true → Withdrawn db sourceRunId)
      (RunStore.cancelPendingSteeringSourceRun sourceRunId reason) .closed db := by
  unfold RunStore.cancelPendingSteeringSourceRun
  refine frame_safe (fun _ _ => ⟨rfl, rfl⟩) (.closed valid) fun snapshot _ steady => ?_
  split
  · exact Rules.Safe.rollback fun _ _ _ => returned_safe fun _ _ ok => by cases ok
  next row found =>
    have sees := lockRun_sees (Option.filter_eq_some_iff.mp found).1
    split
    · refine Rules.Safe.rollback fun later _ moved => returned_safe fun final growth ok => ?_
      split at ok
      next cancelled =>
        simp only [Bool.and_eq_true, decide_eq_true_eq] at cancelled
        have withdrawn : Withdrawn later sourceRunId := ⟨row, (sees.later steady moved).found, cancelled.1⟩
        exact withdrawn.grow growth
      next => cases ok
    next waiting =>
      have waiting : row.status = .pending := by
        by_contra other
        exact waiting (by simp [other])
      refine updateInputs_safe steady (fun _ key input wanted => ?_) fun middle carried steady => ?_
      · simp only [Bool.and_eq_true, decide_eq_true_eq] at wanted
        exact ⟨closed_move (by simp [wanted.2, SteeringState.isOpen]) rfl, by simp [wanted.2]⟩
      · split
        · exact Rules.Safe.rollback fun _ _ _ => returned_safe fun _ _ ok => by cases ok
        · refine Rules.Safe.answer fun outside => updateRun_safe steady (fun row hit => ?_) fun last _ withdraws _ => ?_
          · have waiting : row.status = .pending := of_decide_eq_true hit
            exact ended_move (by simp [waiting, RunStatus.isTerminal]) rfl (by simp [withdrawSteeringSource])
          · have withdrawn := withdraws row (carried sees) (decide_eq_true waiting) rfl
            refine commit_safe withdrawn fun later _ kept => returned_safe fun final growth _ => ?_
            exact (kept sourceRunId (by simp)).grow growth

theorem stopTarget_move {row : Run} {reason : String} {now : Int} (hit : (stopSteeringTarget reason now).hits row) :
    RunMove row ((stopSteeringTarget reason now).set row) ∧
      (IsSteered ((stopSteeringTarget reason now).set row) ↔ IsSteered row) := by
  have still : row.status.isTerminal = false := by simpa [stopSteeringTarget, RunStatus.isStoppable] using hit
  exact ended_move still rfl (by simp [stopSteeringTarget])

theorem stopTargetRun_safe {tenantId sessionId reason : String} {targetRunId : Option String} {now : Int}
    (steady : Steady promised transaction db) :
    steering.Safe (fun _ => Steady promised) (RunStore.stopTargetRun tenantId sessionId reason targetRunId now)
      transaction db := by
  unfold RunStore.stopTargetRun
  split
  · exact fun _ valid moved => steady.later valid moved
  · exact updateRuns_safe steady (fun _ _ => stopTarget_move) fun _ _ _ steady _ valid moved => steady.later valid moved

theorem stopTools_safe {targetRunId reason : String} {now : Int} {asked : Bool}
    (steady : Steady promised transaction db) :
    steering.Safe (fun _ => Steady promised) (RunStore.stopTools targetRunId reason now asked) transaction db := by
  unfold RunStore.stopTools
  split
  · intro later valid moved final kept more
    have after : Steady promised (transaction.after (RunStore.requestToolCancels targetRunId reason now) later) later :=
      (steady.later valid moved).frame (fun _ _ => rfl) fun _ _ => rfl
    exact after.later kept more
  · exact fun _ valid moved => steady.later valid moved

theorem stopSession_safe {tenantId sessionId reason : String} {targetRunId : Option String}
    {event : Option PlatformEvent} {previousStatus : Option RunStatus} {cancelled : List String}
    (steady : Steady cancelled transaction db) :
    Safe (fun result db => ∀ stopped, result = .ok stopped → ∀ key ∈ stopped.cancelled, Withdrawn db key)
      (RunStore.stopSession tenantId sessionId reason targetRunId event previousStatus cancelled) transaction db := by
  unfold RunStore.stopSession
  refine Rules.Safe.answer fun outside => Rules.Safe.bind (stopTargetRun_safe steady) steady.valid ?_
  intro targetCancelled transaction db valid steady
  refine Rules.Safe.bind (stopTools_safe steady) valid fun toolEvents transaction db _ steady => ?_
  refine frame_safe (fun _ _ => ⟨rfl, rfl⟩) steady fun _ _ steady => frame_safe (fun _ _ => ⟨rfl, rfl⟩) steady fun _ _ steady => ?_
  refine finish_safe steady _ fun later withdrawn stopped same => ?_
  cases same
  exact withdrawn

theorem upsertSteeringStopAuthority_safe {tenantId sessionId : String} {stoppedAt : Int}
    (steady : Steady promised transaction db) :
    steering.Safe (fun _ => Steady promised) (RunStore.upsertSteeringStopAuthority tenantId sessionId stoppedAt)
      transaction db := by
  unfold RunStore.upsertSteeringStopAuthority
  refine frame_safe (fun _ _ => ⟨rfl, rfl⟩) steady fun _ _ steady => frame_safe ?_ steady fun _ _ steady => ?_
  · intro snapshot db
    simp only [RunStore.insertSteeringSession]
    split
    · exact ⟨rfl, rfl⟩
    · exact ⟨rfl, rfl⟩
  · refine frame_safe (fun _ _ => ⟨rfl, rfl⟩) steady fun _ _ steady => ?_
    split
    · exact fun _ valid moved => steady.later valid moved
    · refine frame_safe (fun _ _ => ⟨rfl, rfl⟩) steady fun _ _ steady => ?_
      split
      · exact fun _ valid moved => steady.later valid moved
      · refine frame_safe (fun _ _ => ⟨rfl, rfl⟩) steady fun _ _ steady => ?_
        refine frame_safe (fun _ _ => ⟨rfl, rfl⟩) steady fun _ _ steady => ?_
        exact fun _ valid moved => steady.later valid moved

theorem stopSource_move {row : Run} {releasable : Bool} {reason : String} {now : Int}
    (hit : (stopSteeringSource releasable reason now).hits row) :
    RunMove row ((stopSteeringSource releasable reason now).set row) ∧
      (IsSteered ((stopSteeringSource releasable reason now).set row) ↔ IsSteered row) := by
  have waiting : row.status = .pending := of_decide_eq_true hit
  have still : row.status.isTerminal = false := by simp [waiting, RunStatus.isTerminal]
  cases releasable with
  | true =>
    refine ⟨.update still (fun _ => waiting) (by simp [stopSteeringSource]), ?_⟩
    simp [stopSteeringSource, IsSteered]
  | false => exact ended_move still rfl (by simp [stopSteeringSource])

theorem lockTargetStatus_safe {tenantId sessionId : String} {targetRunId : Option String}
    (steady : Steady promised transaction db) :
    steering.Safe (fun _ => Steady promised) (RunStore.lockTargetStatus tenantId sessionId targetRunId) transaction db := by
  unfold RunStore.lockTargetStatus
  split
  · exact fun _ valid moved => steady.later valid moved
  · exact frame_safe (fun _ _ => ⟨rfl, rfl⟩) steady fun _ _ steady _ valid moved => steady.later valid moved

/-- The sources of the rows that a stop takes back for good. -/
def taken (selected : List RunStore.Stopped) : List String :=
  (selected.filter (!·.taskboardContinuation)).map (·.sourceRunId)

theorem selectStopped_sees {tenantId sessionId : String} {sources : List String} {row : RunStore.Stopped}
    (member : row ∈ (RunStore.selectStopped tenantId sessionId sources).result (transaction.patch db)) :
    ∃ run, SeesRun (transaction.after (RunStore.selectStopped tenantId sessionId sources) db) db row.sourceRunId run ∧
      run.status = .pending ∧ run.tenantId = tenantId ∧ run.sessionId = sessionId ∧
      row.taskboardContinuation = RunStore.isTaskboardContinuation run := by
  obtain ⟨key, chosen, made⟩ := List.mem_filterMap.mp member
  obtain ⟨input, found, made⟩ := Option.bind_eq_some_iff.mp made
  obtain ⟨run, present, rfl⟩ := Option.map_eq_some_iff.mp made
  obtain ⟨_, inside, wanted⟩ := Table.mem_select.mp chosen
  obtain rfl := Option.some.inj (found.symm.trans inside)
  simp only [Bool.and_eq_true, Database.isUndispatched, decide_eq_true_eq, present, Option.any_some] at wanted
  obtain ⟨_, ⟨⟨tenant, session⟩, _⟩, ⟨sameTenant, sameSession⟩, waiting⟩ := wanted
  refine ⟨run, ⟨List.mem_append_left _ (List.mem_flatMap.mpr ⟨key, chosen, by simp⟩), present⟩, waiting,
    sameTenant.trans tenant, sameSession.trans session, rfl⟩

theorem withdrawSources_safe {tenantId sessionId reason : String} {now : Int} (steady : Steady [] transaction db) :
    steering.Safe (fun selected => Steady (taken selected)) (RunStore.withdrawSources tenantId sessionId reason now)
      transaction db := by
  unfold RunStore.withdrawSources
  refine frame_safe (fun _ _ => ⟨rfl, rfl⟩) steady fun _ _ steady => frame_safe (fun _ _ => ⟨rfl, rfl⟩) steady fun _ _ steady => frame_safe (fun _ _ => ⟨rfl, rfl⟩) steady fun _ _ steady => ?_
  refine frame_safe (fun _ _ => ⟨rfl, rfl⟩) steady fun seen _ steady => ?_
  dsimp only
  refine updateInputs_safe steady (fun _ key input wanted => ?_) fun middle carried steady => ?_
  · simp only [Bool.and_eq_true] at wanted
    split
    · exact ⟨closed_move wanted.2 rfl, by cases state : input.state <;> simp_all [SteeringState.isOpen]⟩
    · exact ⟨closed_move wanted.2 rfl, by cases state : input.state <;> simp_all [SteeringState.isOpen]⟩
  · refine updateRuns_safe steady (fun _ _ => stopSource_move) fun last _ withdraws _ => ?_
    intro final valid moved
    rw [← List.append_nil (taken _)]
    refine (withdraws _ fun key member => ?_).later valid moved
    obtain ⟨row, kept, rfl⟩ := List.mem_map.mp member
    obtain ⟨inside, own⟩ := List.mem_filter.mp kept
    obtain ⟨run, sees, waiting, tenant, session, same⟩ := selectStopped_sees inside
    refine ⟨run, carried sees, ?_, decide_eq_true waiting, ?_⟩
    · simpa [tenant, session] using ⟨row, inside, rfl⟩
    · simp only [stopSteeringSource, ite_eq_right_iff]
      intro released
      obtain ⟨other, chosen, equal⟩ := List.mem_map.mp (List.contains_iff_mem.mp released)
      obtain ⟨known, releasable⟩ := List.mem_filter.mp chosen
      obtain ⟨again, seen, _, _, _, board⟩ := selectStopped_sees known
      rw [equal] at seen
      obtain rfl := Option.some.inj (sees.found.symm.trans seen.found)
      simp only [RunStore.Stopped.releasable, Bool.and_eq_true] at releasable
      simp [same, ← board, releasable.2] at own

theorem cancelSteeringBeforeDispatchInternal_safe (valid : Consistent db) (sessionId reason : String)
    (targetRunId : Option String) (event : Option PlatformEvent) (tenantId : String) :
    Safe (fun result db => ∀ stopped, result = .ok stopped → ∀ key ∈ stopped.cancelled, Withdrawn db key)
      (RunStore.cancelSteeringBeforeDispatchInternal sessionId reason targetRunId event tenantId) .closed db := by
  have idle {later : Database} {stopped : RunStore.StopResult}
      (same : (Except.ok ⟨[], false, false⟩ : Except SteeringError RunStore.StopResult) = .ok stopped) :
      ∀ key ∈ stopped.cancelled, Withdrawn later key := by
    cases same
    exact fun _ member => by cases member
  unfold RunStore.cancelSteeringBeforeDispatchInternal
  refine frame_safe (fun _ _ => ⟨rfl, rfl⟩) (.closed valid) fun _ _ steady => Rules.Safe.answer fun guard => ?_
  split
  · exact finish_safe steady _ fun _ _ _ => idle
  · refine Rules.Safe.bind (lockTargetStatus_safe steady) steady.valid fun previous transaction db _ steady => ?_
    split
    · exact finish_safe steady _ fun _ _ _ => idle
    · refine Rules.Safe.bind (upsertSteeringStopAuthority_safe steady) steady.valid fun failed transaction db _ steady => ?_
      split
      · exact abort_safe fun _ _ same => by cases same
      · refine Rules.Safe.bind (withdrawSources_safe steady) steady.valid fun selected transaction db _ steady => ?_
        exact stopSession_safe steady

theorem sealed_quieted {tenantId sessionId targetRunId : String} {now : Int} {c : Database} (seen : Consistent a)
    (valid : Consistent c)
    (there : ∃ row, b.run targetRunId = some row ∧ row.tenantId = tenantId ∧ row.sessionId = sessionId)
    (known : ∃ row, c.run targetRunId = some row ∧ row.tenantId = tenantId ∧ row.sessionId = sessionId)
    (none : a.inputs.has (fun key input => a.isUndispatched tenantId sessionId key input &&
      decide (input.targetRunId = targetRunId)) = false)
    (grew : Grows a c) (kept : Keeps (.message tenantId sessionId) a c) :
    Quieted ((updateRun targetRunId fun _ => sealSteeringWindow now).write b c) targetRunId := by
  obtain ⟨old, found, _⟩ := there
  obtain ⟨target, present, mine⟩ := known
  refine ⟨(sealSteeringWindow now).set target, ?_, by simp [sealSteeringWindow, RunStore.isSealed], ?_⟩
  · change (c.run targetRunId).map _ = _
    simp [present, found, sealSteeringWindow]
  · intro key input source inside aimed opened owner pending
    obtain ⟨row, first, made⟩ := Option.map_eq_some_iff.mp (show (c.run key).map _ = some source from owner)
    have waiting : row.status = .pending := by
      rw [← made] at pending
      dsimp only at pending
      split at pending
      · exact pending
      · exact pending
    obtain ⟨other, aim, tenant, session⟩ := valid.target key input inside
    rw [aimed] at aim
    obtain rfl := Option.some.inj (present.symm.trans aim)
    unfold Keeps at kept
    obtain ⟨before, oldSource, last, sameTenant, sameSession, wasOpen, known, wasPending⟩ :=
      kept key ⟨input, row, inside, tenant.symm.trans mine.1, session.symm.trans mine.2, opened, first, waiting⟩
    obtain ⟨after, again, move⟩ := grew.inputs key before last
    obtain rfl : input = after := Option.some.inj ((show c.input key = some input from inside).symm.trans again)
    obtain ⟨_, origin, originTenant, originSession⟩ := seen.source key before last
    obtain rfl := Option.some.inj (known.symm.trans origin)
    have missed := Table.has_eq_false.mp none key before last
    simp [Database.isUndispatched, sameTenant, sameSession, wasOpen, known, wasPending, originTenant, originSession,
      move.target.symm.trans aimed] at missed

theorem trySealSteeringInputWindow_safe (targetRunId : String) :
    Safe (fun result db => result.found = true → result.result = true → Quieted db targetRunId)
      (RunStore.trySealSteeringInputWindow targetRunId) .closed db := by
  unfold RunStore.trySealSteeringInputWindow
  refine Rules.Safe.executeRead fun snapshot later seen _ valid growth => ?_
  split
  · exact returned_safe fun _ _ found => by cases found
  next target found =>
    have known {db : Database} (grew : Grows snapshot db) : ∃ row, db.run targetRunId = some row ∧
        row.tenantId = target.tenantId ∧ row.sessionId = target.sessionId := by
      obtain ⟨row, present, move⟩ := grew.runs targetRunId target (Option.filter_eq_some_iff.mp found).1
      exact ⟨row, present, move.tenant, move.session⟩
    refine Rules.Safe.lock fun start kept begun => ?_
    have steady := ((Steady.closed valid).later kept begun).lock [.message target.tenantId target.sessionId]
    refine Rules.Safe.read fun first seen gained => ?_
    have steady := steady.later seen gained
    split
    · exact commit_safe steady fun _ _ _ => returned_safe fun _ _ _ no => by cases no
    next none =>
      refine Rules.Safe.answer fun outside => query_safe steady fun last _ moved steady => ?_
      refine Rules.Safe.commit fun final valid more => ⟨?_, fun _ => returned_safe fun _ later _ _ => ?_⟩
      · refine ((steady.updateRun fun row _ => ⟨⟨rfl, rfl, fun _ => ⟨rfl, rfl⟩, id, fun _ => ?_⟩, .rfl⟩).change final valid
          more).commits valid
        simp [sealSteeringWindow, RunStore.isSealed]
      · have total : steering.Moves [.message target.tenantId target.sessionId] first final :=
          moved.trans (more.mono (List.subset_append_right _ _))
        have begin := growth.trans (begun.1.trans gained.1)
        exact later.quieted _ (sealed_quieted seen valid (known (begin.trans moved.1)) (known (begin.trans total.1))
          (Bool.eq_false_iff.mpr none) total.1
          (total.2 (.message target.tenantId target.sessionId) (List.mem_singleton.mpr rfl)))

theorem releasePendingSteering_change {sourceRunId : String} {now : Int}
    (moved : steering.Moves ((RunStore.releasePendingSteering sourceRunId now).locks a) a b) :
    Change ((RunStore.releasePendingSteering sourceRunId now).locks a) b
      ((RunStore.releasePendingSteering sourceRunId now).write a b) := by
  have opened (hit : (a.input sourceRunId).any (·.state.isOpen) = true) {input : SteeringInput}
      (found : b.input sourceRunId = some input) :
      .input sourceRunId ∈ (RunStore.releasePendingSteering sourceRunId now).locks a ∧ input.state.isOpen = true := by
    have locked : .input sourceRunId ∈ (RunStore.releasePendingSteering sourceRunId now).locks a := by
      simp [RunStore.releasePendingSteering, hit]
    rw [← input_kept moved locked, found] at hit
    exact ⟨locked, hit⟩
  refine Change.set _ _ (fun _ => rfl) (fun _ => rfl) (fun key before found => ?_) (fun key before _ => ?_)
    fun key before row found _ same => ?_
  · split
    next hit =>
      simp only [Bool.and_eq_true, decide_eq_true_eq] at hit
      obtain ⟨rfl, hit⟩ := hit
      exact ⟨closed_move (opened hit found).2 rfl, .inl (opened hit found).1⟩
    next => exact ⟨.refl before, .inr rfl⟩
  · split
    next hit =>
      simp only [Bool.and_eq_true, decide_eq_true_eq] at hit
      obtain ⟨rfl, hit⟩ := hit
      refine ⟨⟨rfl, rfl, fun _ => ⟨rfl, rfl⟩, id, fun shut => ?_⟩, .inl ?_⟩
      · simpa [releaseSteeringSource, RunStore.isSealed] using shut
      · simp [RunStore.releasePendingSteering, hit]
    next => exact ⟨.refl before, .inr rfl⟩
  · have steered : IsSteered row ↔ IsSteered
        (if key = sourceRunId && (a.run sourceRunId).any (releaseSteeringSource now).hits then
          (releaseSteeringSource now).set row else row) := by
      split
      · exact .rfl
      · exact .rfl
    refine Iff.trans ?_ (same.trans steered)
    split
    next hit =>
      simp only [Bool.and_eq_true, decide_eq_true_eq] at hit
      obtain ⟨rfl, hit⟩ := hit
      have was := (opened hit found).2
      cases state : before.state <;> simp_all [SteeringState.isOpen]
    next => exact .rfl

theorem releasePendingSteeringForSourceRun_safe (sourceRunId : String) :
    Safe (fun _ _ => True) (RunStore.releasePendingSteeringForSourceRun sourceRunId) .closed db :=
  Rules.Safe.answer fun _ => Rules.Safe.executed fun _ _ _ _ valid moved =>
    ⟨(releasePendingSteering_change moved).commits valid, fun _ _ _ => trivial⟩

theorem changeRun_safe {runId : String} {update : RowUpdate} (foreign : Foreign update) :
    Safe (fun _ _ => True) (execute (updateRun runId fun _ => update)) .closed db := by
  refine Rules.Safe.executed fun snapshot later _ _ valid moved => ⟨?_, fun _ _ _ => trivial⟩
  have change : Change ((updateRun runId fun _ => update).locks snapshot) later
      ((updateRun runId fun _ => update).write snapshot later) := by
    refine updateRun_change (fun owned => moved.2 _ owned) fun row _ hit => ?_
    have still := foreign.sink row hit
    refine ⟨.update still (foreign.reopens row) (foreign.window row), fun steered => ?_, fun steered => ?_⟩
    · exact (foreign.steered row steered.1 steered.2).elim
    · simp [steered.1, RunStatus.isTerminal] at still
  exact change.commits valid

theorem noInput {key : String} (valid : Consistent db) (fresh : db.run key = none) : db.input key = none := by
  cases found : db.input key with
  | none => rfl
  | some input =>
    obtain ⟨row, present, _⟩ := valid.source key input found
    simp [fresh] at present

structure Accepts (tenantId sessionId : String) (held : List Lock) (a : Database) (runId : String) (row : Run)
    (input : Option SteeringInput) : Prop where
  fresh : a.run runId = none
  row : row.status = .pending ∧ row.tenantId = tenantId ∧ row.sessionId = sessionId
  locks : .message tenantId sessionId ∈ held ∧ .run runId ∈ held
  input : ∀ made, input = some made → .input runId ∈ held ∧ made.state = .pending ∧ made.tenantId = tenantId ∧
    made.sessionId = sessionId ∧ ∃ target, a.run made.targetRunId = some target ∧ target.tenantId = tenantId ∧
      target.sessionId = sessionId ∧ RunStore.isSealed target = false

theorem accepts_commits {tenantId sessionId runId : String} {row : Run} {input : Option SteeringInput}
    (valid : Consistent a) (accepts : Accepts tenantId sessionId held a runId row input)
    (runs : ∀ key, b.run key = if key = runId then some row else a.run key)
    (inputs : ∀ key, b.input key = if key = runId then input else a.input key) : steering.Commits held a b := by
  have oldRun {key : String} {before : Run} (found : a.run key = some before) : key ≠ runId ∧ b.run key = some before := by
    have apart : key ≠ runId := by
      rintro rfl
      simp [accepts.fresh] at found
    exact ⟨apart, by rw [runs, if_neg apart, found]⟩
  have oldInput {key : String} {before : SteeringInput} (found : a.input key = some before) :
      key ≠ runId ∧ b.input key = some before := by
    obtain ⟨source, present, _⟩ := valid.source key before found
    exact ⟨(oldRun present).1, by rw [inputs, if_neg (oldRun present).1, found]⟩
  have eitherInput {key : String} {made : SteeringInput} (found : b.input key = some made) :
      key = runId ∧ input = some made ∨ key ≠ runId ∧ a.input key = some made := by
    rw [inputs] at found
    split at found
    next same => exact .inl ⟨same, found⟩
    next apart => exact .inr ⟨apart, found⟩
  have eitherRun {key : String} {made : Run} (found : b.run key = some made) :
      key = runId ∧ row = made ∨ key ≠ runId ∧ a.run key = some made := by
    rw [runs] at found
    split at found
    next same => exact .inl ⟨same, Option.some.inj found⟩
    next apart => exact .inr ⟨apart, found⟩
  have self : b.run runId = some row := by rw [runs, if_pos rfl]
  obtain ⟨waiting, tenant, session⟩ := accepts.row
  intro others apart _
  refine ⟨⟨fun key made found => ?_, fun key made found => ?_, fun key made source found present => ?_⟩,
    ⟨fun key before found => ?_, fun key before found => ?_, fun target quieted => ?_⟩, fun key blocked => ?_⟩
  · obtain ⟨rfl, same⟩ | ⟨_, old⟩ := eitherInput found
    · obtain ⟨_, _, mine, own, _⟩ := accepts.input made same
      exact ⟨row, self, tenant.trans mine.symm, session.trans own.symm⟩
    · obtain ⟨source, present, facts⟩ := valid.source key made old
      exact ⟨source, (oldRun present).2, facts⟩
  · obtain ⟨rfl, same⟩ | ⟨_, old⟩ := eitherInput found
    · obtain ⟨_, _, mine, own, target, present, its, their, _⟩ := accepts.input made same
      exact ⟨target, (oldRun present).2, its.trans mine.symm, their.trans own.symm⟩
    · obtain ⟨target, present, facts⟩ := valid.target key made old
      exact ⟨target, (oldRun present).2, facts⟩
  · obtain ⟨rfl, same⟩ | ⟨other, old⟩ := eitherInput found
    · obtain rfl := Option.some.inj (self.symm.trans present)
      obtain ⟨_, state, _⟩ := accepts.input made same
      simp [state, IsSteered, waiting]
    · obtain ⟨equal, _⟩ | ⟨_, known⟩ := eitherRun present
      · exact (other equal).elim
      · exact valid.applied key made source old known
  · exact ⟨before, (oldRun found).2, .refl before⟩
  · exact ⟨before, (oldInput found).2, .refl before⟩
  · obtain ⟨aimed, found, shut, empty⟩ := quieted
    refine ⟨aimed, (oldRun found).2, shut, fun key made source inside same opened present pending => ?_⟩
    obtain ⟨rfl, new⟩ | ⟨other, old⟩ := eitherInput inside
    · obtain ⟨_, _, _, _, goal, known, _, _, open'⟩ := accepts.input made new
      rw [same, found] at known
      obtain rfl := Option.some.inj known
      simp [shut] at open'
    · obtain ⟨equal, _⟩ | ⟨_, known⟩ := eitherRun present
      · exact other equal
      · exact empty key made source old same opened known pending
  · cases key with
    | run key =>
      have other : key ≠ runId := by
        rintro rfl
        exact apart _ accepts.locks.2 blocked
      exact (runs key).trans (if_neg other)
    | input key =>
      by_cases other : key = runId
      · subst other
        have before : a.input key = none := by
          cases found : a.input key with
          | none => rfl
          | some old => exact ((oldInput found).1 rfl).elim
        have after : b.input key = none := by
          rw [inputs, if_pos rfl]
          cases made : input with
          | none => rfl
          | some new => exact (apart _ (accepts.input new made).1 blocked).elim
        exact after.trans before.symm
      · exact (inputs key).trans (if_neg other)
    | message tenantId' sessionId' =>
      intro key undispatched
      obtain ⟨made, source, found, its, their, opened, present, pending⟩ := undispatched
      obtain ⟨rfl, same⟩ | ⟨other, old⟩ := eitherInput found
      · obtain ⟨_, _, mine, own, _⟩ := accepts.input made same
        obtain rfl := its.symm.trans mine
        obtain rfl := their.symm.trans own
        exact (apart _ accepts.locks.1 blocked).elim
      · obtain ⟨equal, _⟩ | ⟨_, known⟩ := eitherRun present
        · exact (other equal).elim
        · exact ⟨made, source, old, its, their, opened, known, pending⟩
    | _ => trivial

/-- Nothing is written to the runs or the inputs yet. -/
structure Framed (transaction : Open Database Lock) : Prop where
  runs : ∀ db, (transaction.patch db).runs = db.runs
  inputs : ∀ db, (transaction.patch db).inputs = db.inputs

theorem Framed.run (framed : Framed transaction) (db : Database) (key : String) :
    (transaction.patch db).run key = db.run key := by
  rw [Database.run, framed.runs, Database.run]

theorem Framed.input (framed : Framed transaction) (db : Database) (key : String) :
    (transaction.patch db).input key = db.input key := by
  rw [Database.input, framed.inputs, Database.input]

theorem Framed.steady (framed : Framed transaction) (valid : Consistent db) : Steady [] transaction db := by
  refine ⟨valid, ⟨fun kept => ?_, fun kept => ?_⟩, fun later _ _ => .same (framed.runs later) (framed.inputs later),
    fun _ _ _ _ member => by cases member⟩
  · simpa [Database.run, framed.runs] using kept
  · simpa [Database.input, framed.inputs] using kept

theorem Framed.after {statement : Query β} (framed : Framed transaction)
    (apart : ∀ snapshot db, (statement.write snapshot db).runs = db.runs ∧ (statement.write snapshot db).inputs = db.inputs) :
    Framed (transaction.after statement db) :=
  ⟨fun later => (apart _ _).1.trans (framed.runs later), fun later => (apart _ _).2.trans (framed.inputs later)⟩

theorem insertRun_run (row : Run) (seen : a.run row.runId = none) (absent : b.run row.runId = none) (key : String) :
    ((insertRun row).write a b).run key = if key = row.runId then some row else b.run key := by
  have written : (insertRun row).write a b = { b with runs := b.runs.insert row.runId row } := by
    simp [insertRun, seen]
  rw [written, Database.run, Table.insert_row_of_none absent, Function.update_apply]
  rfl

theorem insertInput_input {sourceRunId : String} {input : SteeringInput} (seen : a.input sourceRunId = none)
    (absent : b.input sourceRunId = none) (key : String) :
    ((insertInput sourceRunId input).write a b).input key = if key = sourceRunId then some input else b.input key := by
  have written : (insertInput sourceRunId input).write a b = { b with inputs := b.inputs.insert sourceRunId input } := by
    simp [insertInput, seen]
  rw [written, Database.input, Table.insert_row_of_none absent, Function.update_apply]
  rfl

theorem insertRun_input (row : Run) (key : String) : ((insertRun row).write a b).input key = b.input key := by
  simp only [insertRun]
  split
  · rfl
  · rfl

theorem insertInput_run (sourceRunId : String) (input : SteeringInput) (key : String) :
    ((insertInput sourceRunId input).write a b).run key = b.run key := by
  simp only [insertInput]
  split
  · rfl
  · rfl

structure Aimed (input : RunStore.EnqueueInput) (held : List Lock) (db : Database) (targetRunId : String) : Prop where
  locked : .run targetRunId ∈ held
  row : ∃ target, db.run targetRunId = some target ∧ target.tenantId = input.tenant ∧ target.sessionId = input.sessionId ∧
    RunStore.isSealed target = false

theorem Aimed.later {input : RunStore.EnqueueInput} {targetRunId : String} (aimed : Aimed input held a targetRunId)
    (moved : steering.Moves held a b) : Aimed input held b targetRunId := by
  obtain ⟨target, found, facts⟩ := aimed.row
  exact ⟨aimed.locked, target, (run_kept moved aimed.locked).trans found, facts⟩

theorem insertMessage_safe {input : RunStore.EnqueueInput} {deliveryMode : MessageDeliveryMode} {now : Int}
    {enqueueSeq : Nat} {targetRunId queuedBehindRunId : Option String} (framed : Framed transaction)
    (locked : .message input.tenant input.sessionId ∈ transaction.held)
    (aimed : ∀ target, targetRunId = some target → Aimed input transaction.held db target) :
    Safe (fun _ _ => True)
      (RunStore.insertMessage input deliveryMode now enqueueSeq targetRunId queuedBehindRunId) transaction db := by
  unfold RunStore.insertMessage
  dsimp only
  set row := pendingRun _ _ _ _
  refine Rules.Safe.query fun first _ moved => ?_
  split
  · exact abort_safe fun _ => trivial
  next inserted =>
    have seen : (transaction.patch first).run input.runId = none := by
      simpa [insertRun, row, pendingRun] using inserted
    have owned : .run input.runId ∈ (transaction.after (insertRun row) first).held :=
      List.mem_append_left _ (by simp [insertRun, row, pendingRun, seen])
    have gate : .message input.tenant input.sessionId ∈ (transaction.after (insertRun row) first).held :=
      List.mem_append_right _ locked
    have fresh {later : Database} (more : steering.Moves (transaction.after (insertRun row) first).held first later) :
        later.run input.runId = none := (run_kept more owned).trans ((framed.run _ _).symm.trans seen)
    have made {later : Database} (more : steering.Moves (transaction.after (insertRun row) first).held first later)
        (key : String) : ((transaction.after (insertRun row) first).patch later).run key =
          if key = input.runId then some row else later.run key := by
      refine (insertRun_run row seen ((framed.run _ _).trans (fresh more)) key).trans ?_
      rw [framed.run]
      rfl
    have rest (later : Database) (key : String) :
        ((transaction.after (insertRun row) first).patch later).input key = later.input key :=
      (insertRun_input row key).trans (framed.input later key)
    split
    · refine Rules.Safe.commit fun later valid more => ⟨?_, fun _ => returned_safe fun _ _ => trivial⟩
      have accepts : Accepts input.tenant input.sessionId (transaction.after (insertRun row) first).held later
          input.runId row none :=
        ⟨fresh more, ⟨rfl, rfl, rfl⟩, ⟨gate, owned⟩, fun _ none => by cases none⟩
      refine accepts_commits valid accepts (made more) fun key => ?_
      rw [rest]
      split
      next same => rw [same, noInput valid (fresh more)]
      next => rfl
    next target =>
      refine Rules.Safe.query fun second kept more => ?_
      refine Rules.Safe.commit fun later valid last => ⟨?_, fun _ => returned_safe fun _ _ => trivial⟩
      set new : SteeringInput := ⟨input.tenant, target, input.sessionId, .pending, now, none, none⟩
      set final := (transaction.after (insertRun row) first).after (insertInput input.runId new) second
      have blank : ((transaction.after (insertRun row) first).patch second).input input.runId = none :=
        (rest _ _).trans (noInput kept (fresh more))
      have mine : .input input.runId ∈ final.held := List.mem_append_left _ (by simp [insertInput, blank])
      have total := more.trans (last.mono (List.subset_append_right _ _))
      have goal := ((aimed target rfl).later moved).later (total.mono (List.subset_append_right _ _))
      have accepts : Accepts input.tenant input.sessionId final.held later input.runId row (some new) := by
        refine ⟨fresh total, ⟨rfl, rfl, rfl⟩, ⟨List.mem_append_right _ gate, List.mem_append_right _ owned⟩, ?_⟩
        intro _ same
        obtain rfl := Option.some.inj same
        exact ⟨mine, rfl, rfl, rfl, goal.row⟩
      refine accepts_commits valid accepts (fun key => ?_) fun key => ?_
      · exact (insertInput_run input.runId new key).trans (made total key)
      · refine (insertInput_input blank ((rest _ _).trans (noInput valid (fresh total))) key).trans ?_
        rw [rest]

theorem lockFirst_locked {wanted : Database → String → Run → Bool} {before : Run → Run → Bool} {key : String}
    (chosen : (lockFirst wanted before).result db = some key) :
    .run key ∈ (lockFirst wanted before).locks db ∧ ∃ row, db.run key = some row ∧ wanted db key row = true := by
  have member := List.mem_of_mem_head? chosen
  refine ⟨?_, Table.mem_select.mp ((List.mem_insertionSort _).mp member)⟩
  have first : (lockFirst wanted before).locks db =
      (((lockFirst wanted before).result db).map Lock.run).toList := rfl
  simp [first, chosen]

theorem selectTarget_aimed {input : RunStore.EnqueueInput} {targetRunId : String}
    (chosen : (RunStore.selectTarget input).result db = some targetRunId) :
    Aimed input ((RunStore.selectTarget input).locks db) db targetRunId := by
  obtain ⟨locked, row, found, wanted⟩ := lockFirst_locked chosen
  refine ⟨locked, row, found, ?_⟩
  simp only [Bool.and_eq_true, RunStore.isSameQueue, RunStore.isWindowOpen, decide_eq_true_eq] at wanted
  refine ⟨wanted.1.1.1.1.1.1.1.1.1.1, wanted.1.1.1.1.1.1.1.1.1.2, ?_⟩
  by_contra shut
  have shut : row.metadata "steeringInputWindow" = some (.text "sealed") := by simpa [RunStore.isSealed] using shut
  have unsealed := wanted.1.2
  simp [Metadata.text, shut] at unsealed

theorem enqueueUserMessage_safe (input : RunStore.EnqueueInput)
    (deliveryMode : MessageDeliveryMode) (enqueueSeq : Nat) :
    Safe (fun _ _ => True) (RunStore.enqueueUserMessage input deliveryMode enqueueSeq) .closed db := by
  unfold RunStore.enqueueUserMessage
  split
  · exact returned_safe fun _ _ => trivial
  next key _ =>
    refine Rules.Safe.query fun _ _ _ => Rules.Safe.answer fun outside => Rules.Safe.query fun _ _ _ => ?_
    refine Rules.Safe.query fun now valid _ => ?_
    set begun := Open.after (Open.after .closed _ _) _ _
    have framed : Framed begun := by
      refine Framed.after (Framed.after ⟨fun _ => rfl, fun _ => rfl⟩ ?_) ?_
      · exact fun _ _ => ⟨rfl, rfl⟩
      · exact fun _ _ => ⟨rfl, rfl⟩
    have gate : .message input.tenant input.sessionId ∈ begun.held := by simp [begun, Open.after, advisory, Statement.lock]
    set submission : MessageSubmission := ⟨input.tenant, input.userScope, key, input.runId, input.sessionId⟩
    have framed : Framed (begun.after (insertSubmission submission) now) := by
      refine framed.after fun snapshot db => ?_
      simp only [insertSubmission]
      split
      · exact ⟨rfl, rfl⟩
      · exact ⟨rfl, rfl⟩
    have gate := List.mem_append_right ((insertSubmission submission).locks (begun.patch now)) gate
    split
    · refine Rules.Safe.read fun _ valid _ => ?_
      split
      · exact abort_safe fun _ => trivial
      · exact finish_safe (framed.steady valid) _ fun _ _ => trivial
    · split
      · refine Rules.Safe.query fun later _ _ => ?_
        split
        · exact abort_safe fun _ => trivial
        · refine Rules.Safe.query fun last _ _ => ?_
          have checked : Framed ((begun.after (insertSubmission submission) now).after (RunStore.isStopped input) later) :=
            framed.after fun _ _ => ⟨rfl, rfl⟩
          refine insertMessage_safe (checked.after fun _ _ => ⟨rfl, rfl⟩) ?_ fun target chosen => ?_
          · exact List.mem_append_right _ (List.mem_append_right _ gate)
          · have aimed := selectTarget_aimed chosen
            obtain ⟨row, found, facts⟩ := aimed.row
            exact ⟨List.mem_append_left _ aimed.locked, row, (checked.run last _).symm.trans found, facts⟩
      · refine Rules.Safe.query fun _ _ _ => insertMessage_safe (framed.after fun _ _ => ⟨rfl, rfl⟩) ?_ fun _ none => by cases none
        exact List.mem_append_right _ gate

def Answered : Reply → Database → Prop
  | .withdrawn sourceRunId result, db => result.ok = true → Withdrawn db sourceRunId
  | .stopped result, db => ∀ stopped, result = .ok stopped → ∀ sourceRunId ∈ stopped.cancelled, Withdrawn db sourceRunId
  | .windowSealed targetRunId result, db => result.found = true → result.result = true → Quieted db targetRunId
  | _, _ => True

theorem Answered.grow {reply : Reply} (answered : Answered reply a) (growth : Grows a b) : Answered reply b := by
  cases reply with
  | withdrawn sourceRunId result => exact fun ok => (answered ok).grow growth
  | stopped result => exact fun stopped same key member => (answered stopped same key member).grow growth
  | windowSealed targetRunId result => exact fun found shut => growth.quieted _ (answered found shut)
  | _ => trivial

theorem reply_safe {program : Session α} {wrap : α → Reply} (valid : Consistent db) (safe : Safe promise program .closed db)
    (answers : ∀ value db, promise value db → Answered (wrap value) db) :
    Safe Answered (program >>= fun value => .returned (wrap value)) .closed db :=
  Rules.Safe.bind safe valid fun value _ _ _ kept => returned_safe fun _ growth => (answers value _ kept).grow growth

theorem request_safe (request : Request) (valid : Consistent db) : Safe Answered request.run .closed db := by
  cases request with
  | enqueueUserMessage input deliveryMode enqueueSeq =>
    exact reply_safe valid (enqueueUserMessage_safe input deliveryMode enqueueSeq) fun _ _ _ => trivial
  | reserveSteeringInputs targetRunId sourceRunIds =>
    exact reply_safe valid (reserveSteeringInputs_safe valid targetRunId sourceRunIds) fun _ _ _ => trivial
  | markSteeringInputsApplied targetRunId sourceRunIds =>
    exact reply_safe valid (markSteeringInputsApplied_safe valid targetRunId sourceRunIds) fun _ _ _ => trivial
  | applySteeringInputsAtomically targetRunId inputs tenantId =>
    exact reply_safe valid (applySteeringInputsAtomically_safe valid targetRunId inputs tenantId) fun _ _ _ => trivial
  | trySealSteeringInputWindow targetRunId =>
    exact reply_safe valid (trySealSteeringInputWindow_safe targetRunId) fun _ _ kept => kept
  | releasePendingSteeringForSourceRun sourceRunId =>
    exact reply_safe valid (releasePendingSteeringForSourceRun_safe sourceRunId) fun _ _ _ => trivial
  | cancelPendingSteeringSourceRun sourceRunId reason =>
    exact reply_safe valid (cancelPendingSteeringSourceRun_safe valid sourceRunId reason) fun _ _ kept => kept
  | cancelSteeringBeforeDispatch sessionId reason targetRunId event tenantId =>
    exact reply_safe valid (cancelSteeringBeforeDispatchInternal_safe valid sessionId reason targetRunId event tenantId)
      fun _ _ kept => kept
  | changeRun runId update foreign => exact reply_safe valid (changeRun_safe foreign) fun _ _ _ => trivial

theorem covers : steering.Covers store fun _ => Answered where
  permits _ := trivial
  admits := by
    rintro _ program db ⟨request, rfl⟩ valid
    exact request_safe request valid
  lasting _ growth answered := answered.grow growth

/-- A settled input stays as it is. -/
def Sticks (before after : Database) : Prop :=
  ∀ sourceRunId input, before.input sourceRunId = some input → input.state.isOpen = false →
    ∃ later, after.input sourceRunId = some later ∧ later.state = input.state

/-- An input is applied exactly when its source run was completed by steering. -/
def AppliedBySteering (db : Database) : Prop :=
  ∀ sourceRunId input, db.input sourceRunId = some input →
    ∃ source, db.run sourceRunId = some source ∧ (input.state = .applied ↔ IsSteered source)

def NeverApplied (db : Database) (sourceRunId : String) : Prop :=
  ∀ input, db.input sourceRunId = some input → input.state ≠ .applied

/-- No open input with a pending source is aimed at this run. -/
def NothingWaits (db : Database) (targetRunId : String) : Prop :=
  ∀ sourceRunId input source, db.input sourceRunId = some input → input.targetRunId = targetRunId →
    input.state.isOpen → db.run sourceRunId = some source → source.status ≠ .pending

/-- Some call has returned this. -/
def Returned (world : World Database Lock Outside Reply) (reply : Reply) : Prop :=
  ∃ index : Nat, world.calls[index]? = some (.finished reply)

theorem Withdrawn.neverApplied {sourceRunId : String} (valid : Consistent db) (withdrawn : Withdrawn db sourceRunId) :
    NeverApplied db sourceRunId := by
  intro input found applied
  obtain ⟨source, present, cancelled⟩ := withdrawn
  have steered := (valid.applied sourceRunId input source found present).mp applied
  cases steered.1.symm.trans cancelled

/-- Whatever the calls are, in whatever order their statements run and wherever they
stop: what was settled in the middle of the run stays settled, and what was answered
there is true at its end. -/
theorem applied_or_withdrawn {start : Database} {middle world : World Database Lock Outside Reply}
    (consistent : Consistent start) (earlier : Run store ⟨start, []⟩ middle) (later : Run store middle world) :
    Sticks middle.db world.db ∧ AppliedBySteering world.db ∧
      (∀ sourceRunId result, Returned middle (.withdrawn sourceRunId result) → result.ok = true →
        NeverApplied world.db sourceRunId) ∧
      (∀ result, Returned middle (.stopped (.ok result)) → ∀ sourceRunId ∈ result.cancelled,
        NeverApplied world.db sourceRunId) ∧
      ∀ targetRunId, Returned middle (.windowSealed targetRunId ⟨true, true⟩) → NothingWaits world.db targetRunId := by
  have begun : steering.Holds (fun _ => Answered) (⟨start, []⟩ : World Database Lock Outside Reply) :=
    .start consistent
  have halfway := (begun.run covers earlier).1
  obtain ⟨final, growth⟩ := halfway.run covers later
  have valid : Consistent world.db := final.invariant
  have answered {reply : Reply} (returned : Returned middle reply) : Answered reply world.db := by
    obtain ⟨index, found⟩ := returned
    exact Answered.grow (halfway.fits found) growth
  refine ⟨fun key input found settled => ?_, fun key input found => ?_, fun key result returned ok => ?_,
    fun result returned key member => ?_, fun target returned => ?_⟩
  · obtain ⟨after, present, move⟩ := growth.inputs key input found
    exact ⟨after, present, move.sink settled⟩
  · obtain ⟨source, present, _⟩ := valid.source key input found
    exact ⟨source, present, valid.applied key input source found present⟩
  · exact Withdrawn.neverApplied valid (answered returned ok)
  · exact Withdrawn.neverApplied valid (answered returned result rfl key member)
  · obtain ⟨_, _, _, empty⟩ := answered returned rfl rfl
    exact empty

/-- No message is steered across tenants or sessions, and its target does not change. -/
structure Confined (before after : Database) : Prop where
  own : ∀ sourceRunId input, after.input sourceRunId = some input → ∃ source target,
    after.run sourceRunId = some source ∧ after.run input.targetRunId = some target ∧
      source.tenantId = input.tenantId ∧ target.tenantId = input.tenantId ∧
      source.sessionId = input.sessionId ∧ target.sessionId = input.sessionId
  same : ∀ sourceRunId input, before.input sourceRunId = some input →
    ∃ later, after.input sourceRunId = some later ∧ later.targetRunId = input.targetRunId ∧ later.tenantId = input.tenantId ∧
      later.sessionId = input.sessionId

theorem steered_within {start : Database} {middle world : World Database Lock Outside Reply}
    (consistent : Consistent start) (earlier : Run store ⟨start, []⟩ middle) (later : Run store middle world) :
    Confined middle.db world.db := by
  have begun : steering.Holds (fun _ => Answered) (⟨start, []⟩ : World Database Lock Outside Reply) := .start consistent
  obtain ⟨final, growth⟩ := (begun.run covers earlier).1.run covers later
  have valid : Consistent world.db := final.invariant
  refine ⟨fun key input found => ?_, fun key input found => ?_⟩
  · obtain ⟨source, present, tenant, session⟩ := valid.source key input found
    obtain ⟨target, aimed, targetTenant, targetSession⟩ := valid.target key input found
    exact ⟨source, target, present, aimed, tenant, targetTenant, session, targetSession⟩
  · obtain ⟨after, present, move⟩ := growth.inputs key input found
    exact ⟨after, present, move.target, move.tenant, move.session⟩

def message (runId : String) : RunStore.EnqueueInput :=
  ⟨⟨runId, "s1", some "u1", none, some "acme", none, some "web", some runId, none, none, .empty⟩, none⟩

def spawned (world : World Database Lock Outside Reply) (requests : List Request) : World Database Lock Outside Reply :=
  world.spawn (requests.map Request.run)

def played (world : World Database Lock Outside Reply) (schedule : List Nat) : Option (World Database Lock Outside Reply) :=
  world.play (fun _ _ _ => true) (schedule.map fun index => (index, ⟨3, [], true⟩))

theorem run_of_played {world next : World Database Lock Outside Reply} {requests : List Request} {schedule : List Nat}
    (done : played (spawned world requests) schedule = some next) : Run store world next := by
  have started : Run store world (spawned world requests) := run_of_spawn _ fun program member _ => by
    obtain ⟨request, _, rfl⟩ := List.mem_map.mp member
    exact ⟨request, rfl⟩
  exact started.trans (run_of_play (fun _ _ _ _ _ => trivial) done)

def withdrawals (world : World Database Lock Outside Reply) : List (String × RunStore.CancelSteeringResult) :=
  world.calls.filterMap fun call =>
    match call with
    | .finished (.withdrawn sourceRunId result) => some (sourceRunId, result)
    | _ => none

def seals (world : World Database Lock Outside Reply) : List (String × RunStore.SealResult) :=
  world.calls.filterMap fun call =>
    match call with
    | .finished (.windowSealed targetRunId result) => some (targetRunId, result)
    | _ => none

theorem returned_of_withdrawal {world : World Database Lock Outside Reply} {sourceRunId : String}
    {result : RunStore.CancelSteeringResult} (member : (sourceRunId, result) ∈ withdrawals world) :
    Returned world (.withdrawn sourceRunId result) := by
  obtain ⟨call, inside, made⟩ := List.mem_filterMap.mp member
  obtain ⟨index, found⟩ := List.getElem?_of_mem inside
  split at made
  · cases made
    exact ⟨index, found⟩
  · cases made

theorem returned_of_seal {world : World Database Lock Outside Reply} {targetRunId : String}
    {result : RunStore.SealResult} (member : (targetRunId, result) ∈ seals world) :
    Returned world (.windowSealed targetRunId result) := by
  obtain ⟨call, inside, made⟩ := List.mem_filterMap.mp member
  obtain ⟨index, found⟩ := List.getElem?_of_mem inside
  split at made
  · cases made
    exact ⟨index, found⟩
  · cases made

theorem consistent_empty : Consistent Database.empty := by
  refine ⟨fun _ _ found => ?_, fun _ _ found => ?_, fun _ _ _ found _ => ?_⟩
  · cases found
  · cases found
  · cases found

def contended : Option (World Database Lock Outside Reply) :=
  played (spawned ⟨.empty, []⟩ [.enqueueUserMessage (message "r0") .queue 1, .enqueueUserMessage (message "m1") .steer 2,
      .enqueueUserMessage (message "m2") .steer 3, .reserveSteeringInputs "r0" ["m1"],
      .applySteeringInputsAtomically "r0" [⟨"m1", none, none⟩] "acme",
      .cancelPendingSteeringSourceRun "m2" "user_cancelled", .trySealSteeringInputWindow "r0"])
    (.replicate 8 0 ++ .replicate 10 1 ++ .replicate 10 2 ++ .replicate 7 3 ++ .replicate 3 4 ++ .replicate 6 5 ++
      .replicate 9 4 ++ .replicate 8 6)

/-- A message that comes too late. -/
def followed : Option (World Database Lock Outside Reply) :=
  contended.bind fun world =>
    played (spawned world [.enqueueUserMessage (message "m3") .steer 4]) (.replicate 9 7)

theorem applied_or_withdrawn_contended : ∃ middle world, contended = some middle ∧ followed = some world ∧
    ["m1", "m2", "m3"].map (fun key => (world.db.input key).map (·.state)) = [some .applied, some .cancelled, none] ∧
    Sticks middle.db world.db ∧ AppliedBySteering world.db ∧ NeverApplied world.db "m2" ∧ NothingWaits world.db "r0" := by
  have facts : (contended.bind fun middle => followed.map fun world => (withdrawals middle, seals middle,
      ["m1", "m2", "m3"].map fun key => (world.db.input key).map (·.state))) =
      some ([("m2", ⟨true, none, some "s1", none⟩)], [("r0", ⟨true, true⟩)], [some .applied, some .cancelled, none]) := by
    decide +kernel
  obtain ⟨middle, first, facts⟩ := Option.bind_eq_some_iff.mp facts
  obtain ⟨world, last, facts⟩ := Option.map_eq_some_iff.mp facts
  simp only [Prod.mk.injEq] at facts
  obtain ⟨withdrawn, shut, states⟩ := facts
  have earlier : Run store ⟨.empty, []⟩ middle := run_of_played first
  have later : Run store middle world := by
    simp only [followed, first, Option.bind_some] at last
    exact run_of_played last
  obtain ⟨sticks, applied, never, _, nothing⟩ := applied_or_withdrawn consistent_empty earlier later
  exact ⟨middle, world, first, last, states, sticks, applied,
    never "m2" _ (returned_of_withdrawal (withdrawn ▸ List.mem_singleton.mpr rfl)) rfl,
    nothing "r0" (returned_of_seal (shut ▸ List.mem_singleton.mpr rfl))⟩

theorem steered_within_contended : ∃ world : World Database Lock Outside Reply, contended = some world ∧
    (world.db.input "m1").map (·.targetRunId) = some "r0" ∧ Confined world.db world.db := by
  have facts : contended.map (fun world => (world.db.input "m1").map (·.targetRunId)) = some (some "r0") := by decide +kernel
  obtain ⟨world, first, aimed⟩ := Option.map_eq_some_iff.mp facts
  exact ⟨world, first, aimed, steered_within consistent_empty (run_of_played first) .refl⟩

def sealedEarly : Option (World Database Lock Outside Reply) :=
  (played (spawned ⟨.empty, []⟩ [.trySealSteeringInputWindow "r0"]) (.replicate 3 0)).bind fun world =>
    played (spawned world [.enqueueUserMessage (message "r0") .queue 1, .enqueueUserMessage (message "m1") .steer 2])
      (.replicate 8 1 ++ .replicate 10 2)

theorem sealed_before_the_run : ¬ ∀ world : World Database Lock Outside Reply, Run store ⟨.empty, []⟩ world →
    ∀ targetRunId found, Returned world (.windowSealed targetRunId ⟨found, true⟩) → NothingWaits world.db targetRunId := by
  intro claimed
  have facts : sealedEarly.map (fun world => (seals world,
      (world.db.input "m1").map (fun input => (input.targetRunId, input.state)), (world.db.run "m1").map (·.status))) =
      some ([("r0", ⟨false, true⟩)], some ("r0", .pending), some .pending) := by decide +kernel
  obtain ⟨world, same, facts⟩ := Option.map_eq_some_iff.mp facts
  simp only [Prod.mk.injEq] at facts
  obtain ⟨shut, aimed, waiting⟩ := facts
  obtain ⟨middle, first, last⟩ := Option.bind_eq_some_iff.mp same
  obtain ⟨input, found, facts⟩ := Option.map_eq_some_iff.mp aimed
  obtain ⟨target, state⟩ := Prod.mk.inj facts
  obtain ⟨source, present, pending⟩ := Option.map_eq_some_iff.mp waiting
  have nothing := claimed world ((run_of_played first).trans (run_of_played last)) "r0" false
    (returned_of_seal (shut ▸ List.mem_singleton.mpr rfl))
  exact nothing "m1" input source found target (by simp [state, SteeringState.isOpen]) present pending

end AgentSaas.Proofs.Steering
