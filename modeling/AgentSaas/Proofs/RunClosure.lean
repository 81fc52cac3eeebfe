import AgentSaas.Runs.StatusOperations

/-! A terminal run stays terminal, and its row holds no lease, no wake message and
no live liveness state. Six of the updates leave columns behind, so the second half
holds in the runs where those columns were in order before. -/

namespace AgentSaas.Proofs.RunClosure
open AgentSaas.Runs

variable {run : Run}

structure Unleased (run : Run) : Prop where
  worker : run.workerId = none
  expiry : run.leaseExpiresAt = none

def LivenessEnded (run : Run) : Prop :=
  run.livenessState = none ∨ run.livenessState = some .terminal ∨ run.livenessState = some .orphaned

/-- What every terminal row should look like. -/
structure Closed (run : Run) : Prop where
  unleased : Unleased run
  silent : run.metadata "wakeMessage" = none
  ended : LivenessEnded run
  stamped : run.status ≠ .orphaned → run.stamp.isSome

/-- What each forgetful update takes for granted about the row it hits. -/
def Orderly : StatusOperation → Run → Prop
  | .cancelActiveByTenant tenantId _ _, run =>
    run.tenantId = tenantId → run.status.isTerminal = false → Unleased run ∧ LivenessEnded run
  | .cancelStaleWaitingApproval cutoff _ _ _, run =>
    run.status = .waitingApproval → run.updatedAt < cutoff → LivenessEnded run
  | .applySteeringSource _ _, run => run.status = .pending → LivenessEnded run
  | .cancelPendingSteeringSource _ _, run =>
    run.status = .pending → Unleased run ∧ LivenessEnded run ∧ run.cancelledAt.isSome
  | .cancelSteeringSource releasable _ _, run =>
    run.status = .pending → releasable = false → Unleased run ∧ LivenessEnded run
  | .cancelSteeringTarget _ _, run => run.status.isTerminal = false → LivenessEnded run
  | _, _ => True

structure Advances (before after : Run) : Prop where
  closed : after.status.isTerminal → Closed after
  status : before.status.isTerminal → after.status = before.status
  stamp : before.status.isTerminal → after.stamp = before.stamp

theorem Advances.refl (closed : run.status.isTerminal → Closed run) : Advances run run :=
  ⟨closed, fun _ => rfl, fun _ => rfl⟩

theorem Advances.fromOpen {before after : Run} (still : before.status.isTerminal = false)
    (closed : after.status.isTerminal → Closed after) : Advances before after :=
  ⟨closed, fun ended => by simp [still] at ended, fun ended => by simp [still] at ended⟩

theorem versioned_ended {state : LivenessState} (ended : state = .terminal ∨ state = .orphaned) :
    run.versioned (some state) = none ∨ run.versioned (some state) = some .terminal ∨
      run.versioned (some state) = some .orphaned := by
  unfold Run.versioned
  cases run.livenessVersion with
  | none => exact .inl rfl
  | some version => obtain rfl | rfl := ended <;> simp

theorem livenessStateForStatus_ended {status : RunStatus} (terminal : status.isTerminal) :
    livenessStateForStatus status = .terminal ∨ livenessStateForStatus status = .orphaned := by
  cases status <;> simp_all [RunStatus.isTerminal, livenessStateForStatus]

theorem transition_closed {status : RunStatus} {reason : Option String} {patch : Metadata} {now : Int}
    (terminal : status.isTerminal) : Closed (run.transition status reason patch now) := by
  refine ⟨⟨?_, ?_⟩, ?_, versioned_ended (livenessStateForStatus_ended terminal), ?_⟩
  · simp [Run.transition, terminal]
  · simp [Run.transition, terminal]
  · simp [Run.transition, terminal]
  · intro known
    cases status <;> simp_all [Run.transition, Run.stamp, RunStatus.isTerminal]

variable {reason : Option String} {patch : Metadata} {now : Int}

theorem transition_advances {status : RunStatus} (closed : run.status.isTerminal → Closed run)
    (sink : run.status.isTerminal → status = run.status) : Advances run (run.transition status reason patch now) := by
  refine ⟨transition_closed, fun ended => sink ended, fun ended => ?_⟩
  obtain rfl := sink ended
  have stamped := (closed ended).stamped
  cases same : run.status <;> simp_all [Run.transition, Run.stamp, RunStatus.isTerminal]
  all_goals
    obtain ⟨time, stamp⟩ := Option.isSome_iff_exists.mp stamped
    simp [stamp]

theorem markStatusCancelled_advances (closed : run.status.isTerminal → Closed run) :
    Advances run ((markStatusCancelled reason patch now).apply run) := by
  unfold RowUpdate.apply
  split
  next hit =>
    have kept : run.status.isTerminal → run.status = .cancelled := by
      simp only [markStatusCancelled, Bool.or_eq_true, Bool.not_eq_true', decide_eq_true_eq] at hit
      intro ended
      exact hit.resolve_left (by simp [ended])
    refine ⟨fun _ => ⟨⟨rfl, rfl⟩, ?_, versioned_ended (.inl rfl), fun _ => ?_⟩, fun ended => (kept ended).symm,
      fun ended => ?_⟩
    · simp [markStatusCancelled]
    · cases stamp : run.cancelledAt <;> simp [markStatusCancelled, Run.stamp, stamp]
    · have stamped := (closed ended).stamped
      simp only [Run.stamp, kept ended] at stamped ⊢
      obtain ⟨time, stamp⟩ := Option.isSome_iff_exists.mp (stamped (by simp))
      simp [markStatusCancelled, stamp]
  next => exact .refl closed

theorem apply_advances {update : RowUpdate} (closed : run.status.isTerminal → Closed run)
    (still : update.hits run → run.status.isTerminal = false)
    (closes : update.hits run → (update.set run).status.isTerminal → Closed (update.set run)) :
    Advances run (update.apply run) := by
  unfold RowUpdate.apply
  split
  next hit => exact .fromOpen (still hit) (closes hit)
  next => exact .refl closed

theorem releaseRunLease_advances {workerId : String} {finalStatus : Option RunStatus} {leaseToken : Option String}
    (closed : run.status.isTerminal → Closed run) :
    Advances run ((releaseRunLease workerId finalStatus reason leaseToken now).apply run) := by
  unfold RowUpdate.apply
  split
  next hit =>
    by_cases ended : run.status.isTerminal = true
    · have stamped := (closed ended).stamped
      have ends : ∀ {state : LivenessState}, run.status ≠ .orphaned → run.status.isTerminal := fun _ => ended
      refine ⟨fun _ => ⟨⟨rfl, rfl⟩, ?_, versioned_ended ?_, ?_⟩, fun _ => ?_, fun _ => ?_⟩
      · simp [releaseRunLease, ended]
      · split
        · exact .inr rfl
        · simp [ended]
      · simpa [releaseRunLease, ended, Run.stamp] using stamped
      · simp [releaseRunLease, ended]
      · simp [releaseRunLease, ended, Run.stamp]
    · have still : run.status.isTerminal = false := by simpa using ended
      refine .fromOpen still fun finished => ?_
      obtain ⟨final, rfl⟩ : ∃ final, finalStatus = some final := by
        cases finalStatus with
        | none => simp [releaseRunLease, still] at finished
        | some final => exact ⟨final, rfl⟩
      have terminal : final.isTerminal := by simpa [releaseRunLease, still] using finished
      refine ⟨⟨rfl, rfl⟩, ?_, versioned_ended ?_, fun known => ?_⟩
      · simp [releaseRunLease, terminal]
      · split
        · exact .inr rfl
        · simp [terminal]
      · cases final <;> simp_all [releaseRunLease, Run.stamp, RunStatus.isTerminal]
  next => exact .refl closed

theorem advances {operation : StatusOperation} (closed : run.status.isTerminal → Closed run)
    (expected : operation.expectsOpen) (orderly : Orderly operation run) :
    Advances run (operation.update.apply run) := by
  cases operation with
  | markStatus status reason patch now =>
    simp only [StatusOperation.update, Runs.markStatus]
    split
    · exact markStatusCancelled_advances closed
    · unfold RowUpdate.apply
      split
      next hit =>
        refine transition_advances closed fun ended => ?_
        simpa [markRunStatus, ended, eq_comm] using hit
      next => exact .refl closed
  | markStatusIfCurrent expectedStatuses status reason patch leaseAuthority now =>
    refine apply_advances closed (fun hit => ?_) fun _ finished => transition_closed finished
    simp only [StatusOperation.update, markRunStatusIfCurrent, Bool.and_eq_true, List.contains_iff_mem] at hit
    exact expected _ hit.1
  | claimStateOnlyTerminalOutbox status reason patch now =>
    unfold RowUpdate.apply
    split
    next hit =>
      refine ⟨fun ended => ?_, fun _ => rfl, fun _ => rfl⟩
      obtain ⟨unleased, silent, liveness, stamped⟩ := closed ended
      exact ⟨⟨unleased.worker, unleased.expiry⟩, by simp [StatusOperation.update, Runs.claimStateOnlyTerminalOutbox],
        liveness, stamped⟩
    next => exact .refl closed
  | cancelActiveByUser userId reason now =>
    refine apply_advances closed (fun hit => ?_) fun _ _ => ⟨⟨rfl, rfl⟩, ?_, versioned_ended (.inl rfl), fun _ => ?_⟩
    · simp only [StatusOperation.update, cancelActiveRunsByUser, Bool.and_eq_true, Bool.not_eq_true'] at hit
      exact hit.2
    · simp [StatusOperation.update, cancelActiveRunsByUser]
    · cases stamp : run.cancelledAt <;> simp [StatusOperation.update, cancelActiveRunsByUser, Run.stamp, stamp]
  | cancelActiveByTenant tenantId reason now =>
    have reads : (StatusOperation.cancelActiveByTenant tenantId reason now).update.hits run →
        run.tenantId = tenantId ∧ run.status.isTerminal = false := by
      simp [StatusOperation.update, Runs.cancelActiveByTenant]
    refine apply_advances closed (fun hit => (reads hit).2) fun hit _ => ?_
    obtain ⟨unleased, liveness⟩ := orderly (reads hit).1 (reads hit).2
    exact ⟨⟨unleased.worker, unleased.expiry⟩, by simp [StatusOperation.update, Runs.cancelActiveByTenant], liveness, fun _ => rfl⟩
  | cancelPendingTaskboardRun reason now =>
    refine apply_advances closed (fun hit => ?_) fun _ _ => ⟨⟨rfl, rfl⟩, ?_, versioned_ended (.inl rfl), fun _ => ?_⟩
    · simp only [StatusOperation.update, Runs.cancelPendingTaskboardRun, Bool.and_eq_true, decide_eq_true_eq] at hit
      rw [hit.1]
      rfl
    · simp [StatusOperation.update, Runs.cancelPendingTaskboardRun]
    · cases stamp : run.cancelledAt <;> simp [StatusOperation.update, Runs.cancelPendingTaskboardRun, Run.stamp, stamp]
  | cancelStaleWaitingApproval cutoff reason patch now =>
    have reads : (StatusOperation.cancelStaleWaitingApproval cutoff reason patch now).update.hits run →
        run.status = .waitingApproval ∧ run.updatedAt < cutoff := by
      simp [StatusOperation.update, Runs.cancelStaleWaitingApproval]
    refine apply_advances closed (fun hit => by rw [(reads hit).1]; rfl) fun hit _ => ?_
    refine ⟨⟨rfl, rfl⟩, by simp [StatusOperation.update, Runs.cancelStaleWaitingApproval], orderly (reads hit).1 (reads hit).2, fun _ => ?_⟩
    cases stamp : run.cancelledAt <;> simp [StatusOperation.update, Runs.cancelStaleWaitingApproval, Run.stamp, stamp]
  | releaseLease workerId finalStatus reason leaseToken now => exact releaseRunLease_advances closed
  | acquireLease request inheritsParentCapacity runningTool blockersCleared =>
    refine apply_advances closed (fun hit => ?_) fun _ finished => by cases finished
    simp only [StatusOperation.update, Runs.acquireLease, recoverableRunHandoff, Bool.and_eq_true, Bool.or_eq_true,
      decide_eq_true_eq] at hit
    obtain ⟨⟨⟨(pending | abandoned) | handoff, _⟩, _⟩, _⟩ := hit
    · rw [pending]; rfl
    · rw [abandoned.1.1]; rfl
    · rw [handoff.1.1.1.1]; rfl
  | renewLease request source =>
    have reads : (StatusOperation.renewLease request source).update.hits run → run.status = .running := by
      simp only [StatusOperation.update, renewRunLease, Bool.and_eq_true, decide_eq_true_eq]
      exact fun hit => hit.1.2
    refine apply_advances closed (fun hit => by rw [reads hit]; rfl) fun hit finished => ?_
    have kept : run.status.isTerminal := finished
    simp [reads hit, RunStatus.isTerminal] at kept
  | markLivenessStale workerId reasonCode now =>
    have reads : (StatusOperation.markLivenessStale workerId reasonCode now).update.hits run → run.status = .running := by
      simp only [StatusOperation.update, markRunLivenessStale, Bool.and_eq_true, decide_eq_true_eq]
      exact fun hit => hit.1.1.2
    refine apply_advances closed (fun hit => by rw [reads hit]; rfl) fun hit finished => ?_
    have kept : run.status.isTerminal := finished
    simp [reads hit, RunStatus.isTerminal] at kept
  | reapOrphaned staleBefore runningTool now =>
    refine apply_advances closed (fun hit => ?_) fun _ _ => ⟨⟨rfl, rfl⟩, ?_, .inr (.inr rfl), fun known => ?_⟩
    · simp only [StatusOperation.update, Runs.reapOrphaned, Bool.and_eq_true, decide_eq_true_eq] at hit
      rw [hit.1.1.1.1.1]
      rfl
    · simp [StatusOperation.update, Runs.reapOrphaned]
    · exact (known rfl).elim
  | reapStale now =>
    have reads : (StatusOperation.reapStale now).update.hits run → run.status = .running := by
      simp only [StatusOperation.update, Runs.reapStale, Bool.and_eq_true, decide_eq_true_eq]
      exact fun hit => hit.1.1.1.1
    refine apply_advances closed (fun hit => by rw [reads hit]; rfl) fun hit finished => ?_
    have kept : run.status.isTerminal := finished
    simp [reads hit, RunStatus.isTerminal] at kept
  | claimPersistedInteractionResume expectedStatuses reason patch now =>
    refine apply_advances closed (fun hit => ?_) fun _ finished => by cases finished
    simp only [StatusOperation.update, Runs.claimPersistedInteractionResume, List.contains_iff_mem] at hit
    exact expected _ hit
  | applySteeringSource targetRunId now =>
    have reads : (StatusOperation.applySteeringSource targetRunId now).update.hits run → run.status = .pending := by
      simp [StatusOperation.update, steeredIntoRun]
    refine apply_advances closed (fun hit => by rw [reads hit]; rfl) fun hit _ => ?_
    exact ⟨⟨rfl, rfl⟩, by simp [StatusOperation.update, steeredIntoRun], orderly (reads hit), fun _ => rfl⟩
  | cancelPendingSteeringSource reason now =>
    have reads : (StatusOperation.cancelPendingSteeringSource reason now).update.hits run → run.status = .pending := by
      simp [StatusOperation.update, withdrawSteeringSource]
    refine apply_advances closed (fun hit => by rw [reads hit]; rfl) fun hit _ => ?_
    obtain ⟨unleased, liveness, stamped⟩ := orderly (reads hit)
    exact ⟨⟨unleased.worker, unleased.expiry⟩, by simp [StatusOperation.update, withdrawSteeringSource], liveness, fun _ => stamped⟩
  | cancelSteeringSource releasable reason now =>
    have reads : (StatusOperation.cancelSteeringSource releasable reason now).update.hits run →
        run.status = .pending := by simp [StatusOperation.update, stopSteeringSource]
    refine apply_advances closed (fun hit => by rw [reads hit]; rfl) fun hit finished => ?_
    cases releasable with
    | true =>
      have kept : run.status.isTerminal := finished
      simp [reads hit, RunStatus.isTerminal] at kept
    | false =>
      obtain ⟨unleased, liveness⟩ := orderly (reads hit) rfl
      exact ⟨⟨unleased.worker, unleased.expiry⟩, by simp [StatusOperation.update, stopSteeringSource], liveness, fun _ => rfl⟩
  | cancelSteeringTarget reason now =>
    have reads : (StatusOperation.cancelSteeringTarget reason now).update.hits run → run.status.isTerminal = false := by
      simp [StatusOperation.update, stopSteeringTarget, RunStatus.isStoppable]
    refine apply_advances closed reads fun hit _ => ?_
    exact ⟨⟨rfl, rfl⟩, by simp [StatusOperation.update, stopSteeringTarget], orderly (reads hit), fun _ => rfl⟩
  | releaseSteeringSource now =>
    unfold RowUpdate.apply
    split
    next hit =>
      refine ⟨fun ended => ?_, fun _ => rfl, fun _ => rfl⟩
      obtain ⟨unleased, silent, liveness, stamped⟩ := closed ended
      exact ⟨⟨unleased.worker, unleased.expiry⟩, by simpa [StatusOperation.update, Runs.releaseSteeringSource] using silent,
        liveness, stamped⟩
    next => exact .refl closed
  | sealSteeringWindow now =>
    refine ⟨fun ended => ?_, fun _ => rfl, fun _ => rfl⟩
    obtain ⟨unleased, silent, liveness, stamped⟩ := closed ended
    exact ⟨⟨unleased.worker, unleased.expiry⟩,
      by simpa [RowUpdate.apply, StatusOperation.update, Runs.sealSteeringWindow] using silent, liveness, stamped⟩

variable {rows later : List Run}

structure Grown (rows later : List Run) : Prop where
  closed : ∀ run ∈ later, run.status.isTerminal → Closed run
  kept : ∀ (index : Nat) run, rows[index]? = some run → run.status.isTerminal →
    ∃ after, later[index]? = some after ∧ after.status = run.status ∧ after.stamp = run.stamp

theorem Grown.refl (closed : ∀ run ∈ rows, run.status.isTerminal → Closed run) : Grown rows rows :=
  ⟨closed, fun _ run found _ => ⟨run, found, rfl, rfl⟩⟩

theorem Grown.trans {a b c : List Run} (first : Grown a b) (last : Grown b c) : Grown a c := by
  refine ⟨last.closed, fun index run found ended => ?_⟩
  obtain ⟨middle, inside, status, stamp⟩ := first.kept index run found ended
  obtain ⟨after, present, same, time⟩ := last.kept index middle inside (status ▸ ended)
  exact ⟨after, present, same.trans status, time.trans stamp⟩

theorem grown_step (closed : ∀ run ∈ rows, run.status.isTerminal → Closed run) (step : StatusStep Orderly rows later) :
    Grown rows later := by
  cases step with
  | enqueue fresh =>
    refine ⟨fun run member ended => ?_, fun index run found _ => ?_⟩
    · cases List.mem_append.mp member with
      | inl old => exact closed run old ended
      | inr new =>
        rw [List.mem_singleton.mp new] at ended
        cases ended
    · have inside : index < rows.length := (List.getElem?_eq_some_iff.mp found).1
      exact ⟨run, by rw [List.getElem?_append_left inside, found], rfl, rfl⟩
  | @update target hit operation found expected orderly =>
    have advanced := advances (closed hit (List.mem_of_getElem? found)) expected orderly
    refine ⟨fun run member ended => ?_, fun index run present ended => ?_⟩
    · cases List.mem_or_eq_of_mem_set member with
      | inl old => exact closed run old ended
      | inr new =>
        subst new
        exact advanced.closed ended
    · by_cases same : target = index
      · subst same
        obtain rfl : hit = run := Option.some.inj (found.symm.trans present)
        have inside : target < rows.length := (List.getElem?_eq_some_iff.mp found).1
        exact ⟨_, List.getElem?_set_self inside, advanced.status ended, advanced.stamp ended⟩
      · exact ⟨run, by rw [List.getElem?_set_ne same, present], rfl, rfl⟩

theorem grown_run (closed : ∀ run ∈ rows, run.status.isTerminal → Closed run) (run : StatusRun Orderly rows later) :
    Grown rows later := by
  induction run with
  | refl => exact .refl closed
  | tail _ step ih => exact ih.trans (grown_step ih.closed step)

/-- In a run whose forgetful updates only hit orderly rows, every terminal row is
closed, and it keeps its status and the time of it for ever. -/
theorem closed_when_orderly (run : StatusRun Orderly [] rows) :
    (∀ run ∈ rows, run.status.isTerminal → Closed run) ∧
      ∀ later, StatusRun Orderly rows later → ∀ (index : Nat) run, rows[index]? = some run → run.status.isTerminal →
        ∃ after, later[index]? = some after ∧ after.status = run.status ∧ after.stamp = run.stamp := by
  have grown := grown_run (fun _ member => (List.not_mem_nil member).elim) run
  exact ⟨grown.closed, fun later more => (grown_run grown.closed more).kept⟩

def submitted : UpsertRunInput :=
  ⟨"r1", "s1", some "u1", none, some "acme", none, some "web", some "m1", none, none, .empty⟩

def leased : LeaseRequest := ⟨"w1", 60000, 2, none⟩

def leasedRows : List Run :=
  [(acquireLease leased false false true).apply (pendingRun submitted .empty 1 1)]

theorem leasedRows_reached {admits : StatusOperation → Run → Prop}
    (admitted : admits (.acquireLease leased false false true) (pendingRun submitted .empty 1 1)) :
    StatusRun admits [] leasedRows := by
  have enqueued : StatusRun admits [] [pendingRun submitted .empty 1 1] :=
    .single (.enqueue fun _ member => (List.not_mem_nil member).elim)
  have taken : StatusStep admits [pendingRun submitted .empty 1 1] ([pendingRun submitted .empty 1 1].set 0 _) :=
    .update (.acquireLease leased false false true) rfl trivial admitted
  exact enqueued.tail taken

/-- The worker finishes and gives its lease back, and nothing touches the row after that. -/
theorem closed_when_orderly_released : ∃ rows, StatusRun Orderly [] rows ∧ rows.map (·.status) = [.completed] ∧
    ∀ run ∈ rows, run.status.isTerminal → Closed run := by
  have run : StatusRun Orderly [] (leasedRows.set 0 _) := (leasedRows_reached trivial).tail
    (.update (.releaseLease "w1" (some .completed) none none 3) rfl trivial trivial)
  exact ⟨_, run, by decide +kernel, (closed_when_orderly run).1⟩

/-- A leased run whose tenant is cancelled keeps its worker. -/
theorem cancelActiveByTenant_leaves_lease :
    ¬ ∀ rows, StatusRun (fun _ _ => True) [] rows → ∀ run ∈ rows, run.status.isTerminal → Closed run := by
  intro claimed
  have run : StatusRun (fun _ _ => True) [] (leasedRows.set 0 _) := (leasedRows_reached trivial).tail
    (.update (.cancelActiveByTenant "acme" "tenant_disabled" 3) rfl trivial trivial)
  have closed := claimed _ run _ List.mem_cons_self (by decide +kernel)
  exact absurd closed.unleased.worker (by decide +kernel)

end AgentSaas.Proofs.RunClosure
