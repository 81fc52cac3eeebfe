import AgentSaas.SyncRecovery

/-! Between two baseline changes the reducer numbers its applied events without
a gap or a repeat, whatever the order in which frames arrive. -/

namespace AgentSaas.Proofs.SyncRecovery
open AgentSaas.SyncRecovery

variable {ω π : Type} {views : Projections ω π} {state next : SyncRecoveryState ω π}

theorem numbersAfter_succ (baseline : Int) (count : Nat) :
    numbersAfter baseline (count + 1) = (baseline + 1) :: numbersAfter (baseline + 1) count := by
  rw [numbersAfter, numbersAfter, List.range_succ_eq_map, List.map_cons, List.map_map]
  refine congrArg₂ _ (by simp) (List.map_congr_left fun index _ => ?_)
  simp only [Function.comp_apply]
  omega

theorem numbersAfter_append (baseline : Int) (first last : Nat) :
    numbersAfter baseline first ++ numbersAfter (baseline + first) last = numbersAfter baseline (first + last) := by
  induction first generalizing baseline with
  | zero => simp [numbersAfter]
  | succ first ih =>
    have shifted : baseline + ((first + 1 : Nat) : Int) = baseline + 1 + first := by omega
    rw [numbersAfter_succ, shifted, List.cons_append, ih, show first + 1 + last = (first + last) + 1 by omega,
      numbersAfter_succ]

theorem numbersAfter_last (baseline : Int) (count : Nat) :
    ((numbersAfter baseline count).getLast?).getD baseline = baseline + count := by
  cases count with
  | zero => simp [numbersAfter]
  | succ count =>
    rw [numbersAfter, List.range_succ, List.map_append, List.map_singleton, List.getLast?_concat, Option.getD_some]
    omega

/-- These events carry the next numbers after `baseline`, and the cursor stands
on the last of them. -/
structure Counted (baseline lastSeq : Int) (applied : List (AppliedSyncEvent ω)) : Prop where
  numbers : applied.map (·.seq) = numbersAfter baseline applied.length
  last : lastSeq = baseline + applied.length

theorem Counted.nil (baseline : Int) : Counted baseline baseline ([] : List (AppliedSyncEvent ω)) :=
  ⟨rfl, by simp⟩

theorem Counted.append {baseline middle last : Int} {first second : List (AppliedSyncEvent ω)}
    (before : Counted baseline middle first) (after : Counted middle last second) :
    Counted baseline last (first ++ second) := by
  refine ⟨?_, ?_⟩
  · rw [List.map_append, before.numbers, after.numbers, before.last, numbersAfter_append, List.length_append]
  · rw [after.last, before.last, List.length_append]
    omega

theorem Counted.getLast {baseline lastSeq : Int} {applied : List (AppliedSyncEvent ω)}
    (counted : Counted baseline lastSeq applied) :
    lastSeq = (applied.getLast?.map (·.seq)).getD baseline := by
  rw [← List.getLast?_map, counted.numbers, numbersAfter_last, counted.last]

structure SameEpochs (before after : SyncRecoveryState ω π) : Prop where
  serverEpoch : after.serverEpoch = before.serverEpoch
  retiredEpochs : after.retiredEpochs = before.retiredEpochs

theorem SameEpochs.trans {first second third : SyncRecoveryState ω π} (left : SameEpochs first second)
    (right : SameEpochs second third) : SameEpochs first third :=
  ⟨right.serverEpoch.trans left.serverEpoch, right.retiredEpochs.trans left.retiredEpochs⟩

theorem applySorted_counted (views : Projections ω π) (events : List (AppliedSyncEvent ω)) (state : SyncRecoveryState ω π) :
    ∃ applied, (applySorted views state events).appliedEvents = state.appliedEvents ++ applied ∧
      Counted state.lastSeq (applySorted views state events).lastSeq applied ∧
      SameEpochs state (applySorted views state events) := by
  induction events generalizing state with
  | nil => exact ⟨[], by simp [applySorted], .nil _, rfl, rfl⟩
  | cons candidate rest ih =>
    simp only [applySorted]
    split
    · exact ih state
    split
    · exact ⟨[], by simp, .nil _, rfl, rfl⟩
    next following =>
      have advanced : candidate.seq = state.lastSeq + 1 := by simpa using following
      obtain ⟨applied, appended, counted, same⟩ :=
        ih { projectEvent views state candidate with lastSeq := candidate.seq }
      refine ⟨candidate :: applied, ?_, ?_, same.serverEpoch, same.retiredEpochs⟩
      · simpa [projectEvent] using appended
      · have one : Counted state.lastSeq candidate.seq [candidate] := ⟨by simp [numbersAfter, advanced], by simp [advanced]⟩
        exact one.append counted

theorem applyContiguous_counted (views : Projections ω π) (events : List (AppliedSyncEvent ω)) (clean : state.appliedEvents = []) :
    Counted state.lastSeq (applyContiguous views state events).lastSeq
        (applyContiguous views state events).appliedEvents ∧
      SameEpochs state (applyContiguous views state events) := by
  obtain ⟨applied, appended, counted, same⟩ := applySorted_counted views
    (events.insertionSort fun left right => left.seq ≤ right.seq) state
  rw [clean, List.nil_append] at appended
  exact ⟨appended ▸ counted, same⟩

theorem requestSync_keeps (state : SyncRecoveryState ω π) (reason : SyncReason) :
    (requestSync state reason).lastSeq = state.lastSeq ∧
      (requestSync state reason).appliedEvents = state.appliedEvents ∧
      SameEpochs state (requestSync state reason) := by
  simp only [requestSync]
  split
  · exact ⟨rfl, rfl, rfl, rfl⟩
  · split <;> exact ⟨rfl, rfl, rfl, rfl⟩

/-- One frame of the current epoch, from a cursor at `baseline`. -/
structure Continues (baseline : Int) (before after : SyncRecoveryState ω π) : Prop where
  counted : Counted baseline after.lastSeq after.appliedEvents
  same : SameEpochs before after

theorem Continues.still (clean : state.appliedEvents = []) : Continues state.lastSeq state state :=
  ⟨clean ▸ .nil _, rfl, rfl⟩

theorem Continues.request {baseline : Int} (reason : SyncReason) (continued : Continues baseline state next) :
    Continues baseline state (requestSync next reason) := by
  obtain ⟨last, applied, same⟩ := requestSync_keeps next reason
  exact ⟨by rw [last, applied]; exact continued.counted, continued.same.trans same⟩

theorem reducePong_continues (changed : Bool) (seq : Option Int) (clean : state.appliedEvents = []) :
    Continues state.lastSeq state (reducePong state changed seq) := by
  simp only [reducePong]
  split
  · exact (Continues.still clean).request _
  split
  · exact (Continues.still clean).request _
  · exact .still clean

theorem reduceEvent_continues (changed : Bool) (seq : Int) (event : ω) (clean : state.appliedEvents = []) :
    Continues state.lastSeq state (reduceEvent views state changed seq event) := by
  simp only [reduceEvent]
  split
  · exact .still clean
  split
  · exact (Continues.still clean).request _
  · obtain ⟨counted, same⟩ := applyContiguous_counted views [⟨seq, event⟩] clean
    exact ⟨counted, same.serverEpoch, same.retiredEpochs⟩

theorem reduceBatch_handshake (changed : Bool) (seq : Int) (events : List (AppliedSyncEvent ω))
    (clean : state.appliedEvents = []) (idle : state.phase = .idle ∧ state.lastSeq = 0 ∧ events.isEmpty = true) :
    Continues (max 0 seq) state (reduceBatch views state changed seq events) := by
  rw [reduceBatch, if_pos idle]
  exact ⟨by simpa only [clean] using Counted.nil (max 0 seq), rfl, rfl⟩

theorem reduceBatch_continues (views : Projections ω π) (changed : Bool) (seq : Int) (events : List (AppliedSyncEvent ω))
    (clean : state.appliedEvents = [])
    (busy : ¬ (state.phase = .idle ∧ state.lastSeq = 0 ∧ events.isEmpty = true)) :
    Continues state.lastSeq state (reduceBatch views state changed seq events) := by
  obtain ⟨counted, same⟩ := applyContiguous_counted views events clean
  have applied : Continues state.lastSeq state (applyContiguous views state events) := ⟨counted, same⟩
  rw [reduceBatch, if_neg busy]
  simp only
  split
  · exact ⟨counted, same.serverEpoch, same.retiredEpochs⟩
  split
  · exact applied.request _
  · exact applied.request _

/-- The current epoch is never a retired one, and a retired epoch has a name. -/
structure Valid (state : SyncRecoveryState ω π) : Prop where
  current : ∀ epoch ∈ state.retiredEpochs, state.serverEpoch ≠ some epoch
  named : ∀ epoch ∈ state.retiredEpochs, epoch ≠ ""

theorem Valid.same (valid : Valid state) (same : SameEpochs state next) : Valid next :=
  ⟨by rw [same.retiredEpochs, same.serverEpoch]; exact valid.current,
    by rw [same.retiredEpochs]; exact valid.named⟩

/-- The three outcomes of `adoptEpoch`. -/
inductive Adoption (state : SyncRecoveryState ω π) (epoch : Option String) : EpochAdoption ω π → Prop where
  | current (adopted : adopts state epoch = false) (known : retired state epoch = false) :
      Adoption state epoch ⟨state, false, false⟩
  | old (adopted : adopts state epoch = false) (known : retired state epoch = true) :
      Adoption state epoch ⟨state, true, false⟩
  | fresh {next : SyncRecoveryState ω π} (adopted : adopts state epoch = true) (known : retired state epoch = false)
      (zero : next.lastSeq = 0) (clean : next.appliedEvents = []) (phase : next.phase = state.phase)
      (valid : Valid next) : Adoption state epoch ⟨next, false, true⟩

theorem adopted_valid (valid : Valid state) (epoch : String) (different : some epoch ≠ state.serverEpoch)
    (unknown : epoch ∉ state.retiredEpochs) (same : next.serverEpoch = some epoch)
    (retiring : next.retiredEpochs = (truthy state.serverEpoch).toList ++ state.retiredEpochs) : Valid next := by
  refine ⟨?_, ?_⟩
  all_goals
    intro other member
    rw [retiring, List.mem_append, Option.mem_toList, truthy, Option.filter_eq_some_iff] at member
  · rw [same]
    intro equal
    cases equal
    exact member.elim (fun superseded => different superseded.1.symm) unknown
  · exact member.elim (fun superseded => by simpa using superseded.2) (valid.named other)

theorem adoptEpoch_cases (views : Projections ω π) (valid : Valid state) (epoch : Option String) :
    Adoption state epoch (adoptEpoch views state epoch) := by
  cases epoch with
  | none => exact .current rfl rfl
  | some epoch =>
    by_cases unnamed : epoch = ""
    · subst unnamed
      have absent : "" ∉ state.retiredEpochs := fun member => valid.named "" member rfl
      exact .current (by simp [adopts, truthy]) (by simp [retired, absent])
    have named : truthy (some epoch) = some epoch := by simp [truthy, unnamed]
    simp only [adoptEpoch, named]
    split
    next same =>
      have unretired : epoch ∉ state.retiredEpochs := fun member => valid.current epoch member same.symm
      exact .current (by simp [adopts, named, ← same]) (by simp [retired, unretired])
    next different =>
      split
      next known => exact .old (by simp [adopts, named, known]) (by simp [retired, known])
      next unknown =>
        exact .fresh (by simp [adopts, named, different, unknown]) (by simp [retired, unknown]) rfl rfl rfl
          (adopted_valid valid epoch different unknown rfl rfl)

theorem created_valid (lastSeq : Option Int) (serverEpoch : Option String) :
    Valid (createSyncRecoveryState views lastSeq serverEpoch) :=
  ⟨fun _ member => (List.not_mem_nil member).elim, fun _ member => (List.not_mem_nil member).elim⟩

theorem withoutApplied_valid (valid : Valid state) : Valid (withoutApplied state) := valid.same ⟨rfl, rfl⟩

theorem retired_dropped (valid : Valid state) {action : SyncRecoveryAction ω}
    (old : retired state action.epoch = true) : reduceSyncRecovery views state action = withoutApplied state := by
  have adoption := adoptEpoch_cases views (withoutApplied_valid valid) action.epoch
  have known : retired (withoutApplied state) action.epoch = true := old
  generalize outcome : adoptEpoch views (withoutApplied state) action.epoch = adopted at adoption
  cases action with
  | reset | fullRefreshComplete => cases old
  | _ =>
    simp only [reduceSyncRecovery, outcome]
    cases adoption with
    | current _ unknown => rw [known] at unknown; cases unknown
    | fresh _ unknown => rw [known] at unknown; cases unknown
    | old => rfl

theorem Continues.settle {baseline : Int} (continued : Continues baseline state next) (valid : Valid state) :
    Counted baseline next.lastSeq next.appliedEvents ∧ Valid next :=
  ⟨continued.counted, valid.same continued.same⟩

theorem reduceOverflow_continues (state : SyncRecoveryState ω π) (seq : Int) :
    Continues (max 0 seq) state (reduceOverflow views state seq) :=
  ⟨.nil _, rfl, rfl⟩

theorem reduceSyncRecovery_counted (views : Projections ω π) (valid : Valid state) (action : SyncRecoveryAction ω) :
    Counted ((baselineChange state action).getD state.lastSeq) (reduceSyncRecovery views state action).lastSeq
        (reduceSyncRecovery views state action).appliedEvents ∧
      Valid (reduceSyncRecovery views state action) := by
  have cleared := withoutApplied_valid valid
  have adoption := adoptEpoch_cases views cleared action.epoch
  generalize outcome : adoptEpoch views (withoutApplied state) action.epoch = adopted at adoption
  have sameAdopts (epoch) : adopts (withoutApplied state) epoch = adopts state epoch := rfl
  have sameRetired (epoch) : retired (withoutApplied state) epoch = retired state epoch := rfl
  have clean : (withoutApplied state).appliedEvents = [] := rfl
  have still : Counted state.lastSeq (withoutApplied state).lastSeq (withoutApplied state).appliedEvents := .nil _
  cases action with
  | reset lastSeq serverEpoch =>
    exact ⟨.nil _, created_valid lastSeq serverEpoch⟩
  | fullRefreshComplete =>
    simp only [reduceSyncRecovery, baselineChange, Option.getD_none]
    split
    · exact ⟨.nil _, cleared⟩
    · exact ⟨.nil _, valid.same ⟨rfl, rfl⟩⟩
  | pong seq epoch =>
    simp only [SyncRecoveryAction.epoch] at outcome adoption
    simp only [reduceSyncRecovery, SyncRecoveryAction.epoch, outcome, baselineChange, ← sameAdopts]
    cases adoption with
    | current adopted =>
      rw [adopted]
      exact (reducePong_continues false seq rfl).settle cleared
    | old adopted =>
      rw [adopted]
      exact ⟨still, cleared⟩
    | fresh adopted _ zero clean _ named =>
      rw [adopted]
      exact (zero ▸ reducePong_continues true seq clean).settle named
  | event seq epoch event =>
    simp only [SyncRecoveryAction.epoch] at outcome adoption
    simp only [reduceSyncRecovery, SyncRecoveryAction.epoch, outcome, baselineChange, ← sameAdopts]
    cases adoption with
    | current adopted =>
      rw [adopted]
      exact (reduceEvent_continues false seq event rfl).settle cleared
    | old adopted =>
      rw [adopted]
      exact ⟨still, cleared⟩
    | fresh adopted _ zero clean _ named =>
      rw [adopted]
      exact (zero ▸ reduceEvent_continues true seq event clean).settle named
  | syncOverflow seq epoch =>
    simp only [SyncRecoveryAction.epoch] at outcome adoption
    simp only [reduceSyncRecovery, SyncRecoveryAction.epoch, outcome, baselineChange, ← sameRetired]
    cases adoption with
    | current _ known =>
      rw [known]
      exact (reduceOverflow_continues _ seq).settle cleared
    | old _ known =>
      rw [known]
      exact ⟨still, cleared⟩
    | fresh _ known _ _ _ named =>
      rw [known]
      exact (reduceOverflow_continues _ seq).settle named
  | syncOk seq epoch events =>
    simp only [SyncRecoveryAction.epoch] at outcome adoption
    simp only [reduceSyncRecovery, SyncRecoveryAction.epoch, outcome, baselineChange, ← sameRetired, ← sameAdopts]
    cases adoption with
    | current adopted known =>
      simp only [adopted, known, Bool.false_eq_true, if_false, false_or]
      split
      next idle => exact (reduceBatch_handshake false seq events clean idle).settle cleared
      next busy => exact (reduceBatch_continues views false seq events clean busy).settle cleared
    | old adopted known =>
      rw [known]
      exact ⟨still, cleared⟩
    | fresh adopted known zero clean phase named =>
      simp only [adopted, known, Bool.false_eq_true, if_false, true_or, true_and, if_true]
      split
      next idle =>
        exact (reduceBatch_handshake true seq events clean ⟨phase.trans idle.1, zero, idle.2⟩).settle named
      next busy =>
        have started := reduceBatch_continues views true seq events clean
          (fun idle => busy ⟨phase.symm.trans idle.1, idle.2.2⟩)
        exact (zero ▸ started).settle named

structure Recorded (history : History ω π) : Prop where
  valid : Valid history.state
  counted : Counted history.baseline history.state.lastSeq history.applied

theorem created_recorded (views : Projections ω π) (lastSeq : Option Int) (serverEpoch : Option String) :
    Recorded (History.created views lastSeq serverEpoch) :=
  ⟨created_valid lastSeq serverEpoch, .nil _⟩

theorem after_recorded (views : Projections ω π) {history : History ω π} (recorded : Recorded history) (action : SyncRecoveryAction ω) :
    Recorded (history.after views action) := by
  obtain ⟨counted, valid⟩ := reduceSyncRecovery_counted views recorded.valid action
  simp only [History.after]
  cases change : baselineChange history.state action with
  | some baseline => exact ⟨valid, by simpa only [change, Option.getD_some] using counted⟩
  | none =>
    rw [change, Option.getD_none] at counted
    exact ⟨valid, recorded.counted.append counted⟩

theorem run_recorded (views : Projections ω π) (actions : List (SyncRecoveryAction ω)) {history : History ω π} (recorded : Recorded history) :
    Recorded (actions.foldl (History.after views) history) := by
  induction actions generalizing history with
  | nil => exact recorded
  | cons action rest ih => exact ih (after_recorded views recorded action)

/-- Exactly-once, in-order recovery over every sequence of frames. -/
theorem recovered_once (views : Projections ω π) (lastSeq : Option Int) (serverEpoch : Option String)
    (actions : List (SyncRecoveryAction ω)) :
    let history := actions.foldl (History.after views) (.created views lastSeq serverEpoch)
    history.applied.map (·.seq) = numbersAfter history.baseline history.applied.length ∧
      history.state.lastSeq = (history.applied.getLast?.map (·.seq)).getD history.baseline ∧
      ∀ action : SyncRecoveryAction ω, retired history.state action.epoch = true →
        let next := reduceSyncRecovery views history.state action
        next.appliedEvents = [] ∧ next.lastSeq = history.state.lastSeq ∧
          next.serverEpoch = history.state.serverEpoch := by
  have recorded := run_recorded views actions (created_recorded views lastSeq serverEpoch)
  refine ⟨recorded.counted.numbers, recorded.counted.getLast, ?_⟩
  intro action old
  simp only [retired_dropped recorded.valid old]
  exact ⟨rfl, rfl, rfl⟩

theorem recovered_once_after_restart :
    let history : History Unit Unit := [.pong (some 3) (some "old"),
      .syncOk 3 (some "old") [⟨3, ()⟩, ⟨1, ()⟩, ⟨2, ()⟩, ⟨2, ()⟩], .pong (some 7) (some "new")].foldl
        (History.after ⟨(), fun _ _ => ()⟩) (.created ⟨(), fun _ _ => ()⟩ none none)
    retired history.state (some "old") = true ∧
      (reduceSyncRecovery ⟨(), fun _ _ => ()⟩ history.state (.event 1 (some "old") ())).lastSeq = 0 :=
  ⟨by decide, ((recovered_once _ none none _).2.2 (.event 1 (some "old") ()) (by decide)).2.1⟩

end AgentSaas.Proofs.SyncRecovery
