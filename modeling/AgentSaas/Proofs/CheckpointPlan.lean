import Mathlib.Algebra.Order.Ring.Int
import AgentSaas.Proofs.RawTail

/-! The adjusting loop of a checkpoint's plan ends at a cut whose tail budget is that of its
own fixed cost. -/

namespace AgentSaas.Proofs.CheckpointPlan
open AgentSaas.ContextCheckpoint AgentSaas.PlatformEvents AgentSaas.Proofs.RawTail

variable {events : List PlatformEvent} {estimates : Estimates} {input : ContextCheckpointPlanInput}

/-! A smaller budget never begins the tail earlier. -/

theorem walkBack_extends (events : List PlatformEvent) (estimate : List PlatformEvent → Int) (tools : ToolRanges) (budget : Int)
    (rounds position : Nat) (walk : Walk) :
    walk.acceptedStarts <+: walkBack estimate events tools budget rounds position walk := by
  induction rounds generalizing position walk with
  | zero => exact List.prefix_rfl
  | succ rounds ih =>
    cases position with
    | zero => exact List.prefix_rfl
    | succ cursor =>
      have further (unitStart : Nat) (tokens : Int) : walk.acceptedStarts <+:
          walkBack estimate events tools budget rounds unitStart ⟨walk.acceptedStarts ++ [unitStart], tokens⟩ :=
        (List.prefix_append _ _).trans (ih unitStart ⟨walk.acceptedStarts ++ [unitStart], tokens⟩)
      simp only [walkBack]
      split
      next => exact List.prefix_rfl
      split
      next => exact List.prefix_rfl
      split
      next => exact List.prefix_rfl
      split
      next => exact List.prefix_rfl
      next => exact further _ _

theorem walkBack_mono (estimate : List PlatformEvent → Int) (tools : ToolRanges) {low high : Int} (order : low ≤ high)
    (rounds position : Nat) (walk : Walk) :
    walkBack estimate events tools low rounds position walk <+: walkBack estimate events tools high rounds position walk := by
  induction rounds generalizing position walk with
  | zero => exact List.prefix_rfl
  | succ rounds ih =>
    cases position with
    | zero => exact List.prefix_rfl
    | succ cursor =>
      have further (unitStart : Nat) (tokens : Int) : walk.acceptedStarts <+:
          walkBack estimate events tools high rounds unitStart ⟨walk.acceptedStarts ++ [unitStart], tokens⟩ :=
        (List.prefix_append _ _).trans
          (walkBack_extends events estimate tools high rounds unitStart ⟨walk.acceptedStarts ++ [unitStart], tokens⟩)
      simp only [walkBack]
      cases events[cursor]? with
      | none => exact List.prefix_rfl
      | some event =>
        simp only
        split
        next => exact List.prefix_rfl
        split
        next => exact List.prefix_rfl
        split
        next =>
          split
          next => exact List.prefix_rfl
          next => exact further _ _
        next fits =>
          rw [if_neg (by omega)]
          exact ih _ _

theorem walkBack_descends (estimate : List PlatformEvent → Int) {tools : ToolRanges} (batched : Batched events tools)
    (budget : Int) (rounds position : Nat) (walk : Walk) (boundary : Boundary tools position)
    (descends : walk.acceptedStarts.Pairwise fun earlier later => later < earlier)
    (ahead : ∀ start ∈ walk.acceptedStarts, position ≤ start) :
    (walkBack estimate events tools budget rounds position walk).Pairwise fun earlier later => later < earlier := by
  induction rounds generalizing position walk with
  | zero => exact descends
  | succ rounds ih =>
    cases position with
    | zero => exact descends
    | succ cursor =>
      obtain ⟨kept, below⟩ := unitStartAt_boundary batched boundary
      simp only [walkBack]
      generalize unitStartAt events tools.ranges cursor = unitStart at kept below
      split
      next => exact descends
      split
      next => exact descends
      split
      next => exact descends
      split
      next => exact descends
      next =>
        apply ih unitStart _ kept
        · apply List.pairwise_append.mpr
          refine ⟨descends, List.pairwise_singleton _ _, ?_⟩
          intro start member last here
          rw [List.mem_singleton.mp here]
          have before := ahead start member
          omega
        · intro start member
          rcases List.mem_append.mp member with earlier | here
          · have before := ahead start earlier
            omega
          · rw [List.mem_singleton.mp here]

theorem shrink_mono (estimate : List PlatformEvent → Int) {low high : Int} (order : low ≤ high) {starts : List Nat}
    (ascends : starts.Pairwise fun earlier later => earlier < later) (inside : ∀ start ∈ starts, start < events.length) :
    (shrink estimate events high starts).startIndex ≤ (shrink estimate events low starts).startIndex := by
  induction starts with
  | nil => exact Nat.le_refl _
  | cons start rest ih =>
    obtain ⟨first, ascends⟩ := List.pairwise_cons.mp ascends
    have below : start ≤ (shrink estimate events low rest).startIndex := by
      rcases shrink_spec estimate events low rest with none | ⟨member, -⟩
      · rw [none]
        exact Nat.le_of_lt (inside start (List.mem_cons_self ..))
      · exact Nat.le_of_lt (first _ member)
    simp only [shrink]
    split
    next large =>
      rw [if_pos (by omega)]
      exact ih ascends fun other member => inside other (List.mem_cons_of_mem _ member)
    next =>
      split
      next => exact below
      next => exact Nat.le_refl _

theorem shrink_append (estimate : List PlatformEvent → Int) (budget : Int) {more starts : List Nat}
    (ascends : (more ++ starts).Pairwise fun earlier later => earlier < later)
    (inside : ∀ start ∈ more ++ starts, start < events.length) :
    (shrink estimate events budget (more ++ starts)).startIndex ≤ (shrink estimate events budget starts).startIndex := by
  induction more with
  | nil => exact Nat.le_refl _
  | cons start rest ih =>
    obtain ⟨first, ascends⟩ := List.pairwise_cons.mp ascends
    rw [List.cons_append, shrink]
    split
    next => exact ih ascends fun other member => inside other (List.mem_cons_of_mem _ member)
    next =>
      rcases shrink_spec estimate events budget starts with none | ⟨member, -⟩
      · rw [none]
        exact Nat.le_of_lt (inside start (List.mem_cons_self ..))
      · exact Nat.le_of_lt (first _ (List.mem_append_right _ member))

theorem selectAtomicRawTail_mono (estimate : List PlatformEvent → Int) (events : List PlatformEvent) {low high : Int}
    (order : low ≤ high) :
    (selectAtomicRawTail estimate events high).startIndex ≤ (selectAtomicRawTail estimate events low).startIndex := by
  have within : (selectAtomicRawTail estimate events high).startIndex ≤ events.length := by
    rcases selectAtomicRawTail_spec estimate events high with none | ⟨keepable, -⟩
    · rw [none]
    · exact Nat.le_of_lt keepable.inside
  by_cases small : events = [] ∨ low ≤ 0
  · rw [selectAtomicRawTail.eq_def estimate events low, if_pos small]
    exact within
  · have large : ¬(events = [] ∨ high ≤ 0) := by
      rw [not_or] at small ⊢
      exact ⟨small.1, by omega⟩
    simp only [selectAtomicRawTail, if_neg small, if_neg large]
    have batched := (buildAtomicToolRanges_atomic events).batched
    have start := boundary_length batched
    -- Both walks go the same way; the larger budget lets one of them go on.
    obtain ⟨more, longer⟩ := walkBack_mono estimate (buildAtomicToolRanges events) order events.length events.length ⟨[], 0⟩
    have accepted := walkBack_keepable estimate batched high events.length events.length ⟨[], 0⟩ (Nat.le_refl _) start
      (fun index after before => absurd before (Nat.not_lt.mpr after)) (by simp)
    have descends := walkBack_descends estimate batched high events.length events.length ⟨[], 0⟩ start .nil (by simp)
    rw [← longer] at accepted descends ⊢
    rw [List.reverse_append]
    have ascends := List.pairwise_reverse.mpr descends
    rw [List.reverse_append] at ascends
    have inside : ∀ start ∈ more.reverse ++ (walkBack estimate events (buildAtomicToolRanges events) low events.length
        events.length ⟨[], 0⟩).reverse, start < events.length := by
      intro start member
      rw [← List.reverse_append] at member
      exact (accepted start (List.mem_reverse.mp member)).inside
    apply Nat.le_trans (shrink_append estimate high ascends inside)
    apply shrink_mono estimate order (List.pairwise_append.mp ascends).2.1
    intro start member
    exact inside start (List.mem_append_right _ member)

theorem taskAnchorOf_id {sourceRunId : String} {event : PlatformEvent} {anchor : CheckpointTaskAnchor}
    (member : anchor ∈ taskAnchorOf sourceRunId event) : anchor.eventId = event.id := by
  rw [taskAnchorOf] at member
  split at member
  next =>
    split at member
    next => cases member
    next =>
      simp only at member
      split at member
      next => cases member
      next =>
        rw [List.mem_singleton.mp member]
  next => cases member

/-- With distinct ids, the anchors of a cut are those of the events before it. -/
theorem compressedTaskAnchors_eq (ids : (input.events.map (·.id)).Nodup) (cut : Nat) :
    compressedTaskAnchors input cut = extractCheckpointTaskAnchors (input.events.take cut) input.sourceRunId := by
  simp only [compressedTaskAnchors, extractCheckpointTaskAnchors]
  cases input.sourceRunId.filter (· ≠ "") with
  | none => rfl
  | some sourceRunId =>
    have parts : input.events = input.events.take cut ++ input.events.drop cut := (List.take_append_drop ..).symm
    have apart : ∀ event ∈ input.events.drop cut, event.id ∉ (input.events.take cut).map (·.id) := by
      intro event late early
      rw [parts, List.map_append, List.nodup_append] at ids
      exact ids.2.2 _ early _ (List.mem_map_of_mem late) rfl
    have before : ((input.events.take cut).flatMap (taskAnchorOf sourceRunId)).filter
        (·.eventId ∈ (input.events.take cut).map (·.id)) = (input.events.take cut).flatMap (taskAnchorOf sourceRunId) := by
      apply List.filter_eq_self.mpr
      intro anchor member
      obtain ⟨event, early, own⟩ := List.mem_flatMap.mp member
      rw [taskAnchorOf_id own, decide_eq_true_iff]
      exact List.mem_map_of_mem early
    have after : ((input.events.drop cut).flatMap (taskAnchorOf sourceRunId)).filter
        (·.eventId ∈ (input.events.take cut).map (·.id)) = [] := by
      apply List.filter_eq_nil_iff.mpr
      intro anchor member
      obtain ⟨event, late, own⟩ := List.mem_flatMap.mp member
      rw [taskAnchorOf_id own, decide_eq_true_iff]
      exact apart event late
    simp only
    conv =>
      lhs
      rw [parts, List.flatMap_append]
    rw [List.take_append_drop, List.filter_append, before, after, List.append_nil]

/-- Which messages are anchors does not depend on the cut, for those before it. -/
theorem trajectory_eq (input : ContextCheckpointPlanInput) (cut : Nat) :
    (input.events.take cut).flatMap (trajectoryOf ((compressedTaskAnchors input cut).map (·.eventId))) =
      (input.events.take cut).flatMap
        (trajectoryOf ((extractCheckpointTaskAnchors input.events input.sourceRunId).map (·.eventId))) := by
  apply List.flatMap_congr
  intro event early
  have same : event.id ∈ (compressedTaskAnchors input cut).map (·.eventId) ↔
      event.id ∈ (extractCheckpointTaskAnchors input.events input.sourceRunId).map (·.eventId) := by
    simp only [compressedTaskAnchors, List.mem_map, List.mem_filter, decide_eq_true_iff]
    constructor
    · rintro ⟨anchor, ⟨member, -⟩, own⟩
      exact ⟨anchor, member, own⟩
    · rintro ⟨anchor, member, own⟩
      exact ⟨anchor, ⟨member, event, early, own.symm⟩, own⟩
  simp only [trajectoryOf, same]

theorem take_extends {α : Type} (items : List α) {low high : Nat} (order : low ≤ high) :
    ∃ more, items.take high = items.take low ++ more := by
  obtain ⟨more, whole⟩ := List.take_prefix_take_left (l := items) order
  exact ⟨more, whole.symm⟩

theorem history_mono (ids : (input.events.map (·.id)).Nodup)
    (history : ∀ anchors more trajectory further,
      estimates.history anchors trajectory ≤ estimates.history (anchors ++ more) (trajectory ++ further))
    {low high : Nat} (order : low ≤ high) :
    estimates.history (compressedTaskAnchors input low)
        ((input.events.take low).flatMap (trajectoryOf ((compressedTaskAnchors input low).map (·.eventId)))) ≤
      estimates.history (compressedTaskAnchors input high)
        ((input.events.take high).flatMap (trajectoryOf ((compressedTaskAnchors input high).map (·.eventId)))) := by
  obtain ⟨more, longer⟩ := take_extends input.events order
  have anchors : ∃ rest, compressedTaskAnchors input high = compressedTaskAnchors input low ++ rest := by
    rw [compressedTaskAnchors_eq ids, compressedTaskAnchors_eq ids, longer]
    simp only [extractCheckpointTaskAnchors]
    cases input.sourceRunId.filter (· ≠ "") with
    | none => exact ⟨[], rfl⟩
    | some => exact ⟨_, List.flatMap_append⟩
  obtain ⟨rest, anchors⟩ := anchors
  rw [trajectory_eq, trajectory_eq, anchors, longer, List.flatMap_append]
  exact history _ _ _ _

theorem memory_mono (input : ContextCheckpointPlanInput) (text : ∀ memory : String, estimates.text "" ≤ estimates.text memory)
    {low high : Nat} (order : low ≤ high) :
    estimates.text ((memorySnapshotAt input low).getD "") ≤ estimates.text ((memorySnapshotAt input high).getD "") := by
  simp only [memorySnapshotAt]
  cases latestMemorySnapshot input.events with
  | none => exact Nat.le_refl _
  | some memory =>
    by_cases early : memory.index < low
    · have still : memory.index < high := by omega
      simp [Option.filter, early, still]
    · by_cases late : memory.index < high
      · simpa [Option.filter, early, late] using text memory.content
      · simp [Option.filter, early, late]

theorem fixedTokens_mono (input : ContextCheckpointPlanInput) (ids : (input.events.map (·.id)).Nodup)
    (history : ∀ anchors more trajectory further,
      estimates.history anchors trajectory ≤ estimates.history (anchors ++ more) (trajectory ++ further))
    (text : ∀ memory : String, estimates.text "" ≤ estimates.text memory)
    {low high : Nat} (order : low ≤ high) :
    (measure estimates input low).fixedTokens ≤ (measure estimates input high).fixedTokens := by
  have users := history_mono ids history order
  have memory := memory_mono input text order
  simp only [ContextCheckpoint.measure, checkpointProjectionFixedTokens, userHistoryTokenCapFor]
  generalize estimates.history (compressedTaskAnchors input low) _ = before at users ⊢
  generalize estimates.history (compressedTaskAnchors input high) _ = after at users ⊢
  generalize estimates.text ((memorySnapshotAt input low).getD "") = lowText at memory ⊢
  generalize estimates.text ((memorySnapshotAt input high).getD "") = highText at memory ⊢
  split <;> omega

/-- The tail is that of the budget, and the cut leaves no more than the budget. -/
structure Tight (estimates : Estimates) (input : ContextCheckpointPlanInput) (attempt : Attempt) : Prop where
  tail : attempt.rawTail = rawTailFor estimates input attempt.rawTailBudgetTokens
  room : nextBudget input (measure estimates input attempt.rawTail.startIndex).fixedTokens ≤ attempt.rawTailBudgetTokens

/-- The budget is the one that the cut leaves. -/
def Settled (estimates : Estimates) (input : ContextCheckpointPlanInput) (attempt : Attempt) : Prop :=
  nextBudget input (measure estimates input attempt.rawTail.startIndex).fixedTokens = attempt.rawTailBudgetTokens

theorem rawTailFor_le (estimates : Estimates) (input : ContextCheckpointPlanInput) (budget : Int) :
    (rawTailFor estimates input budget).startIndex ≤ input.events.length := by
  rcases selectAtomicRawTail_spec estimates.rawEvents input.events budget with none | ⟨keepable, -⟩
  · rw [rawTailFor, none]
  · exact Nat.le_of_lt keepable.inside

section Loop

variable (fixed : ∀ {low high : Nat}, low ≤ high →
  (measure estimates input low).fixedTokens ≤ (measure estimates input high).fixedTokens)

include fixed in
theorem nextBudget_antitone {low high : Nat} (order : low ≤ high) :
    nextBudget input (measure estimates input high).fixedTokens ≤ nextBudget input (measure estimates input low).fixedTokens := by
  have cost := fixed order
  unfold nextBudget
  omega

include fixed in
theorem tight_step {attempt : Attempt} (tight : Tight estimates input attempt) (measured : Measured) :
    let budget := min attempt.rawTailBudgetTokens
      (nextBudget input (measure estimates input attempt.rawTail.startIndex).fixedTokens)
    let next : Attempt := { attempt with measured, rawTailBudgetTokens := budget, rawTail := rawTailFor estimates input budget }
    Tight estimates input next ∧
      (attempt.rawTail.startIndex < next.rawTail.startIndex ∨ Settled estimates input next) := by
  intro budget next
  have room := tight.room
  have lower : budget = nextBudget input (measure estimates input attempt.rawTail.startIndex).fixedTokens :=
    Int.min_eq_right room
  have cut : attempt.rawTail.startIndex ≤ next.rawTail.startIndex := by
    rw [tight.tail]
    apply selectAtomicRawTail_mono
    exact Int.min_le_left ..
  refine ⟨⟨rfl, ?_⟩, ?_⟩
  · exact Int.le_trans (nextBudget_antitone fixed cut) (Int.le_of_eq lower.symm)
  · rcases Nat.lt_or_eq_of_le cut with moved | still
    · exact .inl moved
    · right
      change nextBudget input (measure estimates input next.rawTail.startIndex).fixedTokens = budget
      rw [← still, lower]

include fixed in
/-- With an attempt for every index after the cut and two more, or one when the budget is
settled, the loop ends with a stable budget. -/
theorem adjust_stable (attempts : Nat) (attempt : Attempt) (tight : Tight estimates input attempt)
    (enough : input.events.length - attempt.rawTail.startIndex + 2 ≤ attempts ∨
      Settled estimates input attempt ∧ 1 ≤ attempts) :
    let final := adjust estimates input attempts attempt
    final.stable = true ∧ Tight estimates input final ∧ Settled estimates input final ∧
      final.measured = measure estimates input final.rawTail.startIndex := by
  induction attempts generalizing attempt with
  | zero => omega
  | succ attempts ih =>
    simp only [adjust]
    split
    next settled => exact ⟨rfl, ⟨tight.tail, tight.room⟩, settled, rfl⟩
    next other =>
      have more : input.events.length - attempt.rawTail.startIndex + 2 ≤ attempts + 1 := by
        rcases enough with more | ⟨settled, -⟩
        · exact more
        · exact absurd settled other
      obtain ⟨tight, moved | settled⟩ :=
        tight_step fixed tight (measure estimates input attempt.rawTail.startIndex)
      · apply ih _ tight
        left
        have inside := rawTailFor_le estimates input (min attempt.rawTailBudgetTokens
          (nextBudget input (measure estimates input attempt.rawTail.startIndex).fixedTokens))
        simp only at moved ⊢
        omega
      · apply ih _ tight
        right
        exact ⟨settled, by omega⟩

end Loop

/-- With distinct event ids and an estimate of the history that does not fall when something
is appended, the loop ends because the budget is stable; the plan's tail budget is that of the fixed cost of
its own cut, the tail is within it, and the whole is within the target if the fixed cost
and the summary are. -/
theorem plan_fixpoint (estimates : Estimates) (input : ContextCheckpointPlanInput)
    (ids : (input.events.map (·.id)).Nodup)
    (history : ∀ anchors more trajectory further,
      estimates.history anchors trajectory ≤ estimates.history (anchors ++ more) (trajectory ++ further))
    (text : ∀ memory : String, estimates.text "" ≤ estimates.text memory) :
    let plan := planContextCheckpoint estimates input
    (adjusted estimates input).stable = true ∧
      plan.fixedTokens = (measure estimates input plan.rawTailStartIndex).fixedTokens ∧
      plan.rawTailBudgetTokens =
        min checkpointRawTailTokenCap (max 0 (plan.targetTokens - plan.fixedTokens - plan.summaryBudgetTokens)) ∧
      plan.rawTailObservedTokens ≤ plan.rawTailBudgetTokens ∧
      (plan.fixedTokens + plan.summaryBudgetTokens ≤ plan.targetTokens →
        plan.fixedTokens + plan.summaryBudgetTokens + plan.rawTailObservedTokens ≤ plan.targetTokens) := by
  intro plan
  have fixed {low high : Nat} (order : low ≤ high) := fixedTokens_mono input ids history text order
  have first : Tight estimates input (firstAttempt estimates input) := ⟨rfl, Int.min_le_left ..⟩
  obtain ⟨stable, tight, settled, measured⟩ :=
    adjust_stable fixed (input.events.length + 2) (firstAttempt estimates input) first (.inl (by omega))
  have own : plan.fixedTokens = (measure estimates input plan.rawTailStartIndex).fixedTokens :=
    congrArg Measured.fixedTokens measured
  have budget : plan.rawTailBudgetTokens =
      min checkpointRawTailTokenCap (max 0 (plan.targetTokens - plan.fixedTokens - plan.summaryBudgetTokens)) := by
    rw [own]
    exact settled.symm
  have observed : plan.rawTailObservedTokens ≤ max 0 plan.rawTailBudgetTokens := by
    have bound := (rawTail_atomic estimates.rawEvents input.events plan.rawTailBudgetTokens).2.2.2.2.2.2
    have same : (adjusted estimates input).rawTail = selectAtomicRawTail estimates.rawEvents input.events
      plan.rawTailBudgetTokens := tight.tail
    rwa [← same] at bound
  have within : plan.rawTailObservedTokens ≤ plan.rawTailBudgetTokens := by
    rw [budget] at observed ⊢
    simp only [checkpointRawTailTokenCap] at observed ⊢
    omega
  refine ⟨stable, own, budget, within, fun room => ?_⟩
  rw [budget] at within
  omega

def ask (id : String) : PlatformEvent := ⟨id, "t", some "run", .userMessage "go" none [] false⟩

def smallPlan : ContextCheckpointPlanInput where
  events := [⟨"a", "t", some "run", .assistantMessage "ready"⟩, ask "b", ask "c"]
  contextWindow := 1
  thresholdTokens := 550
  baseFixedTokens := none
  sourceRunId := some "run"
  adaptUserHistoryToTarget := none

def counting : Estimates where
  rawEvents events := 10 * events.length
  history anchors trajectory := anchors.length + trajectory.length
  text memory := utf16Length memory

theorem plan_fixpoint_small :
    let plan := planContextCheckpoint counting smallPlan
    (adjusted counting smallPlan).stable = true ∧
      plan.fixedTokens = (measure counting smallPlan plan.rawTailStartIndex).fixedTokens ∧
      plan.rawTailBudgetTokens =
        min checkpointRawTailTokenCap (max 0 (plan.targetTokens - plan.fixedTokens - plan.summaryBudgetTokens)) ∧
      plan.rawTailObservedTokens ≤ plan.rawTailBudgetTokens ∧
      (plan.fixedTokens + plan.summaryBudgetTokens ≤ plan.targetTokens →
        plan.fixedTokens + plan.summaryBudgetTokens + plan.rawTailObservedTokens ≤ plan.targetTokens) := by
  apply plan_fixpoint counting smallPlan
  · decide
  · intro anchors more trajectory further
    simp only [counting, List.length_append]
    omega
  · intro memory
    exact Nat.zero_le _

def repeatedId : ContextCheckpointPlanInput :=
  { smallPlan with
    events := [⟨"b", "t", some "run", .assistantMessage "ready"⟩, ask "a", ask "b"]
    thresholdTokens := 2542 }

def firstIsB : Estimates where
  rawEvents events := (events.map fun event => if event.body = .assistantMessage "ready" then 100000 else 10).sum
  history anchors _ := if anchors.head?.map (·.eventId) = some "b" then 1000 else 0
  text _ := 0

theorem firstIsB_mono (anchors more : List CheckpointTaskAnchor) (trajectory further : List UserTrajectoryItem) :
    firstIsB.history anchors trajectory ≤ firstIsB.history (anchors ++ more) (trajectory ++ further) := by
  cases anchors with
  | nil => exact Nat.zero_le _
  | cons anchor rest => exact Nat.le_refl _

/-- An anchor before the others is not appended: the estimate can fall then, and the attempts
run out. -/
theorem repeatedId_runs_out :
    ¬∀ (estimates : Estimates) (input : ContextCheckpointPlanInput),
      (∀ events more, 0 ≤ estimates.rawEvents events ∧ estimates.rawEvents events ≤ estimates.rawEvents (events ++ more)) →
      (∀ anchors more trajectory further,
        estimates.history anchors trajectory ≤ estimates.history (anchors ++ more) (trajectory ++ further)) →
      (∀ memory : String, estimates.text "" ≤ estimates.text memory) →
      (adjusted estimates input).stable = true := by
  intro claim
  have raw (events more : List PlatformEvent) :
      0 ≤ firstIsB.rawEvents events ∧ firstIsB.rawEvents events ≤ firstIsB.rawEvents (events ++ more) := by
    have sum (events : List PlatformEvent) : 0 ≤ firstIsB.rawEvents events := by
      induction events with
      | nil => exact Int.le_refl 0
      | cons event rest ih =>
        simp only [firstIsB, List.map_cons, List.sum_cons] at ih ⊢
        split <;> omega
    refine ⟨sum events, ?_⟩
    have rest := sum more
    simp only [firstIsB, List.map_append, List.sum_append] at rest ⊢
    omega
  have stable := claim firstIsB repeatedId raw firstIsB_mono fun _ => Nat.le_refl _
  have runs_out : (adjusted firstIsB repeatedId).stable = false := by decide +kernel
  rw [runs_out] at stable
  cases stable

end AgentSaas.Proofs.CheckpointPlan
