import AgentSaas.Proofs.EditOperations

/-! Edits of a file commute: each is matched against the file as it was, and what they replace is
put in order before it is replaced. -/

namespace AgentSaas.Proofs.EditOrder
open AgentSaas.EditOperations AgentSaas.Outcomes AgentSaas.Sorting AgentSaas.ToolCallRepair EditOperations EditViews

def bare (replacement : PlannedReplacement) : PlannedReplacement := { replacement with editIndex := 0 }

def bared (plan : Plan) : Plan := { plan with replacements := plan.replacements.map bare }

def join (plan added : Plan) : Plan :=
  ⟨plan.replacements ++ added.replacements, plan.occurrences + added.occurrences, plan.fuzzyMatches + added.fuzzyMatches⟩

/-- Plans joined one after another, as long as there are not too many replacements. -/
def total : Plan → List (Option Plan) → Option Plan
  | plan, [] => some plan
  | _, none :: _ => none
  | plan, some added :: rest =>
    if plan.replacements.length + added.replacements.length > MAX_EDIT_REPLACEMENTS then none else total (join plan added) rest

structure Rearranged (plan other : Plan) : Prop where
  replacements : plan.replacements.Perm other.replacements
  occurrences : plan.occurrences = other.occurrences
  fuzzyMatches : plan.fuzzyMatches = other.fuzzyMatches

theorem Rearranged.refl (plan : Plan) : Rearranged plan plan := ⟨.refl _, rfl, rfl⟩

theorem Rearranged.trans {first second third : Plan} (left : Rearranged first second) (right : Rearranged second third) :
    Rearranged first third :=
  ⟨left.replacements.trans right.replacements, left.occurrences.trans right.occurrences, left.fuzzyMatches.trans right.fuzzyMatches⟩

theorem Rearranged.join {plan other : Plan} (same : Rearranged plan other) (added : Plan) :
    Rearranged (join plan added) (join other added) :=
  ⟨same.replacements.append_right _, congrArg (· + added.occurrences) same.occurrences,
    congrArg (· + added.fuzzyMatches) same.fuzzyMatches⟩

theorem total_same (shares : List (Option Plan)) {plan other : Plan} (same : Rearranged plan other) :
    Option.Rel Rearranged (total plan shares) (total other shares) := by
  induction shares generalizing plan other with
  | nil => exact .some same
  | cons share rest ih =>
    cases share with
    | none => exact .none
    | some added =>
      rw [total, total, same.replacements.length_eq]
      split
      · exact .none
      · exact ih (same.join added)

theorem total_two (plan first second : Plan) (rest : List (Option Plan)) : total plan (some first :: some second :: rest) =
    if plan.replacements.length + first.replacements.length + second.replacements.length > MAX_EDIT_REPLACEMENTS then none
    else total (join (join plan first) second) rest := by
  rw [total, total, join, List.length_append]
  by_cases many : plan.replacements.length + first.replacements.length > MAX_EDIT_REPLACEMENTS
  · rw [if_pos many]
    exact (if_pos (by omega)).symm
  · rw [if_neg many]

theorem total_swap (first second : Option Plan) (rest : List (Option Plan)) (plan : Plan) :
    Option.Rel Rearranged (total plan (first :: second :: rest)) (total plan (second :: first :: rest)) := by
  cases first with
  | none =>
    cases second with
    | none => exact .none
    | some second =>
      rw [total, total]
      split
      · exact .none
      · exact .none
  | some first =>
    cases second with
    | none =>
      rw [total, total]
      split
      · exact .none
      · exact .none
    | some second =>
      rw [total_two, total_two, Nat.add_right_comm]
      split
      · exact .none
      · refine total_same rest ⟨?_, Nat.add_right_comm .., Nat.add_right_comm ..⟩
        rw [join, join, join, join, List.append_assoc, List.append_assoc]
        exact List.perm_append_comm.append_left _

theorem total_perm {shares others : List (Option Plan)} (perm : shares.Perm others) (plan : Plan) :
    Option.Rel Rearranged (total plan shares) (total plan others) := by
  induction perm generalizing plan with
  | nil => exact .some (.refl plan)
  | cons share perm ih =>
    cases share with
    | none => exact .none
    | some added =>
      rw [total, total]
      split
      · exact .none
      · exact ih _
  | swap first second rest => exact total_swap second first rest plan
  | trans _ _ left right =>
    have first := left plan
    have second := right plan
    revert first second
    generalize total plan _ = one
    generalize total plan _ = two
    generalize total plan _ = three
    intro first second
    cases first with
    | none => exact second
    | some first =>
      cases second with
      | some second => exact .some (first.trans second)

/-! What an operation plans does not depend on those before it. -/

section Planning

variable {unicode : Unicode} {target : Target}

def matched (unicode : Unicode) (target : Target) (operation : EditOperation) : Option (MatchMode × List TextRange) :=
  if (oldTextOf operation).isEmpty then none
  else if oldTextOf operation = newTextOf target operation then none
  else do
    let (matchMode, found) ← (matchRanges unicode target (oldTextOf operation)).toOption
    let viewRanges := allowedRanges target operation found
    if viewRanges.isEmpty || !operation.replace_all && viewRanges.length > 1 then none else some (matchMode, viewRanges)

def share (unicode : Unicode) (target : Target) (operation : EditOperation) : Option Plan :=
  (matched unicode target operation).map fun (matchMode, viewRanges) =>
    let selected := mapViewRanges target.lineEndingView (if operation.replace_all then viewRanges else viewRanges.take 1)
    ⟨selected.map fun range => ⟨0, range.start, range.stop, replacementText target operation range.start, matchMode⟩, viewRanges.length,
      if matchMode = .fuzzy then selected.length else 0⟩

theorem planOperation_matched (operation : EditOperation) (editIndex : Nat) (plan : Plan) :
    (planOperation unicode target operation editIndex plan).toOption = (matched unicode target operation).bind fun (matchMode, viewRanges) =>
      (addReplacements target operation editIndex plan matchMode viewRanges).toOption := by
  unfold planOperation matched
  split
  · rfl
  split
  · rfl
  cases matchRanges unicode target (oldTextOf operation) with
  | error => rfl
  | ok pair =>
    obtain ⟨matchMode, found⟩ := pair
    simp only [bind, Except.bind, Except.toOption, Option.bind]
    by_cases none : (allowedRanges target operation found).isEmpty = true
    · rw [if_pos none, none]
      rfl
    · rw [if_neg none, Bool.eq_false_iff.mpr none, Bool.false_or]
      by_cases many : (!operation.replace_all && decide ((allowedRanges target operation found).length > 1)) = true
      · rw [if_pos many, if_pos many]
        rfl
      · rw [if_neg many, if_neg many]

theorem planOperation_share (operation : EditOperation) (editIndex : Nat) (plan : Plan) :
    (planOperation unicode target operation editIndex plan).toOption.map bared = total (bared plan) [share unicode target operation] := by
  rw [planOperation_matched, share]
  cases matched unicode target operation with
  | none => rfl
  | some pair =>
    obtain ⟨matchMode, viewRanges⟩ := pair
    simp only [Option.bind, Option.map, total, addReplacements, bared, List.length_map]
    generalize mapViewRanges target.lineEndingView (if operation.replace_all then viewRanges else viewRanges.take 1) = selected
    by_cases many : plan.replacements.length + selected.length > MAX_EDIT_REPLACEMENTS
    · rw [if_pos many, if_pos many]
      rfl
    · rw [if_neg many, if_neg many]
      simp only [pure, Except.pure, Except.toOption, join, List.map_append, List.map_map]
      rfl

theorem planOperations_total (operations : List EditOperation) (editIndex : Nat) (plan : Plan) :
    (planOperations unicode target operations editIndex plan).toOption.map bared =
      total (bared plan) (operations.map (share unicode target)) := by
  induction operations generalizing editIndex plan with
  | nil => rfl
  | cons operation rest ih =>
    have first : (planOperation unicode target operation editIndex plan).toOption.map bared = _ := planOperation_share ..
    rw [planOperations, List.map_cons]
    cases planned : planOperation unicode target operation editIndex plan with
    | error error =>
      rw [planned] at first
      cases alone : share unicode target operation with
      | none => rfl
      | some added =>
        rw [alone, total] at first
        split at first
        next many => exact (if_pos many).symm
        next => cases first
    | ok next =>
      rw [planned] at first
      cases alone : share unicode target operation with
      | none =>
        rw [alone] at first
        cases first
      | some added =>
        rw [alone, total] at first
        split at first
        next => cases first
        next few =>
          rw [total, if_neg few, ← Option.some.inj first]
          exact ih (editIndex + 1) next

end Planning

/-! Where the replacements do not overlap, they have one order. -/

section Order

variable {path : String} {planned : List PlannedReplacement}

theorem checkOverlaps_ok_iff (filled : ∀ replacement ∈ planned, replacement.start < replacement.stop) :
    checkOverlaps path planned = .ok () ↔ planned.Pairwise (·.stop ≤ ·.start) := by
  induction planned with
  | nil => exact ⟨fun _ => .nil, fun _ => rfl⟩
  | cons previous rest ih =>
    have later := ih fun replacement member => filled replacement (.tail _ member)
    cases rest with
    | nil => exact ⟨fun _ => List.pairwise_singleton .., fun _ => rfl⟩
    | cons current others =>
      rw [checkOverlaps]
      constructor
      · intro checked
        split at checked
        · cases checked
        next apart =>
          have sorted := later.mp checked
          refine .cons (fun replacement member => ?_) sorted
          have own := filled current (.tail _ (.head _))
          obtain rfl | after := List.mem_cons.mp member
          · omega
          · have behind := List.rel_of_pairwise_cons sorted after
            omega
      · intro sorted
        have first := List.rel_of_pairwise_cons sorted List.mem_cons_self
        rw [if_neg (by omega)]
        exact later.mpr sorted.of_cons

theorem start_le_of_byPosition {left right : PlannedReplacement} (le : byPosition.le left right) : left.start ≤ right.start := by
  unfold Comparator.le byPosition at le
  simp only at le
  split at le
  · omega
  · omega

theorem sorted_same {left right : List PlannedReplacement} (perm : (left.map bare).Perm (right.map bare))
    (filled : ∀ replacement ∈ left, replacement.start < replacement.stop) (checked : checkOverlaps path (byPosition.sort left) = .ok ()) :
    (byPosition.sort right).map bare = (byPosition.sort left).map bare ∧ checkOverlaps path (byPosition.sort right) = .ok () := by
  have inside : ∀ replacement ∈ byPosition.sort left, replacement.start < replacement.stop :=
    fun replacement member => filled replacement (byPosition.mem_sort.mp member)
  have apart := (checkOverlaps_ok_iff inside).mp checked
  have strict : (byPosition.sort left).Pairwise (·.start < ·.start) :=
    apart.imp_of_mem fun first _ le => Nat.lt_of_lt_of_le (inside _ first) le
  have both : ((byPosition.sort left).map bare).Perm ((byPosition.sort right).map bare) :=
    ((List.perm_insertionSort ..).map bare).trans (perm.trans ((List.perm_insertionSort ..).map bare).symm)
  have distinct : ((byPosition.sort right).map (·.start)).Nodup := by
    have starts := both.map PlannedReplacement.start
    rw [List.map_map, List.map_map] at starts
    refine starts.nodup_iff.mp ?_
    exact List.pairwise_map.mpr (strict.imp fun less => Nat.ne_of_lt less)
  have strict' : (byPosition.sort right).Pairwise (·.start < ·.start) :=
    (List.pairwise_map.mp distinct).imp₂ (fun _ _ apart le => Nat.lt_of_le_of_ne (start_le_of_byPosition le) apart) (byPosition.pairwise_sort right)
  have one : ((byPosition.sort right).map bare).Pairwise (·.start < ·.start) := List.pairwise_map.mpr strict'
  have two : ((byPosition.sort left).map bare).Pairwise (·.start < ·.start) := List.pairwise_map.mpr strict
  have same := both.symm.eq_of_pairwise (fun _ _ _ _ less more => absurd less (Nat.lt_asymm more)) one two
  refine ⟨same, (checkOverlaps_ok_iff fun replacement member => ?_).mpr ?_⟩
  · have listed : bare replacement ∈ (byPosition.sort left).map bare := same ▸ List.mem_map_of_mem member
    obtain ⟨other, first, equal⟩ := List.mem_map.mp listed
    have start : (bare other).start = (bare replacement).start := congrArg PlannedReplacement.start equal
    have stop : (bare other).stop = (bare replacement).stop := congrArg PlannedReplacement.stop equal
    exact start ▸ stop ▸ inside other first
  · have moved : ((byPosition.sort right).map bare).Pairwise (·.stop ≤ ·.start) := same ▸ List.pairwise_map.mpr apart
    exact List.pairwise_map.mp moved

end Order

section Edits

variable {unicode : Unicode} {content : Text} {operations others : List EditOperation} {path : String}

theorem ok_of_toOption {ε α : Type} {outcome : Except ε α} {value : α} (same : outcome.toOption = some value) : outcome = .ok value := by
  cases outcome with
  | error => cases same
  | ok => exact congrArg Except.ok (Option.some.inj same)

theorem planReplacements_perm {lineEnding : LineEnding} {hasBom : Bool} {plan : Plan} (perm : operations.Perm others)
    (planned : planReplacements unicode content operations path lineEnding hasBom = .ok plan) :
    ∃ other, planReplacements unicode content others path lineEnding hasBom = .ok other ∧ bared other = bared plan := by
  have justified := (planReplacements_planned planned).justified
  obtain ⟨unsorted, collected, planned⟩ := of_ok_bind planned
  obtain ⟨_, checked, same⟩ := of_ok_bind planned
  cases same
  have target : targetOf unicode content others path lineEnding hasBom = targetOf unicode content operations path lineEnding hasBom := by
    rw [targetOf, targetOf, perm.length_eq]
  have each (list : List EditOperation) : (planOperations unicode (targetOf unicode content operations path lineEnding hasBom) list 0
      ⟨[], 0, 0⟩).toOption.map bared = _ := planOperations_total ..
  have first := each operations
  have second := each others
  have same := total_perm (perm.map (share unicode (targetOf unicode content operations path lineEnding hasBom))) (bared ⟨[], 0, 0⟩)
  rw [collected] at first
  rw [← first] at same
  generalize total _ (others.map _) = outcome at same second
  cases same with
  | @some _ other rearranged =>
    obtain ⟨after, gathered, rfl⟩ := Option.map_eq_some_iff.mp second
    have filled : ∀ replacement ∈ unsorted.replacements, replacement.start < replacement.stop := by
      intro replacement member
      obtain ⟨_, _, own⟩ := justified replacement (byPosition.mem_sort.mpr member)
      exact own.filled
    obtain ⟨sorted, apart⟩ := sorted_same rearranged.replacements filled checked
    refine ⟨{ after with replacements := byPosition.sort after.replacements }, ?_, ?_⟩
    · rw [planReplacements, target, ok_of_toOption gathered]
      change (checkOverlaps path (byPosition.sort after.replacements) >>= fun _ => _) = _
      rw [apart]
      rfl
    · rw [bared, bared, sorted]
      exact congrArg₂ (Plan.mk _) rearranged.occurrences.symm rearranged.fuzzyMatches.symm

theorem applyFrom_bare (cursor : Nat) (replacements : List PlannedReplacement) :
    applyFrom content cursor (replacements.map bare) = applyFrom content cursor replacements := by
  induction replacements generalizing cursor with
  | nil => rfl
  | cons replacement rest ih => exact congrArg (slice content cursor replacement.start ++ replacement.newText ++ ·) (ih replacement.stop)

theorem applied_perm {applied : AppliedWorkspaceEdits} (perm : operations.Perm others)
    (returned : applyWorkspaceEdits unicode content operations path = .ok applied) :
    applyWorkspaceEdits unicode content others path = .ok applied := by
  unfold applyWorkspaceEdits at returned ⊢
  generalize stripBom content = parts at returned ⊢
  obtain ⟨bom, text⟩ := parts
  split at returned
  · cases returned
  next filled =>
    obtain ⟨plan, planned, returned⟩ := of_ok_bind returned
    obtain ⟨other, replanned, same⟩ := planReplacements_perm perm planned
    have replacements : other.replacements.map bare = plan.replacements.map bare := congrArg Plan.replacements same
    have occurrences : (bared other).occurrences = (bared plan).occurrences := congrArg Plan.occurrences same
    have fuzzyMatches : (bared other).fuzzyMatches = (bared plan).fuzzyMatches := congrArg Plan.fuzzyMatches same
    have updated : applyPlannedReplacements text other.replacements = applyPlannedReplacements text plan.replacements := by
      rw [applyPlannedReplacements, applyPlannedReplacements, ← applyFrom_bare, replacements, applyFrom_bare]
    have count : other.replacements.length = plan.replacements.length := by
      rw [← List.length_map bare, replacements, List.length_map]
    rw [List.isEmpty_iff, ← List.length_eq_zero_iff, perm.length_eq, List.length_eq_zero_iff, ← List.isEmpty_iff] at filled
    rw [if_neg filled]
    dsimp only [bared] at occurrences fuzzyMatches
    simp only [replanned, bind, Except.bind, updated, count, occurrences, fuzzyMatches, ← perm.length_eq]
    exact returned

/-- Edits in any order fail, or have the same result. -/
theorem edits_commute (perm : operations.Perm others) : (applyWorkspaceEdits unicode content operations path).toOption =
    (applyWorkspaceEdits unicode content others path).toOption := by
  cases first : applyWorkspaceEdits unicode content operations path with
  | ok applied => rw [applied_perm perm first]
  | error =>
    cases second : applyWorkspaceEdits unicode content others path with
    | ok applied =>
      rw [applied_perm perm.symm second] at first
      cases first
    | error => rfl

theorem edits_commute_sample : (applyWorkspaceEdits acute sampleContent sampleEdits "f").toOption =
    (applyWorkspaceEdits acute sampleContent sampleEdits.reverse "f").toOption := edits_commute (List.reverse_perm sampleEdits).symm

end Edits

end AgentSaas.Proofs.EditOrder
