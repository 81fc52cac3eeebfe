import Mathlib.Data.List.Sort

/-! The client's event cursor. Live frames, batch responses and server restarts
meet in one reducer, which applies an event only when it is the next one. -/

namespace AgentSaas.SyncRecovery

inductive SyncRecoveryPhase where
  | idle | syncing | ready | fullRefresh
  deriving DecidableEq, Repr

inductive SyncReason where
  | pong | gap | epochChange | incompleteSync
  deriving DecidableEq, Repr

structure SyncRequest where
  id : Nat
  lastSeq : Int
  epoch : Option String
  reason : SyncReason
  deriving DecidableEq, Repr

/-- The source's `reason` is the constant `overflow`. -/
structure FullRefreshRequired where
  authoritativeSeq : Int
  epoch : Option String
  deriving DecidableEq, Repr

structure AppliedSyncEvent (ω : Type) where
  seq : Int
  event : ω
  deriving DecidableEq, Repr

/-- The queue, runtime, interaction and session views built from the events, and
how `projectEvent` moves them. The cursor never reads them. -/
structure Projections (ω π : Type) where
  empty : π
  projectEvent : π → ω → π

structure SyncRecoveryState (ω π : Type) where
  lastSeq : Int
  serverEpoch : Option String
  phase : SyncRecoveryPhase
  fullRefresh : Option FullRefreshRequired
  syncRequest : Option SyncRequest
  nextSyncRequestId : Nat
  retiredEpochs : List String
  projections : π
  appliedEvents : List (AppliedSyncEvent ω)

inductive SyncRecoveryAction (ω : Type) where
  | event (seq : Int) (epoch : Option String) (event : ω)
  | pong (seq : Option Int) (epoch : Option String)
  | syncOk (seq : Int) (epoch : Option String) (events : List (AppliedSyncEvent ω))
  | syncOverflow (seq : Int) (epoch : Option String)
  | fullRefreshComplete
  | reset (lastSeq : Option Int) (serverEpoch : Option String)

def SyncRecoveryAction.epoch : SyncRecoveryAction ω → Option String
  | .event _ epoch _ | .pong _ epoch | .syncOk _ epoch _ | .syncOverflow _ epoch => epoch
  | .fullRefreshComplete | .reset _ _ => none

def truthy (text : Option String) : Option String := text.filter (· ≠ "")

section Reducer
variable {ω π : Type} (views : Projections ω π)

def createSyncRecoveryState (lastSeq : Option Int) (serverEpoch : Option String) : SyncRecoveryState ω π where
  lastSeq := max 0 (lastSeq.getD 0)
  serverEpoch
  phase := .idle
  fullRefresh := none
  syncRequest := none
  nextSyncRequestId := 1
  retiredEpochs := []
  projections := views.empty
  appliedEvents := []

def withoutApplied (state : SyncRecoveryState ω π) : SyncRecoveryState ω π :=
  { state with appliedEvents := [] }

def clearedProjections (state : SyncRecoveryState ω π) : SyncRecoveryState ω π :=
  { state with projections := views.empty, appliedEvents := [] }

def requestSync (state : SyncRecoveryState ω π) (reason : SyncReason) : SyncRecoveryState ω π :=
  if state.phase = .fullRefresh then state
  else
    let outstanding := state.syncRequest.any fun request =>
      request.lastSeq == state.lastSeq && request.epoch == state.serverEpoch
    if outstanding then { state with phase := .syncing }
    else
      { state with
        phase := .syncing
        syncRequest := some ⟨state.nextSyncRequestId, state.lastSeq, state.serverEpoch, reason⟩
        nextSyncRequestId := state.nextSyncRequestId + 1 }

structure EpochAdoption (ω π : Type) where
  state : SyncRecoveryState ω π
  oldServer : Bool
  changed : Bool

def adoptEpoch (state : SyncRecoveryState ω π) (epoch : Option String) : EpochAdoption ω π :=
  match truthy epoch with
  | none => ⟨state, false, false⟩
  | some epoch =>
    if some epoch = state.serverEpoch then ⟨state, false, false⟩
    else if epoch ∈ state.retiredEpochs then ⟨state, true, false⟩
    else
      let retiredEpochs := (truthy state.serverEpoch).toList ++ state.retiredEpochs
      let next := clearedProjections views
        { state with
          lastSeq := 0, serverEpoch := some epoch, retiredEpochs, fullRefresh := none, syncRequest := none }
      ⟨next, false, true⟩

def projectEvent (state : SyncRecoveryState ω π) (applied : AppliedSyncEvent ω) : SyncRecoveryState ω π :=
  { state with
    projections := views.projectEvent state.projections applied.event
    appliedEvents := state.appliedEvents ++ [applied] }

/-- The loop of `applyContiguous`: skip what is already applied, stop at a gap. -/
def applySorted (state : SyncRecoveryState ω π) : List (AppliedSyncEvent ω) → SyncRecoveryState ω π
  | [] => state
  | candidate :: rest =>
    if candidate.seq ≤ state.lastSeq then applySorted state rest
    else if candidate.seq ≠ state.lastSeq + 1 then state
    else applySorted { projectEvent views state candidate with lastSeq := candidate.seq } rest

def applyContiguous (state : SyncRecoveryState ω π) (events : List (AppliedSyncEvent ω)) :
    SyncRecoveryState ω π :=
  applySorted views state (events.insertionSort fun left right => left.seq ≤ right.seq)

def reducePong (state : SyncRecoveryState ω π) (changed : Bool) (seq : Option Int) : SyncRecoveryState ω π :=
  if changed then requestSync state .epochChange
  else if seq.any (· > state.lastSeq) then requestSync state .pong
  else state

def reduceOverflow (state : SyncRecoveryState ω π) (seq : Int) : SyncRecoveryState ω π :=
  clearedProjections views
    { state with
      lastSeq := max 0 seq
      phase := .fullRefresh
      syncRequest := none
      fullRefresh := some ⟨max 0 seq, truthy state.serverEpoch⟩ }

def reduceEvent (state : SyncRecoveryState ω π) (changed : Bool) (seq : Int) (event : ω) :
    SyncRecoveryState ω π :=
  if seq ≤ state.lastSeq then state
  else if seq ≠ state.lastSeq + 1 then requestSync state (if changed then .epochChange else .gap)
  else
    let next := applyContiguous views state [⟨seq, event⟩]
    { next with
      phase := if state.phase = .syncing then .syncing else .ready
      syncRequest := if state.phase = .syncing then state.syncRequest else none }

def reduceBatch (state : SyncRecoveryState ω π) (changed : Bool) (seq : Int)
    (events : List (AppliedSyncEvent ω)) : SyncRecoveryState ω π :=
  if state.phase = .idle ∧ state.lastSeq = 0 ∧ events.isEmpty then
    { state with lastSeq := max 0 seq, phase := .ready, syncRequest := none, fullRefresh := none }
  else
    let next := applyContiguous views state events
    if next.lastSeq = seq then { next with phase := .ready, syncRequest := none, fullRefresh := none }
    else if next.lastSeq > state.lastSeq then requestSync next .incompleteSync
    else requestSync next (if changed then .epochChange else .gap)

def reduceSyncRecovery (inputState : SyncRecoveryState ω π) (action : SyncRecoveryAction ω) :
    SyncRecoveryState ω π :=
  match action with
  | .reset lastSeq serverEpoch => createSyncRecoveryState views lastSeq serverEpoch
  | .fullRefreshComplete =>
    if inputState.phase ≠ .fullRefresh then withoutApplied inputState
    else { inputState with phase := .ready, fullRefresh := none, syncRequest := none, appliedEvents := [] }
  | action =>
    let epoch := adoptEpoch views (withoutApplied inputState) action.epoch
    if epoch.oldServer then epoch.state
    else
      match action with
      | .pong seq _ => reducePong epoch.state epoch.changed seq
      | .syncOverflow seq _ => reduceOverflow views epoch.state seq
      | .event seq _ event => reduceEvent views epoch.state epoch.changed seq event
      | .syncOk seq _ events => reduceBatch views epoch.state epoch.changed seq events
      | _ => epoch.state

end Reducer

/-! What the reducer is for: one uninterrupted numbering since the last change of
baseline. The history below only watches the reducer. -/

section History
variable {ω π : Type} (views : Projections ω π)

def adopts (state : SyncRecoveryState ω π) (epoch : Option String) : Bool :=
  (truthy epoch).any fun epoch => some epoch != state.serverEpoch && epoch ∉ state.retiredEpochs

def retired (state : SyncRecoveryState ω π) (epoch : Option String) : Bool :=
  epoch.any fun epoch => epoch ∈ state.retiredEpochs

/-- The four baseline changes, each with the cursor right after it. -/
def baselineChange (state : SyncRecoveryState ω π) (action : SyncRecoveryAction ω) : Option Int :=
  match action with
  | .reset lastSeq _ => some (max 0 (lastSeq.getD 0))
  | .fullRefreshComplete => none
  | .syncOverflow seq epoch => if retired state epoch then none else some (max 0 seq)
  | .syncOk seq epoch events =>
    if retired state epoch then none
    else if state.phase = .idle ∧ (adopts state epoch ∨ state.lastSeq = 0) ∧ events.isEmpty then some (max 0 seq)
    else if adopts state epoch then some 0
    else none
  | .event _ epoch _ | .pong _ epoch => if adopts state epoch then some 0 else none

/-- The cursor with everything applied since its last baseline. -/
structure History (ω π : Type) where
  state : SyncRecoveryState ω π
  baseline : Int
  applied : List (AppliedSyncEvent ω)

def History.created (lastSeq : Option Int) (serverEpoch : Option String) : History ω π :=
  let state := createSyncRecoveryState views lastSeq serverEpoch
  ⟨state, state.lastSeq, []⟩

def History.after (history : History ω π) (action : SyncRecoveryAction ω) : History ω π :=
  let state := reduceSyncRecovery views history.state action
  match baselineChange history.state action with
  | some baseline => ⟨state, baseline, state.appliedEvents⟩
  | none => ⟨state, history.baseline, history.applied ++ state.appliedEvents⟩

/-- `baseline + 1, baseline + 2, ...` -/
def numbersAfter (baseline : Int) (count : Nat) : List Int :=
  (List.range count).map fun index : Nat => baseline + index + 1

end History

end AgentSaas.SyncRecovery
