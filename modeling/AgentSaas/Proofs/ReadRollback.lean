import AgentSaas.Proofs.SessionMetadata

/-! What a failed read puts back besides the unread flags. -/

namespace AgentSaas.Proofs.ReadRollback
open AgentSaas.SessionMetadata AgentSaas.Dictionaries AgentSaas.Sorting

variable {dateParse : String → Option Int} {localeCompare : Comparator String} {state : SessionMetadataState} {id : String}

def apartFromRead (session : CanonicalSessionMetadata) : CanonicalSessionMetadata :=
  { session with hasUnread := false, hasUnreadAiReply := false }

/-- What may happen while the server has not answered. -/
def IsUpdate : SessionMetadataAction → Prop
  | .metadata _ | .hydrate .. => True
  | _ => False

/-- The session as the updates left it is ahead of the one that the read kept, or has its other fields. -/
def Unharmed (kept current : SessionMetadataState) (id : String) : Prop :=
  ∀ snapshot, kept.pendingRead.get id = some snapshot → advanced snapshot (current.byId.get id) = true ∨
    (current.byId.get id).map apartFromRead = some (apartFromRead snapshot)

theorem update_pending {action : SessionMetadataAction} (update : IsUpdate action) :
    (reduceSessionMetadata dateParse localeCompare state action).pendingRead = state.pendingRead := by
  cases action with
  | metadata patch => exact (SessionMetadata.applyPatch_fields dateParse localeCompare state patch).2.1
  | hydrate sessions authoritative =>
    obtain ⟨-, pendingRead, -⟩ := SessionMetadata.applyPatches_fields dateParse localeCompare state sessions
    simp only [reduceSessionMetadata, hydrate, dropUnlisted]
    split
    next => split <;> exact pendingRead
    next => exact pendingRead
  | _ => exact update.elim

theorem updates_pending {actions : List SessionMetadataAction} (updates : ∀ action ∈ actions, IsUpdate action) :
    (actions.foldl (reduceSessionMetadata dateParse localeCompare) state).pendingRead = state.pendingRead := by
  induction actions generalizing state with
  | nil => rfl
  | cons action rest ih =>
    calc ((action :: rest).foldl (reduceSessionMetadata dateParse localeCompare) state).pendingRead
        = (reduceSessionMetadata dateParse localeCompare state action).pendingRead :=
          ih fun other member => updates other (List.mem_cons_of_mem _ member)
      _ = state.pendingRead := update_pending (updates action (List.mem_cons_self ..))

theorem readFailed_iff : ((readFailed state id).byId.get id).map apartFromRead = (state.byId.get id).map apartFromRead ↔
    Unharmed state state id := by
  unfold readFailed Unharmed
  cases state.pendingRead.get id with
  | none => simp
  | some snapshot =>
    dsimp only
    split
    next ahead => exact iff_of_true rfl fun _ found => .inl (Option.some.inj found ▸ ahead)
    next behind =>
      rw [Dictionary.get_set_self, Option.map_some]
      constructor
      · rintro same _ ⟨⟩
        exact .inr same.symm
      · intro unharmed
        exact ((unharmed snapshot rfl).resolve_left behind).symm

/-- Whatever is patched and hydrated between a read and its failure: the failure leaves the session's
other fields alone exactly when they are those of the kept session, or the session is ahead of it. -/
theorem read_failure_keeps (dateParse : String → Option Int) (localeCompare : Comparator String)
    (state : SessionMetadataState) (id : String) {actions : List SessionMetadataAction}
    (updates : ∀ action ∈ actions, IsUpdate action) :
    let read := reduceSessionMetadata dateParse localeCompare state (.readOptimistic id)
    let current := actions.foldl (reduceSessionMetadata dateParse localeCompare) read
    let final := reduceSessionMetadata dateParse localeCompare current (.readFailed id)
    (final.byId.get id).map apartFromRead = (current.byId.get id).map apartFromRead ↔ Unharmed read current id := by
  intro read current final
  have kept : current.pendingRead = read.pendingRead := updates_pending updates
  have same : Unharmed read current id ↔ Unharmed current current id := by rw [Unharmed, Unharmed, kept]
  rw [same]
  exact readFailed_iff

/-- A session with an unread reply, and the same version of it under another title. -/
def titled (version : Int) (title : String) : SessionMetadataPatch :=
  { SessionMetadata.listed "s1" none with version := some (some version), title := some (some title) }

def unread : SessionMetadataState := SessionMetadata.reduced none [.metadata (titled 1 "Draft")]

/-- A newer version keeps its title through the failed read. -/
theorem read_failure_keeps_newer :
    let read := reduceSessionMetadata SessionMetadata.noDates SessionMetadata.plainOrder unread (.readOptimistic "s1")
    let current := reduceSessionMetadata SessionMetadata.noDates SessionMetadata.plainOrder read (.metadata (titled 2 "Report"))
    let final := reduceSessionMetadata SessionMetadata.noDates SessionMetadata.plainOrder current (.readFailed "s1")
    (final.byId.get "s1").map apartFromRead = (current.byId.get "s1").map apartFromRead := by
  have updates : ∀ action ∈ [SessionMetadataAction.metadata (titled 2 "Report")], IsUpdate action := by
    intro action member
    cases List.mem_singleton.mp member
    exact trivial
  refine (read_failure_keeps SessionMetadata.noDates SessionMetadata.plainOrder unread "s1" updates).mpr ?_
  rintro snapshot ⟨⟩
  exact .inl rfl

/-- The same version with another title is accepted, and taken back by the failed read. -/
theorem read_failure_reverts : ¬∀ (dateParse : String → Option Int) (localeCompare : Comparator String)
    (state : SessionMetadataState) (id : String) (actions : List SessionMetadataAction),
    (∀ action ∈ actions, IsUpdate action) →
      let read := reduceSessionMetadata dateParse localeCompare state (.readOptimistic id)
      let current := actions.foldl (reduceSessionMetadata dateParse localeCompare) read
      let final := reduceSessionMetadata dateParse localeCompare current (.readFailed id)
      (final.byId.get id).map apartFromRead = (current.byId.get id).map apartFromRead := by
  intro keeps
  have updates : ∀ action ∈ [SessionMetadataAction.metadata (titled 1 "Report")], IsUpdate action := by
    intro action member
    cases List.mem_singleton.mp member
    exact trivial
  have same := keeps SessionMetadata.noDates SessionMetadata.plainOrder unread "s1" _ updates
  have reverted : some "Draft" = some "Report" := congrArg (fun session => session.bind (·.title)) same
  simp at reverted

end AgentSaas.Proofs.ReadRollback
