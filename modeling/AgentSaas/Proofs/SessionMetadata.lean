import Mathlib.Data.String.Basic
import AgentSaas.SessionMetadata

/-! The metadata reducer's order, selection, pending reads and tombstones, and the actions
that put them out of step. -/

namespace AgentSaas.Proofs.SessionMetadata
open AgentSaas.SessionMetadata AgentSaas.Dictionaries AgentSaas.Sorting

variable {dateParse : String → Option Int} {localeCompare : Comparator String} {state : SessionMetadataState}
  {byId : Dictionary String CanonicalSessionMetadata} {id : String}

def Live (byId : Dictionary String CanonicalSessionMetadata) (id : String) : Prop :=
  ∃ session, byId.get id = some session ∧ session.deleted = false

def Buried (byId : Dictionary String CanonicalSessionMetadata) (id : String) : Prop := isDeleted byId id = true

def Named (byId : Dictionary String CanonicalSessionMetadata) : Prop :=
  ∀ id session, byId.get id = some session → session.sessionId = id

/-- The order is that of the sessions that are left; the selected session is one of them,
and so are those with a pending read. -/
structure Consistent (localeCompare : Comparator String) (state : SessionMetadataState) : Prop where
  named : Named state.byId
  ordered : state.order = sortedOrder localeCompare state.byId
  selected : ∀ id, state.selectedSessionId = some id → Live state.byId id
  pending : ∀ id snapshot, state.pendingRead.get id = some snapshot →
    Live state.byId id ∧ snapshot.sessionId = id ∧ snapshot.deleted = false

theorem buried_iff : Buried byId id ↔ ∃ session, byId.get id = some session ∧ session.deleted = true := by
  simp only [Buried, isDeleted]
  cases byId.get id <;> simp

theorem Live.not_buried (live : Live byId id) : ¬Buried byId id := by
  obtain ⟨session, found, alive⟩ := live
  rw [buried_iff]
  rintro ⟨other, here, dead⟩
  rw [found] at here
  cases here
  simp [alive] at dead

theorem Named.set (named : Named byId) {session : CanonicalSessionMetadata} (same : session.sessionId = id) :
    Named (byId.set id session) := by
  intro other found
  rw [Dictionary.get_set]
  split
  next here =>
    rintro ⟨⟩
    exact same.trans here.symm
  next => exact named other found

theorem Live.set (live : Live byId id) {other : String} {session : CanonicalSessionMetadata}
    (alive : other = id → session.deleted = false) : Live (byId.set other session) id := by
  by_cases same : id = other
  · subst same
    exact ⟨session, Dictionary.get_set_self .., alive rfl⟩
  · obtain ⟨current, found, kept⟩ := live
    exact ⟨current, by rwa [Dictionary.get_set_of_ne same], kept⟩

theorem Buried.set (buried : Buried byId id) {other : String} {session : CanonicalSessionMetadata} (apart : id ≠ other) :
    Buried (byId.set other session) id := by
  rwa [Buried, isDeleted, Dictionary.get_set_of_ne apart]

/-- The session that comes for the current one compares with the others as that does. -/
def KeepsPlace (localeCompare : Comparator String) (byId : Dictionary String CanonicalSessionMetadata)
    (current next : CanonicalSessionMetadata) : Prop :=
  ∀ id session, byId.get id = some session → session.deleted = false → id ≠ current.sessionId →
    ((newestFirst localeCompare).le session next ↔ (newestFirst localeCompare).le session current) ∧
      ((newestFirst localeCompare).le next session ↔ (newestFirst localeCompare).le current session)

theorem sortedOrder_set (named : Named byId) {current next : CanonicalSessionMetadata}
    (found : byId.get id = some current) (same : next.sessionId = id) (alive : current.deleted = false)
    (kept : next.deleted = false) (place : KeepsPlace localeCompare byId current next) :
    sortedOrder localeCompare (byId.set id next) = sortedOrder localeCompare byId := by
  let replaced (session : CanonicalSessionMetadata) := if session.sessionId = id then next else session
  have here : current.sessionId = id := named id current found
  have known (session : CanonicalSessionMetadata) (listed : session ∈ byId.values) :
      byId.get session.sessionId = some session := by
    obtain ⟨key, found⟩ := Dictionary.mem_values.mp listed
    rwa [named key session found]
  have one (session : CanonicalSessionMetadata) (listed : session ∈ byId.values) (own : session.sessionId = id) :
      session = current := by
    have other := known session listed
    rw [own, found] at other
    exact (Option.some.inj other).symm
  have values : (byId.set id next).values = byId.values.map replaced := by
    rw [Dictionary.values, Dictionary.entries_set_of_has found, List.map_map, Dictionary.values, List.map_map]
    apply List.map_congr_left
    rintro ⟨key, session⟩ member
    have own := named key session (Dictionary.mem_entries.mp member)
    simp only [Function.comp, replaced, own]
    split <;> rfl
  have filtered : (byId.values.map replaced).filter (!·.deleted) = (byId.values.filter (!·.deleted)).map replaced := by
    rw [List.filter_map]
    congr 1
    apply List.filter_congr
    intro session listed
    simp only [Function.comp, replaced]
    split
    next own => rw [one session listed own, kept, alive]
    next => rfl
  have compared : ∀ left ∈ byId.values.filter (!·.deleted), ∀ right ∈ byId.values.filter (!·.deleted),
      (newestFirst localeCompare).le left right ↔ (newestFirst localeCompare).le (replaced left) (replaced right) := by
    intro left leftIn right rightIn
    obtain ⟨leftListed, leftAlive⟩ := List.mem_filter.mp leftIn
    obtain ⟨rightListed, rightAlive⟩ := List.mem_filter.mp rightIn
    simp only [replaced]
    by_cases leftOwn : left.sessionId = id <;> by_cases rightOwn : right.sessionId = id
    · rw [if_pos leftOwn, if_pos rightOwn, one left leftListed leftOwn, one right rightListed rightOwn]
      simp [Comparator.le, Comparator.self]
    · rw [if_pos leftOwn, if_neg rightOwn, one left leftListed leftOwn]
      exact (place _ right (known right rightListed) (by simpa using rightAlive) (here ▸ rightOwn)).2.symm
    · rw [if_neg leftOwn, if_pos rightOwn, one right rightListed rightOwn]
      exact (place _ left (known left leftListed) (by simpa using leftAlive) (here ▸ leftOwn)).1.symm
    · rw [if_neg leftOwn, if_neg rightOwn]
  rw [sortedOrder, values, filtered, ← Comparator.map_sort _ compared, List.map_map, sortedOrder]
  apply List.map_congr_left
  intro session _
  simp only [Function.comp, replaced]
  split
  next own => exact same.trans own.symm
  next => rfl

theorem sortedOrder_set_marks (named : Named byId) {current next : CanonicalSessionMetadata}
    (found : byId.get id = some current) (alive : current.deleted = false) (same : next.sessionId = current.sessionId)
    (kept : next.deleted = current.deleted) (time : next.updatedAtMs = current.updatedAtMs) :
    sortedOrder localeCompare (byId.set id next) = sortedOrder localeCompare byId := by
  apply sortedOrder_set named found (same.trans (named id current found)) alive (kept.trans alive)
  intro other session _ _ _
  simp [newestFirst, Comparator.le, Comparator.newestFirst, same, time]

theorem mem_sortedOrder (named : Named byId) : id ∈ sortedOrder localeCompare byId ↔ Live byId id := by
  simp only [sortedOrder, List.mem_map, Comparator.mem_sort, List.mem_filter, Dictionary.mem_values]
  constructor
  · rintro ⟨session, ⟨⟨key, found⟩, alive⟩, rfl⟩
    rw [named key session found]
    exact ⟨session, found, by simpa using alive⟩
  · rintro ⟨session, found, alive⟩
    exact ⟨session, ⟨⟨id, found⟩, by simpa using alive⟩, named id session found⟩

def Buries (dateParse : String → Option Int) (state : SessionMetadataState) (patch : SessionMetadataPatch) : Prop :=
  accepts dateParse state patch = true ∧ patch.deleted = some (some true)

theorem normalized_deleted {patch : SessionMetadataPatch} {prior : Option CanonicalSessionMetadata}
    (alive : prior.any (·.deleted) = false) : (normalized patch prior).deleted = true ↔ patch.deleted = some (some true) := by
  simp only [normalized, Field.over]
  cases known : patch.deleted with
  | some value => cases value <;> simp
  | none => cases prior <;> simp_all

theorem applyPatch_fields (dateParse : String → Option Int) (localeCompare : Comparator String)
    (state : SessionMetadataState) (patch : SessionMetadataPatch) :
    let next := applyPatch dateParse localeCompare state patch
    next.selectedSessionId = state.selectedSessionId ∧ next.pendingRead = state.pendingRead ∧
      next.identityGeneration = state.identityGeneration := by
  simp only [applyPatch]
  split <;> exact ⟨rfl, rfl, rfl⟩

theorem applyPatch_named (named : Named state.byId) (patch : SessionMetadataPatch) :
    Named (applyPatch dateParse localeCompare state patch).byId := by
  rw [applyPatch]
  split
  next => exact named
  next => exact named.set rfl

theorem applyPatch_ordered (ordered : state.order = sortedOrder localeCompare state.byId) (patch : SessionMetadataPatch) :
    let next := applyPatch dateParse localeCompare state patch
    next.order = sortedOrder localeCompare next.byId := by
  simp only [applyPatch]
  split
  next => exact ordered
  next => rfl

theorem applyPatch_live (live : Live state.byId id) {patch : SessionMetadataPatch}
    (spared : Buries dateParse state patch → patch.sessionId ≠ id) :
    Live (applyPatch dateParse localeCompare state patch).byId id := by
  rw [applyPatch]
  split
  next => exact live
  next taken =>
    have taken : accepts dateParse state patch = true := by simpa using taken
    apply live.set
    intro own
    have alive : (state.byId.get patch.sessionId).any (·.deleted) = false := by
      simp only [accepts, isDeleted, Bool.and_eq_true, Bool.not_eq_true'] at taken
      exact taken.1
    rw [← Bool.not_eq_true, normalized_deleted alive]
    intro wrong
    exact spared ⟨taken, wrong⟩ own

theorem applyPatch_buried (buried : Buried state.byId id) (patch : SessionMetadataPatch) :
    Buried (applyPatch dateParse localeCompare state patch).byId id := by
  rw [applyPatch]
  split
  next => exact buried
  next taken =>
    apply buried.set
    rintro rfl
    have alive : isDeleted state.byId patch.sessionId = false := by
      simp only [accepts, Bool.not_eq_true', Bool.not_eq_false, Bool.and_eq_true] at taken
      exact taken.1
    rw [Buried, alive] at buried
    cases buried

/-- A patch that deletes finds its session neither selected nor with a pending read. -/
def PatchOrderly (dateParse : String → Option Int) (state : SessionMetadataState) (patch : SessionMetadataPatch) : Prop :=
  Buries dateParse state patch →
    state.selectedSessionId ≠ some patch.sessionId ∧ state.pendingRead.get patch.sessionId = none

theorem applyPatch_consistent (consistent : Consistent localeCompare state) {patch : SessionMetadataPatch}
    (orderly : PatchOrderly dateParse state patch) :
    Consistent localeCompare (applyPatch dateParse localeCompare state patch) := by
  obtain ⟨selected, pendingRead, -⟩ := applyPatch_fields dateParse localeCompare state patch
  constructor
  · exact applyPatch_named consistent.named patch
  · exact applyPatch_ordered consistent.ordered patch
  · rw [selected]
    intro id chosen
    apply applyPatch_live (consistent.selected id chosen)
    rintro buries rfl
    exact (orderly buries).1 chosen
  · rw [pendingRead]
    intro id snapshot waiting
    obtain ⟨live, kept⟩ := consistent.pending id snapshot waiting
    refine ⟨applyPatch_live live ?_, kept⟩
    rintro buries rfl
    rw [(orderly buries).2] at waiting
    cases waiting

def PatchesOrderly (dateParse : String → Option Int) (localeCompare : Comparator String) (state : SessionMetadataState) :
    List SessionMetadataPatch → Prop
  | [] => True
  | patch :: rest => PatchOrderly dateParse state patch ∧
      PatchesOrderly dateParse localeCompare (applyPatch dateParse localeCompare state patch) rest

theorem applyPatches_consistent (consistent : Consistent localeCompare state) (sessions : List SessionMetadataPatch)
    (orderly : PatchesOrderly dateParse localeCompare state sessions) :
    Consistent localeCompare (sessions.foldl (applyPatch dateParse localeCompare) state) := by
  induction sessions generalizing state with
  | nil => exact consistent
  | cons patch rest ih => exact ih (applyPatch_consistent consistent orderly.1) orderly.2

theorem applyPatches_fields (dateParse : String → Option Int) (localeCompare : Comparator String)
    (state : SessionMetadataState) (sessions : List SessionMetadataPatch) :
    let next := sessions.foldl (applyPatch dateParse localeCompare) state
    next.selectedSessionId = state.selectedSessionId ∧ next.pendingRead = state.pendingRead ∧
      next.identityGeneration = state.identityGeneration := by
  induction sessions generalizing state with
  | nil => exact ⟨rfl, rfl, rfl⟩
  | cons patch rest ih =>
    obtain ⟨selected, pendingRead, generation⟩ := ih (applyPatch dateParse localeCompare state patch)
    obtain ⟨selected', pendingRead', generation'⟩ := applyPatch_fields dateParse localeCompare state patch
    exact ⟨selected.trans selected', pendingRead.trans pendingRead', generation.trans generation'⟩

theorem applyPatches_buried (buried : Buried state.byId id) (sessions : List SessionMetadataPatch) :
    Buried (sessions.foldl (applyPatch dateParse localeCompare) state).byId id := by
  induction sessions generalizing state with
  | nil => exact buried
  | cons patch rest ih => exact ih (applyPatch_buried buried patch)

theorem dropUnlisted_byId (localeCompare : Comparator String) (state : SessionMetadataState) (incoming : List String) :
    (dropUnlisted localeCompare state incoming).byId =
      state.byId.filter fun id session => id ∈ incoming || session.deleted := by
  simp only [dropUnlisted]
  split <;> rfl

theorem dropUnlisted_live (live : Live state.byId id) {incoming : List String} (listed : id ∈ incoming) :
    Live (dropUnlisted localeCompare state incoming).byId id := by
  obtain ⟨session, found, alive⟩ := live
  refine ⟨session, ?_, alive⟩
  rw [dropUnlisted_byId, Dictionary.get_filter, found]
  simp [Option.filter, listed]

theorem dropUnlisted_buried (buried : Buried state.byId id) (incoming : List String) :
    Buried (dropUnlisted localeCompare state incoming).byId id := by
  rw [buried_iff] at buried ⊢
  obtain ⟨session, found, dead⟩ := buried
  refine ⟨session, ?_, dead⟩
  rw [dropUnlisted_byId, Dictionary.get_filter, found]
  simp [Option.filter, dead]

theorem dropUnlisted_consistent (consistent : Consistent localeCompare state) {incoming : List String}
    (pending : ∀ id, state.pendingRead.has id = true → id ∈ incoming)
    (selected : state.selectedSessionId = some "" → "" ∈ incoming) :
    Consistent localeCompare (dropUnlisted localeCompare state incoming) := by
  constructor
  · rw [dropUnlisted_byId]
    intro id session found
    rw [Dictionary.get_filter] at found
    exact consistent.named id session (Option.filter_eq_some_iff.mp found).1
  · simp only [dropUnlisted]
    split <;> rfl
  · intro id chosen
    have still : state.selectedSessionId = some id := by
      simp only [dropUnlisted] at chosen
      split at chosen
      next => cases chosen
      next => exact chosen
    by_cases empty : id = ""
    · subst empty
      exact dropUnlisted_live (consistent.selected "" still) (selected still)
    · -- A selection that is not dropped is among the sessions that are left.
      simp only [dropUnlisted, still, Option.filter_some, empty, ne_eq, not_false_iff, decide_true, if_true,
        Option.any_some, Bool.not_eq_true'] at chosen
      obtain ⟨session, found, alive⟩ := consistent.selected id still
      refine ⟨session, ?_, alive⟩
      split at chosen
      next => cases chosen
      next present =>
        rw [Bool.not_eq_false, Dictionary.has, Dictionary.get_filter, found] at present
        rw [dropUnlisted_byId, Dictionary.get_filter, found]
        obtain ⟨kept, same⟩ := Option.isSome_iff_exists.mp present
        rw [same, (Option.filter_eq_some_iff.mp same).1]
  · intro id snapshot waiting
    have still : state.pendingRead.get id = some snapshot := by
      simp only [dropUnlisted] at waiting
      split at waiting <;> exact waiting
    obtain ⟨live, kept⟩ := consistent.pending id snapshot still
    exact ⟨dropUnlisted_live live (pending id (by simp [Dictionary.has, still])), kept⟩

theorem fallbackSelection_live (named : Named byId) {removedId chosen : String}
    (selected : fallbackSelection localeCompare state byId removedId = some chosen) :
    Live byId chosen ∨ state.selectedSessionId = some chosen ∧ chosen ≠ removedId := by
  rw [fallbackSelection] at selected
  split at selected
  next other =>
    right
    refine ⟨selected, ?_⟩
    rintro rfl
    exact other selected
  next =>
    left
    exact (mem_sortedOrder named).mp (List.mem_of_getElem? selected)

theorem deleteSession_buried (buried : Buried state.byId id) (patch : SessionMetadataPatch) :
    Buried (deleteSession localeCompare state patch).byId id := by
  rw [deleteSession]
  split
  next => exact buried
  next alive =>
    apply buried.set
    rintro rfl
    exact alive buried

theorem deleteSession_consistent (consistent : Consistent localeCompare state) (patch : SessionMetadataPatch) :
    Consistent localeCompare (deleteSession localeCompare state patch) := by
  rw [deleteSession]
  split
  next => exact consistent
  next =>
    have named : Named (state.byId.set patch.sessionId (normalized patch (state.byId.get patch.sessionId))) :=
      consistent.named.set rfl
    have kept (id : String) (live : Live state.byId id) (apart : id ≠ patch.sessionId) :
        Live (state.byId.set patch.sessionId (normalized patch (state.byId.get patch.sessionId))) id :=
      live.set fun same => absurd same.symm apart
    constructor
    · exact named
    · rfl
    · intro id chosen
      rcases fallbackSelection_live named chosen with live | ⟨selected, apart⟩
      · exact live
      · exact kept id (consistent.selected id selected) apart
    · intro id snapshot waiting
      by_cases same : id = patch.sessionId
      · simp [same] at waiting
      · rw [Dictionary.get_erase_of_ne same] at waiting
        obtain ⟨live, rest⟩ := consistent.pending id snapshot waiting
        exact ⟨kept id live same, rest⟩

theorem readOptimistic_consistent (consistent : Consistent localeCompare state) (sessionId : String) :
    Consistent localeCompare (readOptimistic state sessionId) := by
  rw [readOptimistic]
  split
  next => exact consistent
  next prior found =>
    split
    next => exact consistent
    next unread =>
      simp only [Bool.or_eq_true, Bool.not_eq_true', not_or, Bool.not_eq_true, Bool.not_eq_false] at unread
      obtain ⟨alive, -⟩ := unread
      have own := consistent.named sessionId prior found
      constructor
      · exact consistent.named.set own
      · have order : sortedOrder localeCompare (state.byId.set sessionId
            { prior with hasUnread := false, hasUnreadAiReply := false }) = sortedOrder localeCompare state.byId :=
          sortedOrder_set_marks consistent.named found alive rfl rfl rfl
        exact consistent.ordered.trans order.symm
      · intro id chosen
        exact (consistent.selected id chosen).set fun _ => alive
      · intro id snapshot waiting
        rw [Dictionary.get_set] at waiting
        split at waiting
        next same =>
          cases waiting
          subst same
          have live : Live state.byId id := ⟨prior, found, alive⟩
          exact ⟨live.set fun _ => alive, own, alive⟩
        next =>
          obtain ⟨live, rest⟩ := consistent.pending id snapshot waiting
          exact ⟨live.set fun _ => alive, rest⟩

theorem readOptimistic_buried (buried : Buried state.byId id) (sessionId : String) :
    Buried (readOptimistic state sessionId).byId id := by
  rw [readOptimistic]
  split
  next => exact buried
  next prior found =>
    split
    next => exact buried
    next unread =>
      apply buried.set
      rintro rfl
      rw [Buried, isDeleted, found, Option.any_some] at buried
      simp [buried] at unread

/-- A failed read that is not overtaken brings back a session at the current one's place. -/
def ReadOrderly (localeCompare : Comparator String) (state : SessionMetadataState) (sessionId : String) : Prop :=
  ∀ snapshot current, state.pendingRead.get sessionId = some snapshot → state.byId.get sessionId = some current →
    advanced snapshot (some current) = false → KeepsPlace localeCompare state.byId current snapshot

theorem readFailed_consistent (consistent : Consistent localeCompare state) {sessionId : String}
    (orderly : ReadOrderly localeCompare state sessionId) : Consistent localeCompare (readFailed state sessionId) := by
  rw [readFailed]
  split
  next => exact consistent
  next snapshot waiting =>
    obtain ⟨live, own, kept⟩ := consistent.pending sessionId snapshot waiting
    have others (id : String) (other : CanonicalSessionMetadata)
        (still : (state.pendingRead.erase sessionId).get id = some other) :
        Live state.byId id ∧ other.sessionId = id ∧ other.deleted = false := by
      rw [Dictionary.erase, Dictionary.get_filter] at still
      exact consistent.pending id other (Option.filter_eq_some_iff.mp still).1
    simp only
    split
    next => exact ⟨consistent.named, consistent.ordered, consistent.selected, others⟩
    next latest =>
      obtain ⟨current, found, alive⟩ := live
      rw [found] at latest
      have place := orderly snapshot current waiting found (by simpa using latest)
      constructor
      · exact consistent.named.set own
      · exact consistent.ordered.trans (sortedOrder_set consistent.named found own alive kept place).symm
      · intro id chosen
        exact (consistent.selected id chosen).set fun _ => kept
      · intro id other still
        obtain ⟨live, rest⟩ := others id other still
        exact ⟨live.set fun _ => kept, rest⟩

theorem readFailed_buried (consistent : Consistent localeCompare state) (buried : Buried state.byId id) (sessionId : String) :
    Buried (readFailed state sessionId).byId id := by
  rw [readFailed]
  split
  next => exact buried
  next snapshot waiting =>
    simp only
    split
    next => exact buried
    next =>
      apply buried.set
      rintro rfl
      exact (consistent.pending id snapshot waiting).1.not_buried buried

/-- What keeps an action from putting the state out of step: nothing that is selected or
has a pending read is deleted by a patch or left out of an authoritative list, and no
failed read moves a session. -/
def Orderly (dateParse : String → Option Int) (localeCompare : Comparator String) (state : SessionMetadataState) :
    SessionMetadataAction → Prop
  | .metadata patch => PatchOrderly dateParse state patch
  | .readAck patch => Buries dateParse state patch → state.selectedSessionId ≠ some patch.sessionId
  | .hydrate sessions authoritative => PatchesOrderly dateParse localeCompare state sessions ∧
      (authoritative = true → (∀ id, state.pendingRead.has id = true → id ∈ sessions.map (·.sessionId)) ∧
        (state.selectedSessionId = some "" → "" ∈ sessions.map (·.sessionId)))
  | .readFailed sessionId => ReadOrderly localeCompare state sessionId
  | _ => True

theorem readAck_consistent (consistent : Consistent localeCompare state) {patch : SessionMetadataPatch}
    (orderly : Buries dateParse state patch → state.selectedSessionId ≠ some patch.sessionId) :
    Consistent localeCompare (reduceSessionMetadata dateParse localeCompare state (.readAck patch)) := by
  obtain ⟨selected, pendingRead, -⟩ := applyPatch_fields dateParse localeCompare state patch
  constructor
  · exact applyPatch_named consistent.named patch
  · exact applyPatch_ordered consistent.ordered patch
  · intro id chosen
    have chosen : state.selectedSessionId = some id := selected.symm.trans chosen
    apply applyPatch_live (consistent.selected id chosen)
    rintro buries rfl
    exact orderly buries chosen
  · intro id snapshot waiting
    simp only [reduceSessionMetadata, pendingRead] at waiting
    by_cases same : id = patch.sessionId
    · simp [same] at waiting
    · rw [Dictionary.get_erase_of_ne same] at waiting
      obtain ⟨live, rest⟩ := consistent.pending id snapshot waiting
      exact ⟨applyPatch_live live fun _ => Ne.symm same, rest⟩

theorem hydrate_consistent (consistent : Consistent localeCompare state) {sessions : List SessionMetadataPatch}
    {authoritative : Bool} (orderly : Orderly dateParse localeCompare state (.hydrate sessions authoritative)) :
    Consistent localeCompare (hydrate dateParse localeCompare state sessions authoritative) := by
  have patched := applyPatches_consistent consistent sessions orderly.1
  obtain ⟨selected, pendingRead, -⟩ := applyPatches_fields dateParse localeCompare state sessions
  rw [hydrate]
  split
  next final =>
    obtain ⟨pending, chosen⟩ := orderly.2 final
    apply dropUnlisted_consistent patched
    · rwa [pendingRead]
    · rwa [selected]
  next => exact patched

theorem create_consistent (localeCompare : Comparator String) (generation : Option String) :
    Consistent localeCompare (createSessionMetadataState generation) := by
  constructor
  · intro id session wrong
    cases wrong
  · rfl
  · intro id wrong
    cases wrong
  · intro id snapshot wrong
    cases wrong

theorem reduce_consistent (consistent : Consistent localeCompare state) (action : SessionMetadataAction)
    (orderly : Orderly dateParse localeCompare state action) :
    Consistent localeCompare (reduceSessionMetadata dateParse localeCompare state action) := by
  cases action with
  | hydrate => exact hydrate_consistent consistent orderly
  | metadata => exact applyPatch_consistent consistent orderly
  | delete => exact deleteSession_consistent consistent _
  | select sessionId =>
    rw [reduceSessionMetadata]
    split
    next there =>
      refine ⟨consistent.named, consistent.ordered, fun id chosen => ?_, consistent.pending⟩
      have chosen : sessionId = some id := chosen
      subst chosen
      simp only [Option.all_some, Bool.and_eq_true, Bool.not_eq_true'] at there
      obtain ⟨session, found⟩ := Option.isSome_iff_exists.mp there.1
      exact ⟨session, found, by simpa [isDeleted, found] using there.2⟩
    next => exact consistent
  | readOptimistic => exact readOptimistic_consistent consistent _
  | readAck => exact readAck_consistent consistent orderly
  | readFailed => exact readFailed_consistent consistent orderly
  | identityReset =>
    rw [reduceSessionMetadata]
    split
    next => exact consistent
    next => exact create_consistent localeCompare _
  | accessLost => exact deleteSession_consistent consistent _

def SameIdentity (generation : Option String) (action : SessionMetadataAction) : Prop :=
  ∀ other, action = .identityReset other → other = generation

theorem reduce_buried (consistent : Consistent localeCompare state) (buried : Buried state.byId id)
    {action : SessionMetadataAction} (same : SameIdentity state.identityGeneration action) :
    Buried (reduceSessionMetadata dateParse localeCompare state action).byId id := by
  cases action with
  | hydrate sessions authoritative =>
    simp only [reduceSessionMetadata, hydrate]
    split
    next => exact dropUnlisted_buried (applyPatches_buried buried sessions) _
    next => exact applyPatches_buried buried sessions
  | metadata => exact applyPatch_buried buried _
  | delete => exact deleteSession_buried buried _
  | select =>
    rw [reduceSessionMetadata]
    split <;> exact buried
  | readOptimistic => exact readOptimistic_buried buried _
  | readAck => exact applyPatch_buried buried _
  | readFailed => exact readFailed_buried consistent buried _
  | identityReset generation =>
    rw [reduceSessionMetadata, if_pos (same generation rfl)]
    exact buried
  | accessLost => exact deleteSession_buried buried _

theorem reduce_identity {action : SessionMetadataAction} (same : SameIdentity state.identityGeneration action) :
    (reduceSessionMetadata dateParse localeCompare state action).identityGeneration = state.identityGeneration := by
  cases action with
  | hydrate sessions authoritative =>
    obtain ⟨-, -, generation⟩ := applyPatches_fields dateParse localeCompare state sessions
    simp only [reduceSessionMetadata, hydrate, dropUnlisted]
    split
    next => split <;> exact generation
    next => exact generation
  | metadata patch | readAck patch => exact (applyPatch_fields dateParse localeCompare state patch).2.2
  | delete | accessLost =>
    simp only [reduceSessionMetadata, deleteSession]
    split <;> rfl
  | select =>
    simp only [reduceSessionMetadata]
    split <;> rfl
  | readOptimistic =>
    simp only [reduceSessionMetadata, readOptimistic]
    repeat (first | rfl | split)
  | readFailed =>
    simp only [reduceSessionMetadata, readFailed]
    repeat (first | rfl | split)
  | identityReset generation => rw [reduceSessionMetadata, if_pos (same generation rfl)]

/-- Every action is orderly when its turn comes. -/
def AllOrderly (dateParse : String → Option Int) (localeCompare : Comparator String) (state : SessionMetadataState) :
    List SessionMetadataAction → Prop
  | [] => True
  | action :: rest => Orderly dateParse localeCompare state action ∧
      AllOrderly dateParse localeCompare (reduceSessionMetadata dateParse localeCompare state action) rest

theorem AllOrderly.append {first rest : List SessionMetadataAction}
    (orderly : AllOrderly dateParse localeCompare state (first ++ rest)) :
    AllOrderly dateParse localeCompare state first ∧
      AllOrderly dateParse localeCompare (first.foldl (reduceSessionMetadata dateParse localeCompare) state) rest := by
  induction first generalizing state with
  | nil => exact ⟨trivial, orderly⟩
  | cons action first ih =>
    obtain ⟨before, after⟩ := ih orderly.2
    exact ⟨⟨orderly.1, before⟩, after⟩

theorem actions_consistent (consistent : Consistent localeCompare state) (actions : List SessionMetadataAction)
    (orderly : AllOrderly dateParse localeCompare state actions) :
    Consistent localeCompare (actions.foldl (reduceSessionMetadata dateParse localeCompare) state) := by
  induction actions generalizing state with
  | nil => exact consistent
  | cons action rest ih => exact ih (reduce_consistent consistent action orderly.1) orderly.2

theorem actions_buried (consistent : Consistent localeCompare state) (buried : Buried state.byId id)
    (actions : List SessionMetadataAction) (orderly : AllOrderly dateParse localeCompare state actions)
    (same : ∀ action ∈ actions, SameIdentity state.identityGeneration action) :
    Buried (actions.foldl (reduceSessionMetadata dateParse localeCompare) state).byId id := by
  induction actions generalizing state with
  | nil => exact buried
  | cons action rest ih =>
    have own := same action (List.mem_cons_self ..)
    apply ih (reduce_consistent consistent action orderly.1) (reduce_buried consistent buried own) orderly.2
    intro other listed
    rw [reduce_identity own]
    exact same other (List.mem_cons_of_mem _ listed)

/-- While every action is orderly: the order is that of the sessions not deleted, the
selected session and those with a pending read are among them, and what is deleted stays
so until another identity begins. -/
theorem metadata_consistent (dateParse : String → Option Int) (localeCompare : Comparator String)
    (generation : Option String) (actions later : List SessionMetadataAction)
    (orderly : AllOrderly dateParse localeCompare (createSessionMetadataState generation) (actions ++ later)) :
    let state := actions.foldl (reduceSessionMetadata dateParse localeCompare) (createSessionMetadataState generation)
    let final := later.foldl (reduceSessionMetadata dateParse localeCompare) state
    state.order = sortedOrder localeCompare state.byId ∧
      (∀ id, id ∈ state.order ↔ ∃ session, state.byId.get id = some session ∧ session.deleted = false) ∧
      (∀ id, state.selectedSessionId = some id → ∃ session, state.byId.get id = some session ∧ session.deleted = false) ∧
      (∀ id, state.pendingRead.has id = true → ∃ session, state.byId.get id = some session ∧ session.deleted = false) ∧
      ((∀ action ∈ later, SameIdentity state.identityGeneration action) →
        ∀ id, isDeleted state.byId id = true → isDeleted final.byId id = true) := by
  intro state final
  obtain ⟨before, after⟩ := orderly.append
  have consistent : Consistent localeCompare state :=
    actions_consistent (create_consistent localeCompare generation) actions before
  refine ⟨consistent.ordered, fun id => ?_, consistent.selected, fun id waiting => ?_, fun same id buried => ?_⟩
  · rw [consistent.ordered]
    exact mem_sortedOrder consistent.named
  · obtain ⟨snapshot, found⟩ := Option.isSome_iff_exists.mp waiting
    exact (consistent.pending id snapshot found).1
  · exact actions_buried consistent buried later after same

def plainOrder : Comparator String := Comparator.ofLinearOrder String

def noDates (_ : String) : Option Int := none

def reduced (generation : Option String) (actions : List SessionMetadataAction) : SessionMetadataState :=
  actions.foldl (reduceSessionMetadata noDates plainOrder) (createSessionMetadataState generation)

def listed (sessionId : String) (deleted : SessionMetadata.Field Bool) : SessionMetadataPatch :=
  ⟨sessionId, some 5, some (some 1), some (some true), none, deleted, none, none, none, none, none, none⟩

/-- Two sessions: one is selected and read, the other deleted and then patched. -/
theorem metadata_consistent_deleted :
    let state := reduced none [.hydrate [listed "s1" none, listed "s2" none] true, .select (some "s1"),
      .readOptimistic "s1", .delete "s2" none none none]
    state.order = ["s1"] ∧ isDeleted (reduceSessionMetadata noDates plainOrder state (.metadata (listed "s2" none))).byId "s2" = true := by
  have kept := (metadata_consistent noDates plainOrder none [.hydrate [listed "s1" none, listed "s2" none] true,
    .select (some "s1"), .readOptimistic "s1", .delete "s2" none none none] [.metadata (listed "s2" none)] ?_).2.2.2.2
  · refine ⟨by decide +kernel, kept ?_ "s2" (by decide +kernel)⟩
    rintro action member other rfl
    simp at member
  · have harmless (state : SessionMetadataState) (id : String) : PatchOrderly noDates state (listed id none) := by
      rintro ⟨-, wrong⟩
      cases wrong
    refine ⟨⟨⟨harmless _ _, harmless _ _, trivial⟩, fun _ => ⟨fun id wrong => ?_, fun wrong => ?_⟩⟩, trivial, trivial, trivial,
      harmless _ _, trivial⟩
    · cases wrong
    · cases wrong

/-- A patch deletes the selected session; a refresh drops a session with a pending read,
and the failed read brings it back outside the order; and a failed read revives a session
that a patch has deleted. -/
theorem metadata_out_of_step :
    let selected := reduced none [.hydrate [listed "s1" none] false, .select (some "s1"), .metadata (listed "s1" (some (some true)))]
    let ghost := reduced none [.hydrate [listed "s1" none] false, .readOptimistic "s1", .hydrate [] true, .readFailed "s1"]
    let dead := reduced none [.hydrate [listed "s1" none] false, .readOptimistic "s1", .metadata (listed "s1" (some (some true)))]
    (selected.selectedSessionId = some "s1" ∧ isDeleted selected.byId "s1" = true) ∧
      (ghost.order = [] ∧ sortedOrder plainOrder ghost.byId = ["s1"]) ∧
      (isDeleted dead.byId "s1" = true ∧
        isDeleted (reduceSessionMetadata noDates plainOrder dead (.readFailed "s1")).byId "s1" = false) := by
  decide +kernel

end AgentSaas.Proofs.SessionMetadata
