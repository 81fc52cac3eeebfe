import Mathlib.Data.String.Basic
import AgentSaas.SessionListPager

/-! The pager's five collections fit together, and the one call that breaks them. -/

namespace AgentSaas.Proofs.SessionListPager
open AgentSaas.SessionListPager AgentSaas.Dictionaries AgentSaas.Sorting

variable {localeCompare : Comparator String} {state : SessionListPagerState}

/-- The order is that of the keys, sorted; nothing is left of a tombstoned session; and the
pending sessions are those with an interaction, once each. -/
structure Consistent (localeCompare : Comparator String) (state : SessionListPagerState) : Prop where
  named : ∀ id session, state.byId.get id = some session → session.sessionId = id
  ordered : state.order = orderSessions localeCompare state.byId
  keys : state.order.Perm state.byId.keys
  buried : ∀ id, state.tombstones.has id = true →
    state.byId.get id = none ∧ id ∉ state.order ∧ state.activeInteractionBySessionId.get id = none ∧
      id ∉ state.orderedPendingSessionIds
  once : state.orderedPendingSessionIds.Nodup
  pending : ∀ id, id ∈ state.orderedPendingSessionIds ↔ state.activeInteractionBySessionId.has id = true

def Named (byId : Dictionary String ApiSessionListItem) : Prop :=
  ∀ id session, byId.get id = some session → session.sessionId = id

theorem orderSessions_perm (localeCompare : Comparator String) {byId : Dictionary String ApiSessionListItem}
    (named : Named byId) : (orderSessions localeCompare byId).Perm byId.keys := by
  have keys : byId.keys = byId.values.map (·.sessionId) := by
    rw [Dictionary.keys, Dictionary.values, List.map_map]
    apply List.map_congr_left
    rintro ⟨id, session⟩ member
    exact (named id session (Dictionary.mem_entries.mp member)).symm
  rw [keys]
  exact (List.perm_insertionSort _ _).map _

theorem Consistent.of_core (named : Named state.byId) (ordered : state.order = orderSessions localeCompare state.byId)
    (once : state.orderedPendingSessionIds.Nodup)
    (pending : ∀ id, id ∈ state.orderedPendingSessionIds ↔ state.activeInteractionBySessionId.has id = true)
    (buried : ∀ id, state.tombstones.has id = true →
      state.byId.get id = none ∧ state.activeInteractionBySessionId.get id = none) : Consistent localeCompare state := by
  have keys : state.order.Perm state.byId.keys := ordered ▸ orderSessions_perm localeCompare named
  refine ⟨named, ordered, keys, ?_, once, pending⟩
  intro id dead
  obtain ⟨gone, idle⟩ := buried id dead
  refine ⟨gone, ?_, idle, ?_⟩
  · rw [keys.mem_iff, Dictionary.mem_keys, gone]
    simp
  · rw [pending, Dictionary.has, idle]
    simp

theorem orderPending_spec (current : List String) (active : Dictionary String SessionListActiveInteraction)
    (preferred : List String) :
    (orderPending current active preferred).Nodup ∧
      ∀ id, id ∈ orderPending current active preferred ↔ id ∈ preferred ++ current ∧ active.has id = true := by
  have each (rest result : List String) (once : result.Nodup) :
      (rest.foldl (orderPendingStep active) result).Nodup ∧ ∀ id, id ∈ rest.foldl (orderPendingStep active) result ↔
        id ∈ result ∨ id ∈ rest ∧ active.has id = true := by
    induction rest generalizing result with
    | nil => exact ⟨once, by simp⟩
    | cons head rest ih =>
      rw [List.foldl_cons, orderPendingStep]
      split
      next fresh =>
        have more : (result ++ [head]).Nodup := by
          rw [List.nodup_append]
          refine ⟨once, List.nodup_singleton _, ?_⟩
          rintro id member _ here rfl
          exact fresh.1 (List.mem_singleton.mp here ▸ member)
        obtain ⟨nodup, mem⟩ := ih _ more
        refine ⟨nodup, fun id => ?_⟩
        rw [mem, List.mem_append, List.mem_singleton, List.mem_cons]
        by_cases same : id = head
        · simp [same, fresh.2]
        · simp [same]
      next stale =>
        obtain ⟨nodup, mem⟩ := ih result once
        refine ⟨nodup, fun id => ?_⟩
        rw [mem, List.mem_cons]
        by_cases same : id = head
        · subst same
          by_cases known : id ∈ result
          · simp [known]
          · have idle : active.has id = false := by
              simpa [known] using stale
            simp [idle]
        · simp [same]
  obtain ⟨nodup, mem⟩ := each (preferred ++ current) [] .nil
  exact ⟨nodup, fun id => (mem id).trans (by simp)⟩

theorem Named.set {byId : Dictionary String ApiSessionListItem} (named : Named byId) {id : String}
    {session : ApiSessionListItem} (same : session.sessionId = id) : Named (byId.set id session) := by
  intro other found
  rw [Dictionary.get_set]
  split
  next here =>
    rintro ⟨⟩
    exact same.trans here.symm
  next => exact named other found

theorem Named.erase {byId : Dictionary String ApiSessionListItem} (named : Named byId) (id : String) :
    Named (byId.erase id) := by
  intro other found
  rw [Dictionary.erase, Dictionary.get_filter]
  intro here
  exact named other found (Option.filter_eq_some_iff.mp here).1

structure Collected (tombstones : Dictionary String Unit) (current : List String) (page : PageCollections) : Prop where
  named : Named page.byId
  buried : ∀ id, tombstones.has id = true → page.byId.get id = none ∧ page.active.get id = none
  pending : ∀ id, page.active.has id = true → id ∈ page.pagePending ++ current

theorem mergeSession_collected {tombstones : Dictionary String Unit} {current : List String} {page : PageCollections}
    (collected : Collected tombstones current page) (session : ApiSessionListItem) :
    Collected tombstones current (mergeSession tombstones page session) := by
  rw [mergeSession]
  split
  next => exact collected
  next alive =>
    have apart (id : String) (dead : tombstones.has id = true) : id ≠ session.sessionId := by
      rintro rfl
      exact alive dead
    have named : Named (page.byId.set session.sessionId (withoutInteraction session)) := collected.named.set rfl
    split
    next interaction _ =>
      refine ⟨named, fun id dead => ?_, fun id present => ?_⟩
      · rw [Dictionary.get_set_of_ne (apart id dead), Dictionary.get_set_of_ne (apart id dead)]
        exact collected.buried id dead
      · by_cases same : id = session.sessionId
        · simp [same]
        · rw [Dictionary.has, Dictionary.get_set_of_ne same] at present
          have listed := collected.pending id present
          simp only [List.mem_append] at listed ⊢
          tauto
    next =>
      refine ⟨named, fun id dead => ?_, fun id present => ?_⟩
      · rw [Dictionary.get_set_of_ne (apart id dead), Dictionary.get_erase_of_ne (apart id dead)]
        exact collected.buried id dead
      · apply collected.pending id
        by_cases same : id = session.sessionId
        · simp [same, Dictionary.has] at present
        · rwa [Dictionary.has, Dictionary.get_erase_of_ne same] at present

theorem mergeSessions_collected {tombstones : Dictionary String Unit} {current : List String} {page : PageCollections}
    (collected : Collected tombstones current page) (sessions : List ApiSessionListItem) :
    Collected tombstones current (sessions.foldl (mergeSession tombstones) page) := by
  induction sessions generalizing page with
  | nil => exact collected
  | cons session rest ih => exact ih (mergeSession_collected collected session)

theorem mergeLegacySessions_kept {tombstones : Dictionary String Unit} {byId : Dictionary String ApiSessionListItem}
    (named : Named byId) (buried : ∀ id, tombstones.has id = true → byId.get id = none)
    (sessions : List ApiSessionListItem) :
    Named (sessions.foldl (mergeLegacySession tombstones) byId) ∧
      ∀ id, tombstones.has id = true → (sessions.foldl (mergeLegacySession tombstones) byId).get id = none := by
  induction sessions generalizing byId with
  | nil => exact ⟨named, buried⟩
  | cons session rest ih =>
    rw [List.foldl_cons, mergeLegacySession]
    split
    next => exact ih named buried
    next alive =>
      apply ih (named.set rfl)
      intro id dead
      have apart : id ≠ session.sessionId := by
        rintro rfl
        exact alive dead
      rw [Dictionary.get_set_of_ne apart]
      exact buried id dead

theorem orderSessions_erase (localeCompare : Comparator String) {byId : Dictionary String ApiSessionListItem}
    (named : Named byId) (id : String) :
    orderSessions localeCompare (byId.erase id) = (orderSessions localeCompare byId).filter (· ≠ id) := by
  have values : (byId.erase id).values = byId.values.filter fun session => session.sessionId ≠ id := by
    apply Dictionary.values_filter
    rintro ⟨other, session⟩ member
    rw [named other session (Dictionary.mem_entries.mp member)]
  rw [orderSessions, values, ← Comparator.filter_sort, orderSessions, List.filter_map]
  rfl

theorem create_consistent (localeCompare : Comparator String) : Consistent localeCompare createSessionListPagerState := by
  apply Consistent.of_core
  · intro id session wrong
    cases wrong
  · rfl
  · exact .nil
  · intro id
    simp [createSessionListPagerState, Dictionary.has]
  · intro id wrong
    cases wrong

theorem mergeSessionListPage_consistent (consistent : Consistent localeCompare state) (input : SessionListPage) :
    Consistent localeCompare (mergeSessionListPage localeCompare state input) := by
  rw [mergeSessionListPage]
  split
  next => exact consistent
  split
  next => exact consistent
  next =>
    generalize hfirst : (input.requestCursor.filter (· ≠ "")).isNone = firstPage
    -- The first page starts from nothing, a later one from the state.
    have start : Collected state.tombstones (if firstPage then [] else state.orderedPendingSessionIds)
        ⟨if firstPage then .empty else state.byId, if firstPage then .empty else state.activeInteractionBySessionId, []⟩ := by
      cases firstPage with
      | true =>
        constructor
        · intro id session wrong
          cases wrong
        · exact fun id _ => ⟨rfl, rfl⟩
        · intro id wrong
          cases wrong
      | false =>
        refine ⟨consistent.named, fun id dead => ?_, fun id present => ?_⟩
        · obtain ⟨gone, -, idle, -⟩ := consistent.buried id dead
          exact ⟨gone, idle⟩
        · exact (consistent.pending id).mpr present
    have page := mergeSessions_collected start input.sessions
    obtain ⟨once, listed⟩ := orderPending_spec (if firstPage then [] else state.orderedPendingSessionIds) _ _
    apply Consistent.of_core
    · exact page.named
    · rfl
    · exact once
    · intro id
      rw [listed id]
      exact ⟨fun both => both.2, fun present => ⟨page.pending id present, present⟩⟩
    · exact page.buried

theorem mergeLegacyOffsetSessionPage_consistent (consistent : Consistent localeCompare state) (input : LegacyOffsetPage) :
    Consistent localeCompare (mergeLegacyOffsetSessionPage localeCompare state input) := by
  rw [mergeLegacyOffsetSessionPage]
  split
  next => exact consistent
  next =>
    have start : Named (if input.replace then .empty else state.byId) ∧ ∀ id, state.tombstones.has id = true →
        (if input.replace then Dictionary.empty else state.byId).get id = none := by
      split
      · exact ⟨fun id session wrong => (by cases wrong), fun id _ => rfl⟩
      · exact ⟨consistent.named, fun id dead => (consistent.buried id dead).1⟩
    obtain ⟨named, buried⟩ := mergeLegacySessions_kept start.1 start.2 input.sessions
    apply Consistent.of_core
    · exact named
    · rfl
    · exact consistent.once
    · exact consistent.pending
    · exact fun id dead => ⟨buried id dead, (consistent.buried id dead).2.2.1⟩

theorem requested_consistent (consistent : Consistent localeCompare state) {sessionId : String}
    (interaction : SessionListActiveInteraction) (alive : state.tombstones.has sessionId = false) :
    Consistent localeCompare (reduceSessionListInteraction state (.requested sessionId interaction)) := by
  rw [reduceSessionListInteraction]
  split
  next => exact consistent
  next =>
    obtain ⟨once, listed⟩ := orderPending_spec state.orderedPendingSessionIds
      (state.activeInteractionBySessionId.set sessionId interaction) [sessionId]
    apply Consistent.of_core
    · exact consistent.named
    · exact consistent.ordered
    · exact once
    · intro id
      rw [listed id]
      refine ⟨fun both => both.2, fun present => ⟨?_, present⟩⟩
      by_cases same : id = sessionId
      · simp [same]
      · rw [Dictionary.has, Dictionary.get_set_of_ne same] at present
        exact List.mem_append_right _ ((consistent.pending id).mpr present)
    · intro id dead
      have apart : id ≠ sessionId := by
        rintro rfl
        simp [alive] at dead
      obtain ⟨gone, -, idle, -⟩ := consistent.buried id dead
      exact ⟨gone, by rwa [Dictionary.get_set_of_ne apart]⟩

theorem erase_has {items : Dictionary String SessionListActiveInteraction} {id other : String} :
    (items.erase id).has other = true ↔ other ≠ id ∧ items.has other = true := by
  by_cases same : other = id
  · simp [Dictionary.has, same]
  · simp [Dictionary.has, Dictionary.get_erase_of_ne same, same]

theorem clearInteraction_consistent (consistent : Consistent localeCompare state) (sessionId : String) :
    Consistent localeCompare (clearInteraction state sessionId) := by
  apply Consistent.of_core
  · exact consistent.named
  · exact consistent.ordered
  · exact consistent.once.filter _
  · intro id
    rw [clearInteraction, List.mem_filter, consistent.pending, erase_has, and_comm]
    simp
  · intro id dead
    obtain ⟨gone, -, idle, -⟩ := consistent.buried id dead
    refine ⟨gone, ?_⟩
    rw [clearInteraction, Dictionary.erase, Dictionary.get_filter, idle]
    rfl

theorem endInteraction_consistent (consistent : Consistent localeCompare state) (sessionId : String)
    (interactionId : Option String) : Consistent localeCompare (endInteraction state sessionId interactionId) := by
  rw [endInteraction]
  split
  next => exact consistent
  split
  next => exact consistent
  next => exact clearInteraction_consistent consistent sessionId

theorem upsertSessionListItem_consistent (consistent : Consistent localeCompare state) (session : ApiSessionListItem) :
    Consistent localeCompare (upsertSessionListItem localeCompare state session) := by
  rw [upsertSessionListItem]
  split
  next => exact consistent
  next alive =>
    have alive : state.tombstones.has session.sessionId = false := by simpa using alive
    have put (item : ApiSessionListItem) (same : item.sessionId = session.sessionId) : Consistent localeCompare { state with
        byId := state.byId.set session.sessionId item
        order := orderSessions localeCompare (state.byId.set session.sessionId item) } := by
      apply Consistent.of_core
      · exact Named.set consistent.named same
      · rfl
      · exact consistent.once
      · exact consistent.pending
      · intro id dead
        have apart : id ≠ session.sessionId := by
          rintro rfl
          simp [alive] at dead
        obtain ⟨gone, -, idle, -⟩ := consistent.buried id dead
        exact ⟨by rwa [Dictionary.get_set_of_ne apart], idle⟩
    have kept := put { session with activeInteraction := (state.byId.get session.sessionId).bind (·.activeInteraction) } rfl
    split
    next interaction _ => exact requested_consistent kept interaction alive
    next => exact kept

theorem tombstoneSessionListItem_consistent (consistent : Consistent localeCompare state) (sessionId : String) :
    Consistent localeCompare (tombstoneSessionListItem state sessionId) := by
  rw [tombstoneSessionListItem]
  split
  next => exact consistent
  next =>
    apply Consistent.of_core
    · exact Named.erase consistent.named sessionId
    · rw [orderSessions_erase localeCompare consistent.named, ← consistent.ordered]
    · exact consistent.once.filter _
    · intro id
      rw [List.mem_filter, consistent.pending, erase_has, and_comm]
      simp
    · intro id dead
      by_cases same : id = sessionId
      · simp [same]
      · rw [Dictionary.has, Dictionary.get_set_of_ne same] at dead
        obtain ⟨gone, -, idle, -⟩ := consistent.buried id dead
        rw [Dictionary.get_erase_of_ne same, Dictionary.get_erase_of_ne same]
        exact ⟨gone, idle⟩

def Revives (state : SessionListPagerState) : PagerCall → Prop
  | .interaction (.requested sessionId _) => state.tombstones.has sessionId = true
  | _ => False

/-- One call keeps the collections together if and only if it revives no session. -/
theorem callPager_iff (consistent : Consistent localeCompare state) (call : PagerCall) :
    Consistent localeCompare (callPager localeCompare state call) ↔ ¬Revives state call := by
  cases call with
  | beginRefresh =>
    refine iff_of_true ?_ (fun wrong => wrong)
    exact ⟨consistent.named, consistent.ordered, consistent.keys, consistent.buried, consistent.once, consistent.pending⟩
  | mergePage input => exact iff_of_true (mergeSessionListPage_consistent consistent input) fun wrong => wrong
  | mergeLegacyPage input => exact iff_of_true (mergeLegacyOffsetSessionPage_consistent consistent input) fun wrong => wrong
  | upsert session => exact iff_of_true (upsertSessionListItem_consistent consistent session) fun wrong => wrong
  | tombstone sessionId => exact iff_of_true (tombstoneSessionListItem_consistent consistent sessionId) fun wrong => wrong
  | interaction event =>
    cases event with
    | requested sessionId interaction =>
      constructor
      · intro kept dead
        -- No interaction of a tombstoned session is there to refuse the new one.
        obtain ⟨-, -, idle, -⟩ := consistent.buried sessionId dead
        have tombstones : (callPager localeCompare state (.interaction (.requested sessionId interaction))).tombstones =
            state.tombstones := by
          simp [callPager, reduceSessionListInteraction, idle]
        obtain ⟨-, -, wrong, -⟩ := kept.buried sessionId (tombstones ▸ dead)
        simp [callPager, reduceSessionListInteraction, idle] at wrong
      · intro alive
        exact requested_consistent consistent interaction (by simpa [Revives] using alive)
    | ack sessionId interactionId status =>
      refine iff_of_true ?_ fun wrong => wrong
      rw [callPager, reduceSessionListInteraction]
      split
      next => exact consistent
      next => exact endInteraction_consistent consistent _ _
    | ended type sessionId interactionId =>
      exact iff_of_true (endInteraction_consistent consistent _ _) fun wrong => wrong

/-- No call revives a session that is tombstoned when it comes. -/
def NoneRevives (localeCompare : Comparator String) (state : SessionListPagerState) : List PagerCall → Prop
  | [] => True
  | call :: rest => ¬Revives state call ∧ NoneRevives localeCompare (callPager localeCompare state call) rest

theorem calls_consistent (consistent : Consistent localeCompare state) (calls : List PagerCall)
    (none : NoneRevives localeCompare state calls) : Consistent localeCompare (calls.foldl (callPager localeCompare) state) := by
  induction calls generalizing state with
  | nil => exact consistent
  | cons call rest ih => exact ih ((callPager_iff consistent call).mpr none.1) none.2

/-- While no call requests an interaction of a tombstoned session, the collections fit
together; and the next call keeps them so if and only if it does not either. -/
theorem pager_consistent_iff (localeCompare : Comparator String) (calls : List PagerCall)
    (none : NoneRevives localeCompare createSessionListPagerState calls) :
    let state := calls.foldl (callPager localeCompare) createSessionListPagerState
    Consistent localeCompare state ∧
      ∀ call, Consistent localeCompare (callPager localeCompare state call) ↔ ¬Revives state call := by
  have consistent := calls_consistent (create_consistent localeCompare) calls none
  exact ⟨consistent, fun call => callPager_iff consistent call⟩

def plainOrder : Comparator String := Comparator.ofLinearOrder String

def waiting : SessionListActiveInteraction := ⟨"i1", .askUser, 1⟩

/-- A page, a request of one of its sessions and its deletion. -/
theorem pager_consistent_page :
    let calls : List PagerCall := [.mergePage ⟨[⟨"s1", 5, none⟩, ⟨"s2", 5, none⟩], false, none, 0, none⟩,
      .interaction (.requested "s1" waiting), .tombstone "s2"]
    Consistent plainOrder (calls.foldl (callPager plainOrder) createSessionListPagerState) := by
  apply (pager_consistent_iff plainOrder _ _).1
  refine ⟨fun wrong => wrong, ?_, fun wrong => wrong, trivial⟩
  unfold Revives
  decide +kernel

/-- A request that comes after the deletion makes the session pending again. -/
theorem tombstoned_pending :
    let state := [.tombstone "s1", .interaction (.requested "s1" waiting)].foldl (callPager plainOrder)
      createSessionListPagerState
    state.tombstones.has "s1" = true ∧ state.orderedPendingSessionIds = ["s1"] ∧
      state.activeInteractionBySessionId.get "s1" = some waiting := by
  decide +kernel

end AgentSaas.Proofs.SessionListPager
