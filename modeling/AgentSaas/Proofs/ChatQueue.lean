import AgentSaas.ChatQueue

/-! The queue's keys: every item under its own `clientMsgId`, in the order once, and no
local intent for it. -/

namespace AgentSaas.Proofs.ChatQueue
open AgentSaas.ChatQueue AgentSaas.Dictionaries

variable {dateParse : String → Option Int} {state : ChatQueueState}

structure Linked (state : ChatQueueState) : Prop where
  nodup : state.order.Nodup
  listed : ∀ key, key ∈ state.order ↔ state.items.has key = true
  keyed : ∀ key item, state.items.get key = some item → item.clientMsgId = key
  intents : ∀ key intent, state.localIntents.get key = some intent → intent.clientMsgId = key
  apart : ∀ key, state.items.has key = true → state.localIntents.get key = none

def Homed (state : ChatQueueState) : Prop :=
  state.sessionId ≠ some "" → ∀ key item, state.items.get key = some item → state.sessionId = some item.sessionId

theorem has_iff {items : Dictionary String ChatQueueItem} {key : String} :
    items.has key = true ↔ ∃ item, items.get key = some item := Option.isSome_iff_exists

theorem nodup_eraseDups (keys : List String) : keys.eraseDups.Nodup := by
  -- By the length: the rest is deduplicated without its head.
  induction size : keys.length using Nat.strongRecOn generalizing keys with
  | ind size ih =>
    cases keys with
    | nil => simp
    | cons key rest =>
      rw [List.eraseDups_cons, List.nodup_cons, List.mem_eraseDups]
      constructor
      · simp
      · have shorter := List.length_filter_le (fun other => !other == key) rest
        simp only [List.length_cons] at size
        exact ih _ (by omega) _ rfl

theorem mem_replaceKey {order : List String} {existingKey : Option String} {key other : String}
    (listed : ∀ existing, existingKey = some existing → existing ∈ order) :
    other ∈ replaceKey order existingKey key ↔ other = key ∨ other ∈ order ∧ existingKey ≠ some other := by
  cases existingKey with
  | none =>
    simp only [replaceKey, List.mem_eraseDups, List.mem_append, List.mem_singleton]
    simp [or_comm]
  | some existing =>
    simp only [replaceKey, List.mem_eraseDups, List.mem_map]
    constructor
    · rintro ⟨candidate, member, rfl⟩
      split
      next => exact .inl rfl
      next apart => exact .inr ⟨member, fun wrong => apart (Option.some.inj wrong).symm⟩
    · rintro (rfl | ⟨member, apart⟩)
      · exact ⟨existing, listed existing rfl, if_pos rfl⟩
      · exact ⟨other, member, if_neg fun wrong => apart (congrArg some wrong.symm)⟩

theorem truthy_eq_self {text : Option String} (filled : text ≠ some "") : truthy text = text := by
  cases text with
  | none => rfl
  | some text =>
    have filled : text ≠ "" := fun wrong => filled (congrArg some wrong)
    simp [truthy, Option.filter, filled]

theorem Linked.put {next : ChatQueueState} (linked : Linked state) {existingKey : Option String} {item : ChatQueueItem}
    (listed : ∀ existing, existingKey = some existing → existing ∈ state.order)
    (order : next.order = replaceKey state.order existingKey item.clientMsgId)
    (localIntents : next.localIntents = state.localIntents.erase item.clientMsgId)
    (items : ∀ key, next.items.get key =
      if key = item.clientMsgId then some item else if existingKey = some key then none else state.items.get key) :
    Linked next where
  nodup := order ▸ nodup_eraseDups _
  listed := by
    intro key
    rw [order, mem_replaceKey listed, linked.listed, Dictionary.has, Dictionary.has, items]
    by_cases same : key = item.clientMsgId
    · simp [same]
    · by_cases moved : existingKey = some key <;> simp [same, moved]
  keyed := by
    intro key found
    rw [items]
    split
    next same =>
      rintro ⟨⟩
      exact same.symm
    next =>
      split
      next =>
        intro absent
        cases absent
      next => exact linked.keyed key found
  intents := by
    intro key intent
    rw [localIntents, Dictionary.erase, Dictionary.get_filter]
    intro found
    exact linked.intents key intent (Option.filter_eq_some_iff.mp found).1
  apart := by
    intro key present
    rw [localIntents]
    by_cases same : key = item.clientMsgId
    · rw [same, Dictionary.get_erase_self]
    · rw [Dictionary.get_erase_of_ne same]
      apply linked.apart key
      rw [Dictionary.has, items, if_neg same] at present
      split at present
      · cases present
      · exact present

/-- What the loop of `normalizeSnapshot` has collected. -/
structure Collected (sessionId : String) (normalized : Normalized) : Prop where
  seen : ∀ item ∈ normalized.items, item.clientMsgId ∈ normalized.seenClientIds
  nodup : (normalized.items.map (·.clientMsgId)).Nodup
  session : ∀ item ∈ normalized.items, item.sessionId = sessionId

/-- The hydrated items, each under its own name. -/
def hydrated (state : ChatQueueState) (items : List ChatQueueItem) (table : Dictionary String ChatQueueItem) :
    Dictionary String ChatQueueItem :=
  items.foldl (fun items item => items.set item.clientMsgId (hydratedItem state item)) table

def Kept (state : ChatQueueState) : Prop := Linked state ∧ Homed state

theorem Kept.intents (kept : Kept state) {localIntents : Dictionary String ChatQueueLocalIntent}
    (keyed : ∀ key intent, localIntents.get key = some intent → intent.clientMsgId = key)
    (apart : ∀ key, state.items.has key = true → localIntents.get key = none) :
    Kept { state with localIntents } :=
  ⟨⟨kept.1.nodup, kept.1.listed, kept.1.keyed, keyed, apart⟩, kept.2⟩

def queuedPatch (sessionId clientMsgId runId : String) (status : ChatQueueStatus) (updatedAt : Option String) :
    ChatQueueItemPatch :=
  ⟨sessionId, some clientMsgId, some runId, none, none, status, none, none, none, none, none, updatedAt, none, none⟩

end AgentSaas.Proofs.ChatQueue
