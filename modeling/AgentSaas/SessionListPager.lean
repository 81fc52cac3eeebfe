import AgentSaas.Dictionaries
import AgentSaas.Sorting

/-! The client's list of sessions, paged from the server, with the interactions that wait
for the user pinned on top. -/

namespace AgentSaas.SessionListPager
open Dictionaries Sorting

inductive InteractionType where
  | askUser | permissionRequest | approval
  deriving DecidableEq, Repr

structure SessionListActiveInteraction where
  interactionId : String
  type : InteractionType
  version : Int
  deriving DecidableEq, Repr

structure ApiSessionListItem where
  sessionId : String
  updatedAtMs : Int
  activeInteraction : Option SessionListActiveInteraction
  deriving DecidableEq, Repr

inductive PagingMode where
  | cursor | offset
  deriving DecidableEq, Repr

structure SessionListPagerState where
  generation : Nat
  byId : Dictionary String ApiSessionListItem
  order : List String
  tombstones : Dictionary String Unit
  nextCursor : Option String
  hasMore : Bool
  pagingMode : Option PagingMode
  activeInteractionBySessionId : Dictionary String SessionListActiveInteraction
  orderedPendingSessionIds : List String

inductive AckStatus where
  | accepted | duplicate | resolved | rejected | notFound | expired
  deriving DecidableEq, Repr

inductive EndedType where
  | resolved | cancelled | terminal
  deriving DecidableEq, Repr

inductive SessionListInteractionEvent where
  | requested (sessionId : String) (interaction : SessionListActiveInteraction)
  | ack (sessionId interactionId : String) (status : AckStatus)
  | ended (type : EndedType) (sessionId : String) (interactionId : Option String)

structure SessionListPage where
  sessions : List ApiSessionListItem
  hasMore : Bool
  nextCursor : Option String
  generation : Nat
  requestCursor : Option String

structure LegacyOffsetPage where
  generation : Nat
  sessions : List ApiSessionListItem
  hasMore : Bool
  replace : Bool

def createSessionListPagerState : SessionListPagerState := ⟨0, .empty, [], .empty, none, true, none, .empty, []⟩

/-- What an element of a page does to the page's three collections. -/
structure PageCollections where
  byId : Dictionary String ApiSessionListItem
  active : Dictionary String SessionListActiveInteraction
  pagePending : List String

section Pager

-- `localeCompare`
variable (localeCompare : Comparator String)

def compareSessionListItems : Comparator ApiSessionListItem :=
  Comparator.newestFirst localeCompare (·.updatedAtMs) (·.sessionId)

def orderSessions (byId : Dictionary String ApiSessionListItem) : List String :=
  ((compareSessionListItems localeCompare).sort byId.values).map (·.sessionId)

def orderPendingStep (active : Dictionary String SessionListActiveInteraction) (result : List String) (id : String) :
    List String :=
  if id ∉ result ∧ active.has id then result ++ [id] else result

def orderPending (current : List String) (active : Dictionary String SessionListActiveInteraction)
    (preferred : List String) : List String :=
  (preferred ++ current).foldl (orderPendingStep active) []

def beginSessionListRefresh (state : SessionListPagerState) : SessionListPagerState :=
  { state with generation := state.generation + 1, nextCursor := none, hasMore := true, pagingMode := some .cursor }

def withoutInteraction (session : ApiSessionListItem) : ApiSessionListItem := { session with activeInteraction := none }

def mergeSession (tombstones : Dictionary String Unit) (page : PageCollections) (session : ApiSessionListItem) :
    PageCollections :=
  if tombstones.has session.sessionId then page
  else
    let byId := page.byId.set session.sessionId (withoutInteraction session)
    match session.activeInteraction with
    | some interaction =>
      { byId
        active := page.active.set session.sessionId interaction
        pagePending := page.pagePending ++ [session.sessionId] }
    | none => { page with byId, active := page.active.erase session.sessionId }

def mergeSessionListPage (state : SessionListPagerState) (input : SessionListPage) : SessionListPagerState :=
  if input.generation ≠ state.generation then state
  else if state.pagingMode = some .offset then state
  else
    let firstPage := (input.requestCursor.filter (· ≠ "")).isNone
    let page := input.sessions.foldl (mergeSession state.tombstones)
      ⟨if firstPage then .empty else state.byId,
        if firstPage then .empty else state.activeInteractionBySessionId, []⟩
    { state with
      byId := page.byId
      order := orderSessions localeCompare page.byId
      nextCursor := input.nextCursor
      hasMore := input.hasMore
      pagingMode := some .cursor
      activeInteractionBySessionId := page.active
      orderedPendingSessionIds :=
        orderPending (if firstPage then [] else state.orderedPendingSessionIds) page.active page.pagePending }

def mergeLegacySession (tombstones : Dictionary String Unit) (byId : Dictionary String ApiSessionListItem)
    (session : ApiSessionListItem) : Dictionary String ApiSessionListItem :=
  if tombstones.has session.sessionId then byId else byId.set session.sessionId session

def mergeLegacyOffsetSessionPage (state : SessionListPagerState) (input : LegacyOffsetPage) : SessionListPagerState :=
  if input.generation ≠ state.generation ∨ state.pagingMode = some .cursor then state
  else
    let byId := input.sessions.foldl (mergeLegacySession state.tombstones) (if input.replace then .empty else state.byId)
    { state with
      byId
      order := orderSessions localeCompare byId
      hasMore := input.hasMore
      pagingMode := some .offset }

def clearInteraction (state : SessionListPagerState) (sessionId : String) : SessionListPagerState :=
  { state with
    activeInteractionBySessionId := state.activeInteractionBySessionId.erase sessionId
    orderedPendingSessionIds := state.orderedPendingSessionIds.filter (· ≠ sessionId) }

/-- The tail of `reduceSessionListInteraction`, for the events that end an interaction. -/
def endInteraction (state : SessionListPagerState) (sessionId : String) (interactionId : Option String) :
    SessionListPagerState :=
  let current := state.activeInteractionBySessionId.get sessionId
  if (interactionId.filter (· ≠ "")).any fun interactionId => current.map (·.interactionId) ≠ some interactionId then state
  else if current.isNone then state
  else clearInteraction state sessionId

def reduceSessionListInteraction (state : SessionListPagerState) : SessionListInteractionEvent → SessionListPagerState
  | .requested sessionId interaction =>
    if (state.activeInteractionBySessionId.get sessionId).any (·.version > interaction.version) then state
    else
      let active := state.activeInteractionBySessionId.set sessionId interaction
      { state with
        activeInteractionBySessionId := active
        orderedPendingSessionIds := orderPending state.orderedPendingSessionIds active [sessionId] }
  | .ack sessionId interactionId status =>
    if status = .accepted ∨ status = .duplicate then state else endInteraction state sessionId (some interactionId)
  | .ended _ sessionId interactionId => endInteraction state sessionId interactionId

def upsertSessionListItem (state : SessionListPagerState) (session : ApiSessionListItem) : SessionListPagerState :=
  if state.tombstones.has session.sessionId then state
  else
    let previous := state.byId.get session.sessionId
    let byId := state.byId.set session.sessionId
      { session with activeInteraction := previous.bind (·.activeInteraction) }
    let next := { state with byId, order := orderSessions localeCompare byId }
    match session.activeInteraction with
    | some interaction => reduceSessionListInteraction next (.requested session.sessionId interaction)
    | none => next

def tombstoneSessionListItem (state : SessionListPagerState) (sessionId : String) : SessionListPagerState :=
  if state.tombstones.has sessionId then state
  else
    { state with
      byId := state.byId.erase sessionId
      order := state.order.filter (· ≠ sessionId)
      tombstones := state.tombstones.set sessionId ()
      activeInteractionBySessionId := state.activeInteractionBySessionId.erase sessionId
      orderedPendingSessionIds := state.orderedPendingSessionIds.filter (· ≠ sessionId) }

/-- One call on the pager. -/
inductive PagerCall where
  | beginRefresh
  | mergePage (input : SessionListPage)
  | mergeLegacyPage (input : LegacyOffsetPage)
  | upsert (session : ApiSessionListItem)
  | tombstone (sessionId : String)
  | interaction (event : SessionListInteractionEvent)

def callPager (state : SessionListPagerState) : PagerCall → SessionListPagerState
  | .beginRefresh => beginSessionListRefresh state
  | .mergePage input => mergeSessionListPage localeCompare state input
  | .mergeLegacyPage input => mergeLegacyOffsetSessionPage localeCompare state input
  | .upsert session => upsertSessionListItem localeCompare state session
  | .tombstone sessionId => tombstoneSessionListItem state sessionId
  | .interaction event => reduceSessionListInteraction state event

end Pager

end AgentSaas.SessionListPager
