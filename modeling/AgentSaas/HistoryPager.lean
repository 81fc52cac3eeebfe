import AgentSaas.Dictionaries
import AgentSaas.Sorting

/-! The history of a session as the clients page it: older pages, live items and deletions
meet in one state. -/

namespace AgentSaas.HistoryPager
open Dictionaries Sorting

structure HistorySemanticOrder where
  sequence : Int
  eventIndex : Int
  stableId : String
  deriving DecidableEq, Repr

structure HistorySemanticItem (τ : Type) where
  semanticId : String
  order : Option HistorySemanticOrder
  value : τ

structure HistoryPage (τ : Type) where
  items : List (HistorySemanticItem τ)
  historyRevision : String
  hasMore : Bool
  nextCursor : Option String
  requestCursor : Option String
  generation : Int

structure StoredHistoryItem (τ : Type) extends HistorySemanticItem τ where
  arrival : Int

structure HistoryPagerState (τ : Type) where
  generation : Int
  historyRevision : Option String
  byId : Dictionary String (StoredHistoryItem τ)
  orderedIds : List String
  tombstones : Dictionary String Unit
  nextCursor : Option String
  hasMore : Bool
  arrivalSequence : Int

inductive HistoryPagerAction (τ : Type)
  | reset (generation : Int)
  | page (page : HistoryPage τ)
  | upsert (generation : Int) (historyRevision : Option String) (item : HistorySemanticItem τ)
  | tombstone (generation : Int) (historyRevision : Option String) (semanticId : String)
  | compaction (generation : Int) (historyRevision : String) (items : List (HistorySemanticItem τ)) (hasMore : Bool)
      (nextCursor : Option String)

variable {τ : Type}

def createHistoryPagerState (generation : Int) : HistoryPagerState τ where
  generation
  historyRevision := none
  byId := .empty
  orderedIds := []
  tombstones := .empty
  nextCursor := none
  hasMore := true
  arrivalSequence := 0

def truthy (text : Option String) : Option String := text.filter (· ≠ "")

/-- `state.historyRevision && actionRevision && actionRevision !== state.historyRevision` -/
def otherRevision (stateRevision actionRevision : Option String) : Bool :=
  match truthy stateRevision, truthy actionRevision with
  | some known, some asked => asked != known
  | _, _ => false

structure Merge (τ : Type) where
  byId : Dictionary String (StoredHistoryItem τ)
  arrivalSequence : Int
  changed : Bool

def skips (tombstones : Dictionary String Unit) (item : HistorySemanticItem τ) : Bool :=
  item.semanticId = "" || tombstones.has item.semanticId

def putItem (tombstones : Dictionary String Unit) (merge : Merge τ) (item : HistorySemanticItem τ) : Merge τ :=
  if skips tombstones item then merge
  else
    let prior := merge.byId.get item.semanticId
    let stored : StoredHistoryItem τ :=
      { item with
        order := item.order <|> prior.bind (·.order)
        arrival := (prior.map (·.arrival)).getD merge.arrivalSequence }
    { byId := merge.byId.set item.semanticId stored
      arrivalSequence := if prior.isSome then merge.arrivalSequence else merge.arrivalSequence + 1
      changed := true }

section Reducer

-- `localeCompare`
variable (localeCompare : Comparator String)

def compareHistorySemanticOrder : Comparator (Option HistorySemanticOrder) :=
  .missingLast (.andThen (.onKey .numbers (·.sequence))
    (.andThen (.onKey .numbers (·.eventIndex)) (.onKey localeCompare (·.stableId))))

/-- `byId[id]` of the two ids. -/
def compareItems : Comparator (String × StoredHistoryItem τ) :=
  .andThen (.onKey (compareHistorySemanticOrder localeCompare) (·.2.order))
    (.andThen (.onKey .numbers (·.2.arrival)) (.onKey localeCompare (·.2.semanticId)))

def sortIds (byId : Dictionary String (StoredHistoryItem τ)) : List String :=
  ((compareItems localeCompare).sort byId.entries).map Prod.fst

/-- The last item of an id wins, and counts as an arrival of its own. -/
def place (merge : Merge τ) (item : HistorySemanticItem τ) : Merge τ :=
  if item.semanticId = "" then merge
  else
    { merge with
      byId := merge.byId.set item.semanticId { item with arrival := merge.arrivalSequence }
      arrivalSequence := merge.arrivalSequence + 1 }

def replaceWithItems (generation : Int) (historyRevision : String) (items : List (HistorySemanticItem τ)) (hasMore : Bool)
    (nextCursor : Option String) : HistoryPagerState τ :=
  let placed := items.foldl place ⟨.empty, 0, false⟩
  { generation
    historyRevision := some historyRevision
    byId := placed.byId
    orderedIds := sortIds localeCompare placed.byId
    tombstones := .empty
    nextCursor := truthy nextCursor
    hasMore
    arrivalSequence := placed.arrivalSequence }

def applyTombstone (state : HistoryPagerState τ) (historyRevision : Option String) (semanticId : String) :
    HistoryPagerState τ :=
  if semanticId = "" || state.tombstones.has semanticId then state
  else
    { state with
      historyRevision := state.historyRevision <|> historyRevision
      byId := state.byId.erase semanticId
      orderedIds := state.orderedIds.filter (· ≠ semanticId)
      tombstones := state.tombstones.set semanticId () }

/-- Of a page, or of one live item: only a page has a cursor, and without one there is none. -/
def mergeItems (state : HistoryPagerState τ) (actionRevision : Option String) (incoming : List (HistorySemanticItem τ))
    (page : Option (HistoryPage τ)) : HistoryPagerState τ :=
  let merged := incoming.foldl (putItem state.tombstones) ⟨state.byId, state.arrivalSequence, false⟩
  if !merged.changed && page.isNone then state
  else
    { state with
      historyRevision := state.historyRevision <|> actionRevision
      byId := merged.byId
      orderedIds := if merged.changed then sortIds localeCompare merged.byId else state.orderedIds
      nextCursor := truthy (page.bind (·.nextCursor))
      hasMore := (page.map (·.hasMore)).getD state.hasMore
      arrivalSequence := merged.arrivalSequence }

def reduceHistoryPager (state : HistoryPagerState τ) : HistoryPagerAction τ → HistoryPagerState τ
  | .reset generation => if generation = state.generation then state else createHistoryPagerState generation
  | .compaction generation historyRevision items hasMore nextCursor =>
    if generation ≠ state.generation then state
    else replaceWithItems localeCompare state.generation historyRevision items hasMore nextCursor
  | .page page =>
    if page.generation ≠ state.generation then state
    else if otherRevision state.historyRevision (some page.historyRevision) then
      -- Only a latest-page request may establish a new revision.
      if page.requestCursor = none then
        replaceWithItems localeCompare state.generation page.historyRevision page.items page.hasMore page.nextCursor
      else state
    else mergeItems localeCompare state (some page.historyRevision) page.items (some page)
  | .upsert generation historyRevision item =>
    if generation ≠ state.generation || otherRevision state.historyRevision historyRevision then state
    else mergeItems localeCompare state historyRevision [item] none
  | .tombstone generation historyRevision semanticId =>
    if generation ≠ state.generation || otherRevision state.historyRevision historyRevision then state
    else applyTombstone state historyRevision semanticId

end Reducer

end AgentSaas.HistoryPager
