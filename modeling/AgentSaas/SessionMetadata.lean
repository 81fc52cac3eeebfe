import AgentSaas.Dictionaries
import AgentSaas.Sorting

/-! The client's reducer of session metadata: versioned patches, tombstones and reads that
are shown before the server has confirmed them. -/

namespace AgentSaas.SessionMetadata
open Dictionaries Sorting

/-- The fields that the reducer reads or writes, and two of those it carries along; nothing for
`undefined`. -/
structure CanonicalSessionMetadata where
  sessionId : String
  updatedAtMs : Int
  version : Option Int
  hasUnread : Bool
  hasUnreadAiReply : Bool
  deleted : Bool
  serverUpdatedAt : Option String
  sourceSeq : Option Int
  title : Option String
  preview : Option String
  deriving DecidableEq, Repr

structure SessionMetadataState where
  byId : Dictionary String CanonicalSessionMetadata
  order : List String
  selectedSessionId : Option String
  identityGeneration : Option String
  pendingRead : Dictionary String CanonicalSessionMetadata

/-- A key of a patch: it may be absent, and present without a value. -/
abbrev Field (α : Type) := Option (Option α)

/-- The key's value, or what was there before the patch was spread over it. -/
def Field.over {α : Type} (field : Field α) (prior : Option α) : Option α := field.getD prior

structure SessionMetadataPatch where
  sessionId : String
  updatedAtMs : Option Int
  version : Field Int
  hasUnread : Field Bool
  hasUnreadAiReply : Field Bool
  deleted : Field Bool
  serverUpdatedAt : Field String
  sourceSeq : Field Int
  serverVersion : Field Int
  updatedAt : Field String
  title : Field String
  preview : Field String
  deriving DecidableEq, Repr

inductive SessionMetadataAction where
  | hydrate (sessions : List SessionMetadataPatch) (authoritative : Bool)
  | metadata (session : SessionMetadataPatch)
  | delete (sessionId : String) (serverVersion : Option Int) (updatedAt : Option String) (sourceSeq : Option Int)
  | select (sessionId : Option String)
  | readOptimistic (sessionId : String)
  | readAck (session : SessionMetadataPatch)
  | readFailed (sessionId : String)
  | identityReset (generation : Option String)
  | accessLost (sessionId : String)

def createSessionMetadataState (generation : Option String) : SessionMetadataState :=
  ⟨.empty, [], none, generation, .empty⟩

def normalized (patch : SessionMetadataPatch) (prior : Option CanonicalSessionMetadata) : CanonicalSessionMetadata where
  sessionId := patch.sessionId
  updatedAtMs := (patch.updatedAtMs <|> prior.map (·.updatedAtMs)).getD 0
  version := patch.serverVersion.join <|> patch.version.over (prior.bind (·.version))
  hasUnread :=
    (patch.hasUnread.over (prior.map (·.hasUnread) <|> patch.hasUnreadAiReply.join)).getD false
  hasUnreadAiReply := (patch.hasUnreadAiReply.over (prior.map (·.hasUnreadAiReply))).getD false
  deleted := (patch.deleted.over (prior.map (·.deleted))).getD false
  serverUpdatedAt := patch.updatedAt.join <|> patch.serverUpdatedAt.over (prior.bind (·.serverUpdatedAt))
  sourceSeq := patch.sourceSeq.over (prior.bind (·.sourceSeq))
  title := patch.title.over (prior.bind (·.title))
  preview := patch.preview.over (prior.bind (·.preview))

structure Clock where
  version : Option Int
  sourceSeq : Option Int
  updatedMs : Option Int

section Reducer

-- `Date.parse`, with nothing for `NaN`, and `localeCompare`.
variable (dateParse : String → Option Int) (localeCompare : Comparator String)

def parseUpdated (updated : Option String) : Option Int := updated.filter (· ≠ "") >>= dateParse

/-- `clockOf` of a patch, whose own names go first. -/
def clockOfPatch (patch : SessionMetadataPatch) : Clock where
  version := patch.serverVersion.over patch.version.join
  sourceSeq := patch.sourceSeq.join
  updatedMs := parseUpdated dateParse (patch.updatedAt.over patch.serverUpdatedAt.join)

/-- `clockOf` of a session. -/
def clockOf (session : CanonicalSessionMetadata) : Clock where
  version := session.version
  sourceSeq := session.sourceSeq
  updatedMs := parseUpdated dateParse session.serverUpdatedAt

def isNewerOrEqual (prior : Option CanonicalSessionMetadata) (patch : SessionMetadataPatch) : Bool :=
  match prior with
  | none => true
  | some prior =>
    let old := clockOf dateParse prior
    let new := clockOfPatch dateParse patch
    match old.version, new.version with
    | some pv, nv => nv.any (· ≥ pv)
    | none, some _ => true
    | none, none =>
      match old.sourceSeq, new.sourceSeq with
      | some ps, ns => ns.any (· ≥ ps)
      | none, some _ => true
      | none, none =>
        match old.updatedMs, new.updatedMs with
        | some pt, some nt => nt ≥ pt
        | some _, none => false
        | none, _ => true

def newestFirst : Comparator CanonicalSessionMetadata :=
  Comparator.newestFirst localeCompare (·.updatedAtMs) (·.sessionId)

def sortedOrder (byId : Dictionary String CanonicalSessionMetadata) : List String :=
  ((newestFirst localeCompare).sort (byId.values.filter (!·.deleted))).map (·.sessionId)

def fallbackSelection (state : SessionMetadataState) (byId : Dictionary String CanonicalSessionMetadata)
    (removedId : String) : Option String :=
  if state.selectedSessionId ≠ some removedId then state.selectedSessionId
  else
    let oldIndex := (state.order.idxOf? removedId).getD 0
    let order := sortedOrder localeCompare byId
    order[min oldIndex (order.length - 1)]?

def isDeleted (byId : Dictionary String CanonicalSessionMetadata) (sessionId : String) : Bool :=
  (byId.get sessionId).any (·.deleted)

/-- The patch is neither stale nor for a tombstone. -/
def accepts (state : SessionMetadataState) (patch : SessionMetadataPatch) : Bool :=
  !isDeleted state.byId patch.sessionId && isNewerOrEqual dateParse (state.byId.get patch.sessionId) patch

def applyPatch (state : SessionMetadataState) (patch : SessionMetadataPatch) : SessionMetadataState :=
  if !accepts dateParse state patch then state
  else
    let byId := state.byId.set patch.sessionId (normalized patch (state.byId.get patch.sessionId))
    { state with byId, order := sortedOrder localeCompare byId }

/-- The authoritative list has the last word on which sessions there are. -/
def dropUnlisted (state : SessionMetadataState) (incoming : List String) : SessionMetadataState :=
  let byId := state.byId.filter fun id session => id ∈ incoming || session.deleted
  let next := { state with byId, order := sortedOrder localeCompare byId }
  if (next.selectedSessionId.filter (· ≠ "")).any (!byId.has ·) then { next with selectedSessionId := none } else next

def hydrate (state : SessionMetadataState) (sessions : List SessionMetadataPatch) (authoritative : Bool) :
    SessionMetadataState :=
  let next := sessions.foldl (applyPatch dateParse localeCompare) state
  if authoritative then dropUnlisted localeCompare next (sessions.map (·.sessionId)) else next

def deletion (sessionId : String) (serverVersion : Option Int) (updatedAt : Option String) (sourceSeq : Option Int) :
    SessionMetadataPatch where
  sessionId := sessionId
  updatedAtMs := none
  version := none
  hasUnread := none
  hasUnreadAiReply := none
  deleted := some (some true)
  serverUpdatedAt := none
  sourceSeq := some sourceSeq
  serverVersion := some serverVersion
  updatedAt := some updatedAt
  title := none
  preview := none

def deleteSession (state : SessionMetadataState) (patch : SessionMetadataPatch) : SessionMetadataState :=
  if isDeleted state.byId patch.sessionId then state
  else
    let byId := state.byId.set patch.sessionId (normalized patch (state.byId.get patch.sessionId))
    { state with
      byId
      order := sortedOrder localeCompare byId
      pendingRead := state.pendingRead.erase patch.sessionId
      selectedSessionId := fallbackSelection localeCompare state byId patch.sessionId }

def readOptimistic (state : SessionMetadataState) (sessionId : String) : SessionMetadataState :=
  match state.byId.get sessionId with
  | none => state
  | some prior =>
    if prior.deleted || !prior.hasUnread then state
    else
      { state with
        byId := state.byId.set sessionId { prior with hasUnread := false, hasUnreadAiReply := false }
        pendingRead := state.pendingRead.set sessionId prior }

def advanced (snapshot : CanonicalSessionMetadata) (current : Option CanonicalSessionMetadata) : Bool :=
  match current.bind (·.version), snapshot.version with
  | some current, some snapshot => current > snapshot
  | some _, none => false
  | none, _ =>
    match current.bind (·.sourceSeq), snapshot.sourceSeq with
    | some current, some snapshot => current > snapshot
    | _, _ => false

def readFailed (state : SessionMetadataState) (sessionId : String) : SessionMetadataState :=
  match state.pendingRead.get sessionId with
  | none => state
  | some snapshot =>
    let pendingRead := state.pendingRead.erase sessionId
    if advanced snapshot (state.byId.get sessionId) then { state with pendingRead }
    else { state with byId := state.byId.set sessionId snapshot, pendingRead }

def reduceSessionMetadata (state : SessionMetadataState) : SessionMetadataAction → SessionMetadataState
  | .identityReset generation =>
    if generation = state.identityGeneration then state else createSessionMetadataState generation
  | .select sessionId =>
    if sessionId.all fun sessionId => state.byId.has sessionId && !isDeleted state.byId sessionId then
      { state with selectedSessionId := sessionId }
    else state
  | .hydrate sessions authoritative => hydrate dateParse localeCompare state sessions authoritative
  | .metadata session => applyPatch dateParse localeCompare state session
  | .readAck session =>
    let next := applyPatch dateParse localeCompare state session
    { next with pendingRead := next.pendingRead.erase session.sessionId }
  | .delete sessionId serverVersion updatedAt sourceSeq =>
    deleteSession localeCompare state (deletion sessionId serverVersion updatedAt sourceSeq)
  | .accessLost sessionId => deleteSession localeCompare state (deletion sessionId none none none)
  | .readOptimistic sessionId => readOptimistic state sessionId
  | .readFailed sessionId => readFailed state sessionId

end Reducer

end AgentSaas.SessionMetadata
