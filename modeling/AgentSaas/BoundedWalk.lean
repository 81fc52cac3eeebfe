import AgentSaas.Base64Url
import AgentSaas.Hmac
import AgentSaas.JsonNumbers
import AgentSaas.Sorting
import AgentSaas.Utf8

/-! A walk over the relations of an entity, level by level. It stops at a number of candidates and
says so; the candidates are given out in pages. -/

namespace AgentSaas.BoundedWalk
open JsonValues JsonStrings JsonReader JsonNumbers Sorting
open ToolCallRepair (Text unit units)

def MAX_PAGE_SIZE := 50
def MAX_CANDIDATES := 200

/-- `/^[^\u0000]{1,500}$/` -/
def matchesIdPattern (text : Text) : Bool := 0 < text.length && text.length ≤ 500 && !text.contains 0

inductive RelationWalkError | walkInvalid | cursorInvalid
  deriving DecidableEq, Repr

/-- What else is known of the relation is `details`. -/
structure RelationEdgeCandidate (Details : Type) where
  relationId : Text
  fromEntityId : Text
  toEntityId : Text
  details : Details
  deriving DecidableEq, Repr

structure RelationReadInput where
  tenantId : Text
  entityIds : List Text
  limit : Nat
  deriving DecidableEq, Repr

structure RelationWalkInput where
  tenantId : Text
  startEntityId : Text
  maxDepth : Nat
  pageSize : Option Nat
  candidateLimit : Option Nat
  cursor : Option Text
  deriving DecidableEq, Repr

structure RelationWalkCandidate (Details : Type) where
  depth : Nat
  fromEntityId : Text
  nextEntityId : Text
  edge : RelationEdgeCandidate Details
  deriving DecidableEq, Repr

structure RelationWalkPage (Details : Type) where
  candidates : List (RelationWalkCandidate Details)
  nextCursor : Option Text
  truncated : Bool
  deriving DecidableEq, Repr

structure CursorPayload where
  fingerprint : Text
  offset : Nat
  deriving DecidableEq, Repr

/-- The key is the bytes of the secret. -/
structure BoundedRelationWalkService (N Details : Type) where
  listAdjacent : RelationReadInput → List (RelationEdgeCandidate Details)
  signingKey : List Nat
  numbers : Numbers N
  localeCompare : Comparator Text
  strong : 32 ≤ signingKey.length

variable {N Details : Type}

structure Step where
  fromEntityId : Text
  nextEntityId : Text

def nextStep (edge : RelationEdgeCandidate Details) (frontier : List Text) : Option Step :=
  if frontier.contains edge.fromEntityId then some ⟨edge.fromEntityId, edge.toEntityId⟩
  else if frontier.contains edge.toEntityId then some ⟨edge.toEntityId, edge.fromEntityId⟩
  else none

def compareEdges (localeCompare : Comparator Text) : Comparator (RelationEdgeCandidate Details) :=
  (localeCompare.onKey (·.relationId)).andThen ((localeCompare.onKey (·.fromEntityId)).andThen (localeCompare.onKey (·.toEntityId)))

structure Walk (Details : Type) where
  visited : List Text
  nextFrontier : List Text
  candidates : List (RelationWalkCandidate Details)
  bounded : Bool

def takeEdges (candidateLimit depth : Nat) (frontier : List Text) : List (RelationEdgeCandidate Details) → Walk Details → Walk Details
  | [], walk => walk
  | edge :: rest, walk =>
    if candidateLimit ≤ walk.candidates.length then { walk with bounded := true }
    else
      match nextStep edge frontier with
      | none => takeEdges candidateLimit depth frontier rest walk
      | some step =>
        if walk.visited.contains step.nextEntityId then takeEdges candidateLimit depth frontier rest walk
        else
          takeEdges candidateLimit depth frontier rest
            { walk with
              visited := walk.visited ++ [step.nextEntityId]
              nextFrontier := walk.nextFrontier ++ [step.nextEntityId]
              candidates := walk.candidates ++ [⟨depth, step.fromEntityId, step.nextEntityId, edge⟩] }

def takeLevels (service : BoundedRelationWalkService N Details) (tenantId : Text) (candidateLimit : Nat) :
    Nat → Nat → List Text → Walk Details → Walk Details
  | 0, _, _, walk => walk
  | levels + 1, depth, frontier, walk =>
    if frontier = [] then walk
    else if candidateLimit ≤ walk.candidates.length then { walk with bounded := true }
    else
      let remaining := candidateLimit - walk.candidates.length
      let edges := service.listAdjacent ⟨tenantId, frontier.insertionSort (· ≤ ·), min 500 (remaining + 1)⟩
      let walk := { walk with bounded := walk.bounded || decide (remaining < edges.length), nextFrontier := [] }
      let walk := takeEdges candidateLimit depth frontier ((compareEdges service.localeCompare).sort edges) walk
      takeLevels service tenantId candidateLimit levels (depth + 1) walk.nextFrontier walk

def collect (service : BoundedRelationWalkService N Details) (input : RelationWalkInput) (candidateLimit : Nat) : Walk Details :=
  takeLevels service input.tenantId candidateLimit input.maxDepth 1 [input.startEntityId] ⟨[input.startEntityId], [], [], false⟩

def digestText (key message : List Nat) : Text := Base64Url.encode (Hmac.hmacSha256 key message)

variable (service : BoundedRelationWalkService N Details)

def requestFingerprint (input : RelationWalkInput) (pageSize candidateLimit : Nat) : Text :=
  digestText service.signingKey (CacheSchema.encode (text service.numbers.toText (.object [
    (units "tenantId", .string input.tenantId), (units "startEntityId", .string input.startEntityId),
    (units "maxDepth", .number (service.numbers.ofNat input.maxDepth)), (units "pageSize", .number (service.numbers.ofNat pageSize)),
    (units "candidateLimit", .number (service.numbers.ofNat candidateLimit))])))

def sign (value : Text) : Text := digestText service.signingKey (CacheSchema.encode (units "context-relation-walk:" ++ value))

def safeEqual (left right : Text) : Bool := CacheSchema.encode left == CacheSchema.encode right

def payloadValue (payload : CursorPayload) : Value N :=
  .object [(units "v", .number (service.numbers.ofNat 1)), (units "fingerprint", .string payload.fingerprint),
    (units "offset", .number (service.numbers.ofNat payload.offset))]

def encodeCursor (payload : CursorPayload) : Text :=
  let encoded := Base64Url.encode (CacheSchema.encode (text service.numbers.toText (payloadValue service payload)))
  encoded ++ units "." ++ sign service encoded

def memberOf : Value N → Text → Option (Value N)
  | .object members, key => (members.find? (·.1 = key)).map (·.2)
  | _, _ => none

def integerOf : Option (Value N) → Option Int
  | some (.number value) => service.numbers.toInt value
  | _ => none

def readPayload (value : Value N) (fingerprint : Text) : Option CursorPayload :=
  if integerOf service (memberOf value (units "v")) ≠ some 1 then none
  else
    match memberOf value (units "fingerprint"), integerOf service (memberOf value (units "offset")) with
    | some (.string found), some offset => if found = fingerprint ∧ 0 ≤ offset then some ⟨found, offset.toNat⟩ else none
    | _, _ => none

def decodeCursor (cursor fingerprint : Text) : Except RelationWalkError CursorPayload :=
  if 2000 < cursor.length then .error .cursorInvalid
  else
    let parts := Splitting.split (units ".") cursor
    let encoded := parts.getD 0 []
    let signature := parts.getD 1 []
    let extra := parts.getD 2 []
    if encoded = [] ∨ signature = [] ∨ extra ≠ [] ∨ !safeEqual signature (sign service encoded) then .error .cursorInvalid
    else
      match parse (standard service.numbers) (Utf8.decode (Base64Url.decode encoded)) with
      | .error _ => .error .cursorInvalid
      | .ok value =>
        match readPayload service value fingerprint with
        | none => .error .cursorInvalid
        | some payload => .ok payload

def validateWalk (input : RelationWalkInput) (pageSize candidateLimit : Nat) : Except RelationWalkError Unit :=
  if !matchesIdPattern input.tenantId || !matchesIdPattern input.startEntityId || (input.maxDepth ≠ 1 && input.maxDepth ≠ 2) ||
      pageSize < 1 || MAX_PAGE_SIZE < pageSize || candidateLimit < 1 || MAX_CANDIDATES < candidateLimit then
    .error .walkInvalid
  else .ok ()

def offsetOf (input : RelationWalkInput) (fingerprint : Text) : Except RelationWalkError Nat :=
  match input.cursor with
  | none => .ok 0
  | some cursor => if cursor = [] then .ok 0 else (decodeCursor service cursor fingerprint).map (·.offset)

def walk (input : RelationWalkInput) : Except RelationWalkError (RelationWalkPage Details) := do
  let pageSize := input.pageSize.getD 25
  let candidateLimit := input.candidateLimit.getD 100
  validateWalk input pageSize candidateLimit
  let fingerprint := requestFingerprint service input pageSize candidateLimit
  let offset ← offsetOf service input fingerprint
  let walked := collect service input candidateLimit
  if walked.candidates.length < offset then throw .cursorInvalid
  let page := (walked.candidates.drop offset).take pageSize
  let nextOffset := offset + page.length
  return {
    candidates := page
    nextCursor := if nextOffset < walked.candidates.length then some (encodeCursor service ⟨fingerprint, nextOffset⟩) else none
    truncated := walked.bounded }

end AgentSaas.BoundedWalk
