import AgentSaas.PlatformEvents
import AgentSaas.Transactions
import Mathlib.Logic.Function.Basic

/-! The append of runtime events. The tables are those of the event store, and a batch is
one transaction; a batch of several sessions is appended event by event. -/

namespace AgentSaas.EventStore
open Transactions PlatformEvents

variable {β γ : Type}

/-- A field that a caller may leave out; one that is there may still be undefined. -/
abbrev Given (α : Type) := Option (Option α)

structure EventInput (β : Type) where
  id : Given String
  timestamp : Given String
  sessionId : String
  type : String
  runId : Option String
  rest : β

/-- What is serialized: the fields of the input after the generated ones, and the sequence last. -/
structure FullEvent (β : Type) where
  id : Option String
  timestamp : Option String
  sessionId : String
  type : String
  runId : Option String
  rest : β
  sequence : Nat

/-- A stored row. The number of the call and the place in its batch are kept for the record. -/
structure EventRow (γ : Type) where
  tenantId : String
  sessionId : String
  sessionSequence : Nat
  eventId : String
  eventType : String
  runId : Option String
  timestamp : String
  eventJson : γ
  call : Nat
  place : Nat

/-- The rows are in the order of the commits. -/
structure Tables (γ : Type) where
  cursors : String × String → Option Nat
  events : List (EventRow γ)

def Tables.empty : Tables γ := ⟨fun _ => none, []⟩

inductive Lock
  | globalSequence
  | cursor (session : String × String)
  | eventId (key : String × String)
  deriving DecidableEq

/-- What an await gets from outside: whether it fails, an id and the clock. -/
structure Outside where
  fails : Bool
  uuid : String
  now : String

inductive Reply (γ : Type)
  /-- The events returned, each beside the id it was asked for. -/
  | returned (tenantId : String) (events : List (String × γ))
  | thrown

abbrev Append (γ : Type) := Program (Tables γ) Lock Outside

def lockPgEventGlobalSequence : Statement (Tables γ) Lock Unit := .lock (fun _ => [.globalSequence]) fun _ => ()

def allocatePgEventSequences (tenantId sessionId : String) (eventCount : Nat) : Statement (Tables γ) Lock Nat where
  locks _ := [.cursor (tenantId, sessionId)]
  result db := (db.cursors (tenantId, sessionId)).getD 1
  write snapshot db :=
    let next := (snapshot.cursors (tenantId, sessionId)).getD 1 + eventCount
    { db with cursors := Function.update db.cursors (tenantId, sessionId) (some next) }

def EventRow.key (row : EventRow γ) : String × String := (row.tenantId, row.eventId)

def EventRow.session (row : EventRow γ) : String × String := (row.tenantId, row.sessionId)

inductive Insertion
  | inserted
  | conflict
  /-- The sequence is taken within the session. -/
  | violation
  deriving DecidableEq

def insertion (row : EventRow γ) (db : Tables γ) : Insertion :=
  if db.events.any (·.key = row.key) then .conflict
  else if db.events.any fun other => other.session = row.session && other.sessionSequence = row.sessionSequence then .violation
  else .inserted

/-- `INSERT ... ON CONFLICT (tenant_id, event_id) DO NOTHING` -/
def insertEvent (row : EventRow γ) : Statement (Tables γ) Lock Insertion where
  locks db := if insertion row db = .inserted then [.eventId row.key] else []
  result := insertion row
  write snapshot db := if insertion row snapshot = .inserted then { db with events := db.events ++ [row] } else db

def selectEvent (key : String × String) : Statement (Tables γ) Lock (Option γ) :=
  .read fun db => (db.events.find? (·.key = key)).map (·.eventJson)

/-- `{ id: event.id ?? randomUUID(), timestamp, ...event, sequence }` -/
def fullEvent (event : EventInput β) (uuid timestamp : String) (sequence : Nat) : FullEvent β where
  id := event.id.getD (some uuid)
  timestamp := event.timestamp.getD (some timestamp)
  sessionId := event.sessionId
  type := event.type
  runId := event.runId
  rest := event.rest
  sequence := sequence

def fullEvents (timestamp : String) : List (EventInput β) → Nat → Append γ (List (FullEvent β))
  | [], _ => return []
  | event :: rest, sequence => do
    let outside ← receive
    let later ← fullEvents timestamp rest (sequence + 1)
    return fullEvent event outside.uuid timestamp sequence :: later

section Append
variable (serializeEventForJsonb : FullEvent β → Option γ) (call : Nat)

/-- The row of an event, unless it cannot be serialized or lacks what a column needs. -/
def rowOf (tenantId : String) (place : Nat) (event : FullEvent β) : Option (EventRow γ) := do
  let eventJson ← serializeEventForJsonb event
  let eventId ← event.id
  let timestamp ← event.timestamp
  return ⟨tenantId, event.sessionId, event.sequence, eventId, event.type, event.runId, timestamp, eventJson, call, place⟩

/-- The loop over the events; nothing is returned when one of its statements throws. -/
def insertEvents (tenantId : String) : List (FullEvent β) → Nat → Append γ (Option (List (String × γ)))
  | [], _ => return some []
  | event :: rest, place => do
    let outside ← receive
    match if outside.fails then none else rowOf serializeEventForJsonb call tenantId place event with
    | none => return none
    | some row =>
      match ← query (insertEvent row) with
      | .violation => return none
      | .inserted => return (← insertEvents tenantId rest (place + 1)).map ((row.eventId, row.eventJson) :: ·)
      | .conflict =>
        if (← receive).fails then return none
        match ← query (selectEvent row.key) with
        | none => return none
        | some existing => return (← insertEvents tenantId rest (place + 1)).map ((row.eventId, existing) :: ·)

def thrown : Append γ (Reply γ) := do
  rollback
  return .thrown

/-- The batch of one session. The events of other writers are announced after the commit,
which changes no table. -/
def appendSession (tenantId sessionId : String) (events : List (EventInput β)) : Append γ (Reply γ) := do
  if (← receive).fails then return .thrown
  query lockPgEventGlobalSequence
  if (← receive).fails then thrown
  else
    let startSequence ← query (allocatePgEventSequences tenantId sessionId events.length)
    let outside ← receive
    if outside.fails then thrown
    else
      let full ← fullEvents outside.now events startSequence
      match ← insertEvents serializeEventForJsonb call tenantId full 0 with
      | none => thrown
      | some durableEvents =>
        if (← receive).fails then thrown
        else
          commit
          return .returned tenantId durableEvents

def appendEach (tenantId : String) : List (EventInput β) → Append γ (Reply γ)
  | [] => return .returned tenantId []
  | event :: rest => do
    if event.sessionId.isEmpty then return .thrown
    match ← appendSession serializeEventForJsonb call tenantId event.sessionId [event] with
    | .thrown => return .thrown
    | .returned _ first =>
      match ← appendEach tenantId rest with
      | .thrown => return .thrown
      | .returned _ later => return .returned tenantId (first ++ later)

def appendBatch (tenantId : String) (events : List (EventInput β)) : Append γ (Reply γ) :=
  let tenantId := trim tenantId
  if tenantId.isEmpty then return .thrown
  else
    match events with
    | [] => return .returned tenantId []
    | first :: rest =>
      if rest.any (·.sessionId ≠ first.sessionId) then appendEach serializeEventForJsonb call tenantId events
      else if first.sessionId.isEmpty then return .thrown
      else appendSession serializeEventForJsonb call tenantId first.sessionId events

end Append

structure Batch (β : Type) where
  tenantId : String
  events : List (EventInput β)

/-- Nothing is in two sessions. -/
def Batch.SingleSession (batch : Batch β) : Prop := ∃ sessionId, ∀ event ∈ batch.events, event.sessionId = sessionId

/-- Any number of calls in any number of processes, each with the batch under its number. -/
def store (serializeEventForJsonb : FullEvent β → Option γ) (batches : Nat → Batch β) :
    System (Tables γ) Lock Outside (Reply γ) where
  admits call program := program = appendBatch serializeEventForJsonb call (batches call).tenantId (batches call).events
  permits _ _ _ _ := True

end AgentSaas.EventStore
