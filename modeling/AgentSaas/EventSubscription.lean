import AgentSaas.Cursors

/-! A subscription to the event log. Notifications, reconnects and polls only wake it;
what it delivers is read from the log, after the watermark. -/

namespace AgentSaas.EventSubscription
open Cursors

variable {ε : Type}

structure EventRow (ε : Type) where
  globalSequence : Nat
  event : ε
  deriving DecidableEq, Repr

/-- The events table, with the transactions that have inserted into it and not ended. -/
structure EventsTable (ε : Type) where
  nextSequence : Nat
  inserting : List (List (EventRow ε))
  committed : List (EventRow ε)
  deriving DecidableEq, Repr

namespace EventsTable

def empty : EventsTable ε := ⟨1, [], []⟩

/-- The number is taken whether or not the row is kept: `ON CONFLICT DO NOTHING`. -/
def insert (table : EventsTable ε) (transaction : Nat) (event : ε) (conflict : Bool) : EventsTable ε :=
  let rows := if conflict then [] else [⟨table.nextSequence, event⟩]
  { table with
    nextSequence := table.nextSequence + 1
    inserting :=
      match table.inserting[transaction]? with
      | some earlier => table.inserting.set transaction (earlier ++ rows)
      | none => table.inserting ++ [rows] }

def commit (table : EventsTable ε) (transaction : Nat) : EventsTable ε :=
  { table with
    inserting := table.inserting.eraseIdx transaction
    committed := table.committed ++ (table.inserting[transaction]?).getD [] }

def rollback (table : EventsTable ε) (transaction : Nat) : EventsTable ε :=
  { table with inserting := table.inserting.eraseIdx transaction }

/-- `LOCK TABLE … IN SHARE MODE` is granted when no transaction that inserted is left, and
none inserts before the query has read. -/
def queryWithEventsShareLock (table : EventsTable ε) (query : List (EventRow ε) → ρ) : Option ρ :=
  if table.inserting = [] then some (query table.committed) else none

end EventsTable

/-- `SELECT COALESCE(MAX(global_sequence), 0)` -/
def maxSequence (rows : List (EventRow ε)) : Nat := ((rows.map (·.globalSequence)).max?).getD 0

structure SubscribeAppendedOptions where
  reconnectDelayMs : Option Nat
  maxReconnectDelayMs : Option Nat
  safetyPollIntervalMs : Option Nat
  drainPageLimit : Option Nat

namespace SubscribeAppendedOptions

variable (options : SubscribeAppendedOptions)

def reconnectBaseDelayMs : Nat := options.reconnectDelayMs.getD 1000

def reconnectMaxDelayMs : Nat := options.maxReconnectDelayMs.getD 15000

def polls : Bool := options.safetyPollIntervalMs.getD 10000 > 0

def notifyRangePageLimit : Nat := 250

def pageLimit : Nat := (options.drainPageLimit.filter (· > 0)).getD notifyRangePageLimit

end SubscribeAppendedOptions

inductive Drain (ε : Type) where
  | idle
  /-- the query of a page -/
  | reading (cursor : Nat)
  /-- the end of the transaction that has read the page -/
  | fetched (rows : List (EventRow ε))
  /-- the callback of a row; `full` when there may be another page -/
  | calling (row : EventRow ε) (rest : List (EventRow ε)) (full : Bool)
  /-- `drainGlobalWatermark`, which is over -/
  | settled (failed : Bool)
  deriving DecidableEq, Repr

structure Listener where
  client : Option Nat
  connecting : Option Nat
  nextClient : Nat
  reconnectTimer : Bool
  reconnectDelay : Nat
  pollTimer : Bool
  deriving DecidableEq, Repr

structure Subscription (ε : Type) where
  globalWatermark : Nat
  drain : Drain ε
  redo : Bool
  closed : Bool
  listener : Listener
  /-- What `readGlobalBoundary` gave. -/
  boundary : Nat
  /-- The rows whose callback succeeded. -/
  delivered : List (EventRow ε)
  /-- How often `drainGlobalWatermark` was called. -/
  scans : Nat
  deriving DecidableEq, Repr

namespace Subscription

variable (options : SubscribeAppendedOptions) (subscription : Subscription ε)

/-- `while (!closed)` -/
def nextPage : Subscription ε :=
  { subscription with
    drain := if subscription.closed then .settled false else .reading subscription.globalWatermark }

def drainGlobalWatermark : Subscription ε := nextPage { subscription with scans := subscription.scans + 1 }

def drainGlobal : Subscription ε :=
  if subscription.closed then subscription
  else
    match subscription.drain with
    | .idle => drainGlobalWatermark { subscription with redo := false }
    | _ => { subscription with redo := true }

/-- `for (const row of result.rows)`, with the rows that are left. -/
def nextRow (full : Bool) : List (EventRow ε) → Subscription ε
  | [] => if full then nextPage subscription else { subscription with drain := .settled false }
  | row :: rest =>
    { subscription with drain := if subscription.closed then .settled false else .calling row rest full }

def receivePage (rows : List (EventRow ε)) : Subscription ε :=
  if rows = [] then { subscription with drain := .settled false }
  else nextRow subscription (rows.length ≥ options.pageLimit) rows

/-- The watermark moves only when the callback succeeded. -/
def callbackDone (row : EventRow ε) (rest : List (EventRow ε)) (full succeeded : Bool) : Subscription ε :=
  if succeeded then
    nextRow
      { subscription with
        delivered := subscription.delivered ++ [row]
        globalWatermark := max subscription.globalWatermark row.globalSequence }
      full rest
  else { subscription with drain := .settled true }

/-- The rest of the drain: `while (redo && !closed)`, and the `finally` block. -/
def continueDrain (failed : Bool) : Subscription ε :=
  if failed then
    let released := { subscription with drain := .idle }
    if subscription.redo ∧ ¬subscription.closed then drainGlobal { released with redo := false } else released
  else if subscription.redo ∧ ¬subscription.closed then drainGlobalWatermark { subscription with redo := false }
  else { subscription with drain := .idle }

def startConnectAttempt : Subscription ε :=
  { subscription with
    listener := { subscription.listener with
      connecting := some subscription.listener.nextClient
      nextClient := subscription.listener.nextClient + 1 } }

def scheduleReconnect : Subscription ε :=
  if subscription.closed ∨ subscription.listener.reconnectTimer then subscription
  else { subscription with listener := { subscription.listener with client := none, reconnectTimer := true } }

/-- The end of `connectOnce`, after LISTEN. The polls begin when the first attempt is over. -/
def connected (client : Nat) : Subscription ε :=
  let listener := { subscription.listener with connecting := none, pollTimer := options.polls && !subscription.closed }
  if subscription.closed then { subscription with listener }
  else
    drainGlobal { subscription with
      listener := { listener with client := some client, reconnectDelay := options.reconnectBaseDelayMs } }

/-- A first attempt that fails for want of connections is the subscription's, another failure
of it ends the subscription and is not here. Later attempts back off. -/
def connectFailed (client : Nat) : Subscription ε :=
  let listener := { subscription.listener with
    connecting := none
    pollTimer := options.polls && !subscription.closed
    reconnectDelay :=
      if client = 0 then subscription.listener.reconnectDelay
      else min (subscription.listener.reconnectDelay * 2) options.reconnectMaxDelayMs }
  scheduleReconnect { subscription with listener }

def clientLost (client : Nat) : Subscription ε :=
  if subscription.listener.client = some client then scheduleReconnect subscription else subscription

def reconnectFires : Subscription ε :=
  let subscription := { subscription with listener := { subscription.listener with reconnectTimer := false } }
  if subscription.closed then subscription else startConnectAttempt subscription

/-- What `subscribeAppended` returns, when the first attempt is over. -/
def unsubscribe : Subscription ε :=
  { subscription with
    closed := true
    listener := { subscription.listener with client := none, reconnectTimer := false, pollTimer := false } }

end Subscription

def subscribeAppended (options : SubscribeAppendedOptions) (boundary : Nat) : Subscription ε where
  globalWatermark := boundary
  drain := .idle
  redo := false
  closed := false
  listener := ⟨none, some 0, 1, false, options.reconnectBaseDelayMs, false⟩
  boundary
  delivered := []
  scans := 0

structure World (ε : Type) where
  table : EventsTable ε
  subscription : Option (Subscription ε)
  deriving DecidableEq, Repr

def World.empty : World ε := ⟨.empty, none⟩

inductive Write (ε : Type) where
  | insert (transaction : Nat) (event : ε) (conflict : Bool)
  | commit (transaction : Nat)
  | rollback (transaction : Nat)

/-- What comes to the subscription from its connection, its timers and its owner. A
notification may be lost, or come twice, and from a connection of before. -/
inductive Signal where
  | notification (channel : String)
  | poll
  | connected
  | connectFailed
  | clientLost (client : Nat)
  | reconnectFires
  | unsubscribe

inductive Resumption where
  | pageRead
  | queryFailed
  | pageReceived
  | callbackDone (succeeded : Bool)
  | watermarkDrained

inductive Action (ε : Type) where
  | write (write : Write ε)
  | subscribe
  | signal (signal : Signal)
  | resume (resumption : Resumption)

namespace World

def writeStep (table : EventsTable ε) : Write ε → EventsTable ε
  | .insert transaction event conflict => table.insert transaction event conflict
  | .commit transaction => table.commit transaction
  | .rollback transaction => table.rollback transaction

section Steps

variable (options : SubscribeAppendedOptions) (notifyChannel : String)

def signalStep (subscription : Subscription ε) : Signal → Option (Subscription ε)
  | .notification channel => some (if channel = notifyChannel then subscription.drainGlobal else subscription)
  | .poll =>
    if subscription.listener.pollTimer then
      some (if subscription.closed then subscription else subscription.drainGlobal)
    else none
  | .connected => subscription.listener.connecting.map (subscription.connected options)
  | .connectFailed => subscription.listener.connecting.map (subscription.connectFailed options)
  | .clientLost client => some (subscription.clientLost client)
  | .reconnectFires => if subscription.listener.reconnectTimer then some subscription.reconnectFires else none
  | .unsubscribe => if subscription.listener.connecting = some 0 then none else some subscription.unsubscribe

def resumeStep (table : EventsTable ε) (subscription : Subscription ε) : Resumption → Option (Subscription ε)
  | .pageRead =>
    match subscription.drain with
    | .reading cursor =>
      (table.queryWithEventsShareLock fun rows => (after (·.globalSequence) cursor rows).take options.pageLimit).map
        fun rows => { subscription with drain := .fetched rows }
    | _ => none
  | .queryFailed =>
    match subscription.drain with
    | .reading _ | .fetched _ => some { subscription with drain := .settled true }
    | _ => none
  | .pageReceived =>
    match subscription.drain with
    | .fetched rows => some (subscription.receivePage options rows)
    | _ => none
  | .callbackDone succeeded =>
    match subscription.drain with
    | .calling row rest full => some (subscription.callbackDone row rest full succeeded)
    | _ => none
  | .watermarkDrained =>
    match subscription.drain with
    | .settled failed => some (subscription.continueDrain failed)
    | _ => none

def act (world : World ε) : Action ε → Option (World ε)
  | .write write => some { world with table := writeStep world.table write }
  | .subscribe =>
    match world.subscription with
    | none =>
      (world.table.queryWithEventsShareLock maxSequence).map fun boundary =>
        { world with subscription := some (subscribeAppended options boundary) }
    | some _ => none
  | .signal signal =>
    world.subscription.bind fun subscription =>
      (signalStep options notifyChannel subscription signal).map fun next => { world with subscription := some next }
  | .resume resumption =>
    world.subscription.bind fun subscription =>
      (resumeStep options world.table subscription resumption).map fun next => { world with subscription := some next }

def play (world : World ε) : List (Action ε) → Option (World ε)
  | [] => some world
  | action :: rest => (world.act options notifyChannel action).bind fun next => next.play rest

end Steps

end World

end AgentSaas.EventSubscription
