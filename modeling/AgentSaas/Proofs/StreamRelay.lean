import AgentSaas.OutboundStreamRelay
import AgentSaas.Proofs.InterleavingSafety

/-! When the relay loses and reorders nothing. A state that leaves the map takes along what is
still pending or queued in it, unless a publish is about to wait for it. -/

namespace AgentSaas.Proofs.StreamRelay
open AgentSaas.OutboundStreamRelay Dictionaries Interleaving InterleavingSafety

/-- A unit of a delta, or an event of another phase. -/
inductive Token
  | unit (block : StreamDeltaType) (char : Nat)
  | mark (event : StreamEvent)
  deriving DecidableEq

def tokensOf : StreamEvent → List Token
  | .delta block content => content.map (.unit block)
  | event => [.mark event]

/-- Streams with the same tokens have the same blocks and the same events between them. -/
def tokens (events : List StreamEvent) : List Token := events.flatMap tokensOf

def relayed : OutboundEvent → List StreamEvent
  | .delta block content => [.delta block content]
  | event => (toPlatformStreamEvent event).toList

def asked (events : List OutboundEvent) : List Token := tokens (events.flatMap relayed)

def written (side : RunSide) : List Token := tokens (side.durable.map Row.event)

theorem tokens_append (first second : List StreamEvent) : tokens (first ++ second) = tokens first ++ tokens second :=
  List.flatMap_append

theorem asked_append (events : List OutboundEvent) (event : OutboundEvent) :
    asked (events ++ [event]) = asked events ++ tokens (relayed event) := by
  rw [asked, asked, List.flatMap_append, tokens_append, List.flatMap_singleton]

def backlogOf (state : RelayState) : List StreamEvent := state.queue ++ state.pending

def backlog (side : RunSide) (index : Nat) : List StreamEvent := side.made[index]?.elim [] backlogOf

/-- The run's last publish ended it, or a `flushAll` that started after it is over. -/
def Over (shared : Shared) (runId : String) : Prop :=
  (shared.sides runId).published.getLast?.any OutboundEvent.isFinal ∨
    ∃ extent ∈ shared.flushed, extent runId = some (shared.sides runId).published.length

/-- What a run has published stands in the store once the run is over. -/
def Complete (shared : Shared) : Prop :=
  ∀ runId, (shared.sides runId).publishing = none → Over shared runId →
    written (shared.sides runId) = asked (shared.sides runId).published

/-- A run's publishes are awaited, and all appends succeed. -/
def Given (shared : Shared) (call : Call) (move : Move) : Prop :=
  match call, move with
  | .publish _ context, _ => (shared.sides context.runId).publishing = none
  | .append .., .fail => False
  | _, _ => True

def ownAppend (wait : Wait) : Bool :=
  match wait.stage with
  | .switching => false
  | .flushed => (toPlatformStreamEvent wait.event).isSome
  | .appended => true

def Removable (side : RunSide) (index : Nat) : Prop :=
  side.publishing.any (ownAppend ·.2) ∨
    side.publishing.all (·.2.stage ≠ .switching) ∧ backlog side index = []

def MayRemove (shared : Shared) (task : FlushTask) : Prop :=
  match shared.states.get task.runId with
  | some index => task.chained → Removable (shared.sides task.runId) index
  | none => True

def NothingLeft (shared : Shared) (call : Call) (move : Move) : Prop :=
  match call, move with
  | .waiting runId index wait, _ => wait.event.isFinal → backlog (shared.sides runId) index = []
  | .flushing tasks _, .task place =>
    match tasks[place]? with
    | some task => MayRemove shared task
    | none => True
  | _, _ => True

/-! What a run's states hold, by the state in use. -/

structure Holding (current : Option Nat) (side : RunSide) : Prop where
  bound : ∀ index, current = some index → index < side.made.length
  coherent : ∀ state ∈ side.made, state.pendingType = none → state.pendingContent = []
  idle : ∀ index, current ≠ some index → backlog side index = []
  stream : written side ++ tokens (current.elim [] (backlog side)) = asked side.taken

variable {side after : RunSide} {current entry : Option Nat} {index : Nat} {state : RelayState}

theorem made_change (side : RunSide) (index other : Nat) (f : RelayState → RelayState) :
    (side.change index f).made[other]? = if index = other then (side.made[other]?).map f else side.made[other]? := by
  rw [RunSide.change, List.getElem?_modify]
  split <;> simp

theorem mem_change {f : RelayState → RelayState} (member : state ∈ (side.change index f).made) :
    state ∈ side.made ∨ ∃ old ∈ side.made, state = f old := by
  obtain ⟨place, found⟩ := List.mem_iff_getElem?.mp member
  rw [made_change] at found
  split at found
  · obtain ⟨old, present, same⟩ := Option.map_eq_some_iff.mp found
    exact .inr ⟨old, List.mem_of_getElem? present, same.symm⟩
  · exact .inl (List.mem_of_getElem? found)

theorem backlog_found (found : side.made[index]? = some state) : backlog side index = backlogOf state := by
  simp [backlog, found]

theorem backlog_change_ne {f : RelayState → RelayState} {other : Nat} (apart : index ≠ other) :
    backlog (side.change index f) other = backlog side other := by
  rw [backlog, made_change, if_neg apart, backlog]

/-- What a flush or a timer does to a state. -/
structure Gentle (f : RelayState → RelayState) : Prop where
  backlog : ∀ state, backlogOf (f state) = backlogOf state
  coherent : ∀ state, (state.pendingType = none → state.pendingContent = []) →
    (f state).pendingType = none → (f state).pendingContent = []
  pending : ∀ state, state.pendingType = none → (f state).pendingType = none ∧ (f state).chain = state.chain

theorem pending_of_none (none : state.pendingType = none) : state.pending = [] := by
  rw [RelayState.pending, none]

theorem backlog_flush (state : RelayState) : backlogOf state.flush = backlogOf state := by
  change (state.queue ++ state.pending) ++ [] = _
  rw [List.append_nil]
  rfl

theorem gentle_flush : Gentle RelayState.flush where
  backlog := backlog_flush
  coherent _ _ _ := rfl
  pending state nothing := by
    refine ⟨rfl, ?_⟩
    change state.appended + (state.queue ++ state.pending).length = _
    rw [pending_of_none nothing, List.append_nil]
    rfl

theorem gentle_clearTimer : Gentle RelayState.clearTimer where
  backlog _ := rfl
  coherent _ coherent := coherent
  pending _ nothing := ⟨nothing, rfl⟩

theorem backlog_gentle {f : RelayState → RelayState} (gentle : Gentle f) (other : Nat) :
    backlog (side.change index f) other = backlog side other := by
  rw [backlog, made_change]
  split
  · cases found : side.made[other]? with
    | none => simp [backlog, found]
    | some state => simp [backlog, found, gentle.backlog]
  · rfl

theorem Holding.gentle (holding : Holding current side) {f : RelayState → RelayState} (gentle : Gentle f) :
    Holding current (side.change index f) where
  bound place same := by
    rw [RunSide.change, List.length_modify]
    exact holding.bound place same
  coherent state member := by
    obtain kept | ⟨old, present, rfl⟩ := mem_change member
    · exact holding.coherent state kept
    · exact gentle.coherent old (holding.coherent old present)
  idle place apart := by
    rw [backlog_gentle gentle]
    exact holding.idle place apart
  stream := by
    have same : backlog (side.change index f) = backlog side := funext (backlog_gentle gentle)
    rw [same]
    exact holding.stream

theorem Holding.put (holding : Holding (some index) side) (found : side.made[index]? = some state)
    {next : RelayState} {event : OutboundEvent} (coherent : next.pendingType = none → next.pendingContent = [])
    (added : tokens (backlogOf next) = tokens (backlogOf state) ++ tokens (relayed event)) :
    Holding (some index) ((side.take event).change index fun _ => next) where
  bound place same := by
    rw [RunSide.change, List.length_modify]
    exact holding.bound place same
  coherent other member := by
    obtain old | ⟨_, _, rfl⟩ := mem_change member
    · exact holding.coherent other old
    · exact coherent
  idle place apart := by
    rw [backlog_change_ne fun same => apart (congrArg some same)]
    exact holding.idle place apart
  stream := by
    have now : backlog ((side.take event).change index fun _ => next) index = backlogOf next := by
      apply backlog_found
      rw [made_change, if_pos rfl]
      exact congrArg (Option.map _) found
    have before := holding.stream
    simp only [Option.elim_some, backlog_found found] at before
    change written side ++ tokens (backlog _ index) = asked (side.taken ++ [event])
    rw [now, added, asked_append, ← before, List.append_assoc]

theorem Holding.take (holding : Holding current side) {event : OutboundEvent} (nothing : tokens (relayed event) = []) :
    Holding current (side.take event) where
  bound := holding.bound
  coherent := holding.coherent
  idle := holding.idle
  stream := by
    change written side ++ _ = asked (side.taken ++ [event])
    rw [asked_append, nothing, List.append_nil]
    exact holding.stream

theorem Holding.release (holding : Holding (some index) side) (empty : backlog side index = []) : Holding none side where
  bound place same := by cases same
  coherent := holding.coherent
  idle place _ := by
    by_cases same : index = place
    · exact same ▸ empty
    · exact holding.idle place fun wrong => same (Option.some.inj wrong)
  stream := by
    have before := holding.stream
    rw [Option.elim_some, empty] at before
    exact before

theorem Holding.create (holding : Holding none side) (sessionId tenantId : String) :
    Holding (some side.made.length) { side with made := side.made ++ [.created sessionId tenantId] } where
  bound place same := by
    cases same
    simp
  coherent state member := by
    obtain old | new := List.mem_append.mp member
    · exact holding.coherent state old
    · rw [List.mem_singleton.mp new]
      exact fun _ => rfl
  idle place apart := by
    have other : place ≠ side.made.length := fun same => apart (same ▸ rfl)
    rw [backlog, List.getElem?_append]
    split
    · exact holding.idle place (fun wrong => by cases wrong)
    · rw [List.getElem?_eq_none (by simp; omega)]
      rfl
  stream := by
    have empty : backlog { side with made := side.made ++ [.created sessionId tenantId] } side.made.length = [] := by
      simp [backlog, backlogOf, RelayState.created, RelayState.pending]
    have before := holding.stream
    rw [Option.elim_some, empty]
    exact before

theorem Holding.append (holding : Holding current side) (appended : side.append index true = some after) :
    Holding current after ∧ current = some index := by
  obtain ⟨state, found, appended⟩ := Option.bind_eq_some_iff.mp appended
  split at appended
  next => cases appended
  next event queue waiting =>
    cases appended
    have here : current = some index := by
      by_contra apart
      have empty := holding.idle index apart
      rw [backlog_found found, backlogOf, waiting] at empty
      cases empty
    cases here
    refine ⟨⟨?_, ?_, ?_, ?_⟩, rfl⟩
    · intro place same
      simp only [↓reduceIte, RunSide.change, List.length_modify]
      exact holding.bound place same
    · intro other member
      obtain kept | ⟨old, present, rfl⟩ := mem_change member
      · exact holding.coherent other kept
      · exact holding.coherent old present
    · intro place apart
      exact (backlog_change_ne fun same => apart (congrArg some same)).trans (holding.idle place apart)
    · have now : backlog (side.change index fun state => { state with queue, appended := state.appended + 1 }) index =
          queue ++ state.pending := by
        have present : (side.change index fun state => { state with queue, appended := state.appended + 1 }).made[index]? =
            some { state with queue, appended := state.appended + 1 } := by
          rw [made_change, if_pos rfl, found]
          rfl
        exact backlog_found present
      have before := holding.stream
      rw [Option.elim_some, backlog_found found, backlogOf, waiting] at before
      change tokens ((side.durable ++ [_]).map Row.event) ++ tokens (backlog (side.change index _) index) = asked side.taken
      rw [now, ← before, List.map_append, tokens_append, List.append_assoc, ← tokens_append]
      rfl

/-! What a run keeps while its publishes go on. -/

structure Waits (entry : Option Nat) (side : RunSide) (index : Nat) (wait : Wait) : Prop where
  known : entry = none ∨ entry = some index
  last : side.published.getLast? = some wait.event
  content : ∀ block content, wait.event = .delta block content → content ≠ [] ∧ wait.stage ≠ .flushed
  present : ∃ state, side.made[index]? = some state ∧ state.pendingType = none ∧
    (wait.stage = .appended → wait.ticket = state.chain)
  taken : side.published = if wait.stage = .appended then side.taken else side.taken ++ [wait.event]
  bare : ownAppend wait = false → entry = some index ∨ wait.stage ≠ .switching ∧ backlog side index = []

def live (entry : Option Nat) (side : RunSide) : Option Nat :=
  match side.publishing with
  | some (index, _) => some index
  | none => entry

structure Fits (entry : Option Nat) (side : RunSide) : Prop where
  holding : Holding (live entry side) side
  waits : ∀ index wait, side.publishing = some (index, wait) → Waits entry side index wait
  taken : side.publishing = none → side.taken = side.published
  final : side.publishing = none → side.published.getLast?.any OutboundEvent.isFinal → entry = none

/-- What one step of a publish leads to; the run's entry goes with its last event. -/
structure Served (entry : Option Nat) (index : Nat) (event : OutboundEvent) (published : List OutboundEvent)
    (next : RunSide × Option Wait) : Prop where
  published : next.1.published = published
  publishing : next.1.publishing = next.2.map fun wait => (index, wait)
  same : ∀ wait, next.2 = some wait → wait.event = event
  goesOn : next.2.isSome ∨ event.isFinal = false → Fits entry next.1
  ends : next.2 = none → event.isFinal → Fits none next.1

variable {event : OutboundEvent} {maxBatchChars : Nat}

theorem Served.wait {wait : Wait} (holding : Holding (some index) side) (waits : Waits entry side index wait) (same : wait.event = event) :
    Served entry index event side.published (side.wait index wait) where
  published := rfl
  publishing := rfl
  same other found := by
    cases found
    exact same
  goesOn _ := by
    refine ⟨⟨holding.bound, holding.coherent, holding.idle, holding.stream⟩, ?_, ?_, ?_⟩
    · intro place other found
      cases found
      exact ⟨waits.known, waits.last, waits.content, waits.present, waits.taken, waits.bare⟩
    · intro none
      cases none
    · intro none
      cases none
  ends none := by cases none

theorem Served.finish (holding : Holding (some index) side) (known : entry = none ∨ entry = some index)
    (taken : side.taken = side.published) (last : side.published.getLast? = some event)
    (empty : entry = none ∨ event.isFinal → backlog side index = []) :
    Served entry index event side.published side.finish where
  published := rfl
  publishing := rfl
  same _ found := by cases found
  goesOn continues := by
    have plain : event.isFinal = false := continues.resolve_left (by simp [RunSide.finish])
    refine ⟨?_, ?_, fun _ => taken, fun _ final => ?_⟩
    · obtain rfl | rfl := known
      · have released := holding.release (empty (.inl rfl))
        exact ⟨released.bound, released.coherent, released.idle, released.stream⟩
      · exact ⟨holding.bound, holding.coherent, holding.idle, holding.stream⟩
    · intro _ _ found
      cases found
    · rw [RunSide.finish, last, Option.any_some, plain] at final
      cases final
  ends _ final := by
    have released := holding.release (empty (.inr final))
    refine ⟨⟨released.bound, released.coherent, released.idle, released.stream⟩, ?_, fun _ => taken, fun _ _ => rfl⟩
    intro _ _ found
    cases found

theorem tokens_pending (coherent : state.pendingType = none → state.pendingContent = []) {block : StreamDeltaType}
    (same : state.pendingType.any (· ≠ block) = false) :
    tokens state.pending = state.pendingContent.map (.unit block) := by
  cases found : state.pendingType with
  | none =>
    rw [pending_of_none found, coherent found]
    rfl
  | some other =>
    have same : other = block := by simpa [found] using same
    subst same
    rw [RelayState.pending, found]
    by_cases empty : state.pendingContent = []
    · simp [empty, tokens]
    · simp [empty, tokens, tokensOf]

theorem pending_collect (state : RelayState) {block : StreamDeltaType} {content : List Nat} (filled : content ≠ []) :
    (state.collect block content).pending = [.delta block (state.pendingContent ++ content)] := by
  simp [RelayState.collect, RelayState.pending, filled]

theorem Served.fill (holding : Holding (some index) side) (found : side.made[index]? = some state)
    (here : entry = some index) {block : StreamDeltaType} {content : List Nat} (filled : content ≠ [])
    (same : state.pendingType.any (· ≠ block) = false)
    (taken : side.published = side.taken ++ [.delta block content]) :
    Served entry index (.delta block content) side.published (side.fill maxBatchChars index state block content) := by
  have coherent := holding.coherent state (List.mem_of_getElem? found)
  have added : tokens (backlogOf (state.collect block content)) =
      tokens (backlogOf state) ++ tokens (relayed (.delta block content)) := by
    rw [backlogOf, backlogOf, tokens_append, tokens_append, tokens_pending coherent same, pending_collect state filled,
      List.append_assoc]
    apply congrArg
    simp [tokens, tokensOf, relayed]
  have last : side.published.getLast? = some (.delta block content) := by
    rw [taken, List.getLast?_concat]
  simp only [RunSide.fill]
  split
  next =>
    have put : Holding (some index)
        ((side.take (.delta block content)).change index fun _ => (state.collect block content).flush) :=
      holding.put found (fun _ => rfl) (by rw [backlog_flush, added])
    refine Served.wait put ⟨.inr here, last, ?_, ?_, taken, ?_⟩ rfl
    · intro _ _ delta
      cases delta
      exact ⟨filled, fun wrong => by cases wrong⟩
    · refine ⟨(state.collect block content).flush, ?_, rfl, fun _ => ?_⟩
      · rw [made_change, if_pos rfl]
        exact congrArg (Option.map _) found
      · simp [RelayState.flushTicket, pending_collect state filled]
    · intro bare
      cases bare
  next =>
    have put : Holding (some index)
        ((side.take (.delta block content)).change index fun _ => (state.collect block content).scheduleFlush) :=
      holding.put found (fun none => by cases none) added
    refine Served.finish put (.inr here) taken.symm last ?_
    intro wrong
    obtain none | final := wrong
    · rw [here] at none
      cases none
    · cases final

theorem Served.await (holding : Holding (some index) side) (found : side.made[index]? = some state)
    (here : entry = some index) (last : side.published.getLast? = some event)
    {stage : Stage} (content : ∀ block content, event = .delta block content → content ≠ [] ∧ stage ≠ .flushed)
    (taken : side.published = side.taken ++ [event]) (early : stage ≠ .appended) (ticket : Nat) :
    Served entry index event side.published ((side.flush index).wait index ⟨stage, event, ticket⟩) := by
  have flushed : Holding (some index) (side.flush index) := holding.gentle gentle_flush
  refine Served.wait flushed ⟨.inr here, last, content, ?_, ?_, fun _ => .inl here⟩ rfl
  · refine ⟨state.flush, ?_, rfl, fun late => (early late).elim⟩
    rw [RunSide.flush, made_change, if_pos rfl, found]
    rfl
  · rw [if_neg early]
    exact taken

theorem Served.receive (holding : Holding (some index) side) (taken : side.taken = side.published)
    {next : RunSide × Option Wait} (here : entry = some index)
    (received : side.receive maxBatchChars index event = some next) :
    Served entry index event (side.published ++ [event]) next := by
  obtain ⟨state, found, received⟩ := Option.bind_eq_some_iff.mp received
  have holding : Holding (some index) { side with published := side.published ++ [event] } :=
    ⟨holding.bound, holding.coherent, holding.idle, holding.stream⟩
  have last : (side.published ++ [event]).getLast? = some event := List.getLast?_concat
  have taken : side.published ++ [event] = side.taken ++ [event] := by rw [taken]
  cases event with
  | delta block content =>
    simp only at received
    split at received
    next empty =>
      cases received
      subst empty
      refine Served.finish (holding.take rfl) (.inr here) taken.symm last ?_
      intro wrong
      obtain none | final := wrong
      · rw [here] at none
        cases none
      · cases final
    next filled =>
      have content (other : StreamDeltaType) (text : List Nat) (same : OutboundEvent.delta block content = .delta other text) :
          text ≠ [] ∧ Stage.switching ≠ .flushed := by
        cases same
        exact ⟨filled, fun wrong => by cases wrong⟩
      split at received
      next =>
        cases received
        exact Served.await holding found here last content taken (fun wrong => by cases wrong) _
      next same =>
        cases received
        exact Served.fill holding found here filled (Bool.eq_false_iff.mpr same) taken
  | start | stop | draftReset | draftCommit | done | error | other =>
    cases received
    refine Served.await holding found here last ?_ taken (fun wrong => by cases wrong) _
    intro _ _ wrong
    cases wrong

theorem relayed_of_platform {platformEvent : StreamEvent} (platform : toPlatformStreamEvent event = some platformEvent) :
    relayed event = [platformEvent] := by
  cases event with
  | delta => cases platform
  | start | stop | draftReset | draftCommit | done | error | other =>
    rw [relayed, platform]
    · rfl
    · exact fun _ _ wrong => by cases wrong

theorem relayed_of_none (platform : toPlatformStreamEvent event = none)
    (plain : ∀ block content, event ≠ .delta block content) : tokens (relayed event) = [] := by
  rw [relayed, platform]
  · rfl
  · exact plain

theorem Fits.inUse (fits : Fits entry side) {wait : Wait} (publishing : side.publishing = some (index, wait)) :
    Holding (some index) side := by
  have holding := fits.holding
  rwa [live, publishing] at holding

theorem Served.resume (fits : Fits entry side) {wait : Wait} (publishing : side.publishing = some (index, wait))
    (left : wait.event.isFinal → backlog side index = []) {next : RunSide × Option Wait}
    (resumed : side.resume maxBatchChars index wait = some next) : Served entry index wait.event side.published next := by
  have holding := fits.inUse publishing
  obtain ⟨known, last, content, ⟨state, found, still, ticket⟩, taken, bare⟩ := fits.waits index wait publishing
  simp only [RunSide.resume, found, Option.bind_eq_bind, Option.bind_some] at resumed
  split at resumed
  next => cases resumed
  next through =>
  obtain ⟨stage, event, number⟩ := wait
  cases stage with
  | switching =>
    have here : entry = some index := (bare rfl).resolve_right fun wrong => wrong.1 rfl
    cases event with
    | delta block text =>
      cases resumed
      exact Served.fill holding found here (content block text rfl).1 (by simp [still]) taken
    | start | stop | draftReset | draftCommit | done | error | other => cases resumed
  | flushed =>
    simp only at resumed
    split at resumed
    next platformEvent platform =>
      cases resumed
      have nothing : (state.enqueueAppend [platformEvent]).pending = [] := pending_of_none still
      have added : tokens (backlogOf (state.enqueueAppend [platformEvent])) =
          tokens (backlogOf state) ++ tokens (relayed event) := by
        rw [backlogOf, backlogOf, nothing, pending_of_none still, relayed_of_platform platform, List.append_nil,
          List.append_nil]
        exact tokens_append _ _
      have put : Holding (some index) ((side.take event).change index fun _ => state.enqueueAppend [platformEvent]) :=
        holding.put found (holding.coherent state (List.mem_of_getElem? found)) added
      refine Served.wait put ⟨known, last, ?_, ?_, taken, fun wrong => by cases wrong⟩ rfl
      · intro block text delta
        exact ((content block text delta).2 rfl).elim
      · refine ⟨state.enqueueAppend [platformEvent], ?_, still, fun _ => rfl⟩
        rw [made_change, if_pos rfl]
        exact congrArg (Option.map _) found
    next platform =>
      cases resumed
      have nothing := relayed_of_none platform fun block text delta => (content block text delta).2 rfl
      refine Served.finish (holding.take nothing) known taken.symm last ?_
      intro reason
      obtain gone | final := reason
      · exact ((bare (by simp [ownAppend, platform])).resolve_left fun here => by simp [gone] at here).2
      · exact left final
  | appended =>
    cases resumed
    refine Served.finish holding known taken.symm last fun _ => ?_
    have number : number = state.appended + state.queue.length := ticket rfl
    have empty : state.queue = [] := List.eq_nil_of_length_eq_zero (by simp only at through; omega)
    rw [backlog_found found, backlogOf, empty, pending_of_none still]
    rfl

theorem Fits.gentle (fits : Fits entry side) {f : RelayState → RelayState} (gentle : Gentle f) :
    Fits entry (side.change index f) where
  holding := fits.holding.gentle gentle
  waits place wait publishing := by
    obtain ⟨known, last, content, ⟨state, found, still, ticket⟩, taken, bare⟩ := fits.waits place wait publishing
    refine ⟨known, last, content, ?_, taken, ?_⟩
    · by_cases same : index = place
      · obtain ⟨kept, chain⟩ := gentle.pending state still
        refine ⟨f state, ?_, kept, fun late => (ticket late).trans chain.symm⟩
        rw [made_change, if_pos same, found]
        rfl
      · refine ⟨state, ?_, still, ticket⟩
        rw [made_change, if_neg same]
        exact found
    · rw [backlog_gentle gentle]
      exact bare
  taken := fits.taken
  final := fits.final

theorem Fits.append (fits : Fits entry side) (appended : side.append index true = some after) :
    Fits entry after ∧ after.published = side.published ∧ after.publishing = side.publishing := by
  obtain ⟨holding, here⟩ := fits.holding.append appended
  obtain ⟨state, found, appended⟩ := Option.bind_eq_some_iff.mp appended
  split at appended
  next => cases appended
  next event queue waiting =>
    cases appended
    refine ⟨⟨holding, fun place wait publishing => ?_, fits.taken, fits.final⟩, rfl, rfl⟩
    change side.publishing = _ at publishing
    have same : place = index := by
      rw [live, publishing] at here
      exact Option.some.inj here
    subst same
    obtain ⟨known, last, content, ⟨old, present, still, ticket⟩, taken, bare⟩ := fits.waits place wait publishing
    cases found.symm.trans present
    refine ⟨known, last, content, ⟨{ state with queue, appended := state.appended + 1 }, ?_, still, fun late => ?_⟩, taken, ?_⟩
    · change (side.change place _).made[place]? = _
      rw [made_change, if_pos rfl, found]
      rfl
    · rw [ticket late, RelayState.chain, RelayState.chain, waiting, List.length_cons]
      simp only
      omega
    · intro other
      refine .inl ((bare other).resolve_right fun wrong => ?_)
      have empty := wrong.2
      rw [backlog_found found, backlogOf, waiting] at empty
      cases empty

theorem Fits.remove (fits : Fits (some index) side) (removable : Removable side index) : Fits none side := by
  cases publishing : side.publishing with
  | none =>
    have empty : backlog side index = [] := by
      simp only [Removable, publishing] at removable
      exact (removable.resolve_left fun wrong => by cases wrong).2
    have holding := fits.holding
    rw [live, publishing] at holding
    refine ⟨?_, fun _ _ found => ?_, fits.taken, fun _ _ => rfl⟩
    · rw [live, publishing]
      exact holding.release empty
    · rw [publishing] at found
      cases found
  | some now =>
    obtain ⟨place, wait⟩ := now
    have holding := fits.holding
    rw [live, publishing] at holding
    obtain ⟨known, last, content, present, taken, bare⟩ := fits.waits place wait publishing
    have same : index = place := Option.some.inj (known.resolve_left fun wrong => by cases wrong)
    subst same
    refine ⟨?_, fun other waiting found => ?_, fits.taken, fun _ _ => rfl⟩
    · rw [live, publishing]
      exact holding
    · rw [publishing] at found
      cases found
      refine ⟨.inl rfl, last, content, present, taken, fun other => .inr ?_⟩
      simp only [Removable, publishing, Option.any_some, Option.all_some, decide_eq_true_eq] at removable
      exact removable.resolve_left fun wrong => by rw [other] at wrong; cases wrong

variable {shared next : Shared}

def Fitting (shared : Shared) : Prop := ∀ runId, Fits (shared.states.get runId) (shared.sides runId)

/-- Nothing was published since a `flushAll` took stock of a run, so its entry stays away. -/
def Untouched (shared : Shared) (extent : String → Option Nat) (left : String → Prop) : Prop :=
  ∀ runId n, extent runId = some n → n ≤ (shared.sides runId).published.length ∧
    (n = (shared.sides runId).published.length →
      (shared.sides runId).publishing = none ∧ (shared.states.get runId = none ∨ left runId))

structure Valid (shared : Shared) : Prop where
  fits : Fitting shared
  flushed : ∀ extent ∈ shared.flushed, Untouched shared extent fun _ => False

def Asserted (shared : Shared) : Call → Prop
  | .waiting runId index wait => (shared.sides runId).publishing = some (index, wait)
  | .flushing tasks extent => Untouched shared extent fun runId => ∃ task ∈ tasks, task.runId = runId
  | _ => True

def Apart : Call → Call → Prop
  | .waiting runId _ _, .waiting other _ _ => runId ≠ other
  | _, _ => True

def Grows (shared after : Shared) : Prop :=
  ∀ runId, (shared.sides runId).published.length ≤ (after.sides runId).published.length ∧
    ((shared.sides runId).published.length = (after.sides runId).published.length →
      (shared.sides runId).publishing = none → (after.sides runId).publishing = none ∧
        (shared.states.get runId = none → after.states.get runId = none))

theorem Grows.untouched (grows : Grows shared next) {extent : String → Option Nat} {left : String → Prop}
    (untouched : Untouched shared extent left) : Untouched next extent left := by
  intro runId n known
  obtain ⟨most, still⟩ := untouched runId n known
  obtain ⟨more, quiet⟩ := grows runId
  refine ⟨Nat.le_trans most more, fun same => ?_⟩
  have before : n = (shared.sides runId).published.length := by omega
  obtain ⟨idle, gone⟩ := still before
  obtain ⟨kept, away⟩ := quiet (by omega) idle
  exact ⟨kept, gone.imp away id⟩

/-- A step that is no part of a publish. -/
structure Quiet (shared next : Shared) : Prop where
  fits : Fitting next
  published : ∀ runId, (next.sides runId).published = (shared.sides runId).published
  publishing : ∀ runId, (next.sides runId).publishing = (shared.sides runId).publishing
  gone : ∀ runId, shared.states.get runId = none → next.states.get runId = none
  flushed : next.flushed = shared.flushed

theorem Quiet.grows (quiet : Quiet shared next) : Grows shared next := by
  intro runId
  rw [quiet.published, quiet.publishing]
  exact ⟨Nat.le_refl _, fun _ idle => ⟨idle, quiet.gone runId⟩⟩

theorem setSide_sides (shared : Shared) (runId other : String) (side : RunSide) :
    (shared.setSide runId side).sides other = if other = runId then side else shared.sides other := rfl

theorem Quiet.set (fitting : Fitting shared) {runId : String} {side : RunSide}
    (fits : Fits (shared.states.get runId) side) (published : side.published = (shared.sides runId).published)
    (publishing : side.publishing = (shared.sides runId).publishing) : Quiet shared (shared.setSide runId side) where
  fits other := by
    rw [setSide_sides]
    split
    next same => exact same ▸ fits
    next => exact fitting other
  published other := by
    rw [setSide_sides]
    split
    next same => rw [published, same]
    next => rfl
  publishing other := by
    rw [setSide_sides]
    split
    next same => rw [publishing, same]
    next => rfl
  gone _ none := none
  flushed := rfl

theorem Quiet.refl (fitting : Fitting shared) : Quiet shared shared :=
  ⟨fitting, fun _ => rfl, fun _ => rfl, fun _ none => none, rfl⟩

theorem Quiet.flushEach (fitting : Fitting shared) : Quiet shared shared.flushEach where
  fits runId := by
    have fits := fitting runId
    change Fits (shared.states.get runId) _
    simp only [Shared.flushEach]
    split
    · exact fits.gentle gentle_flush
    · exact fits
  published runId := by
    simp only [Shared.flushEach]
    split <;> rfl
  publishing runId := by
    simp only [Shared.flushEach]
    split <;> rfl
  gone _ none := none
  flushed := rfl

theorem Quiet.remove (fitting : Fitting shared) {runId : String} {index : Nat}
    (removable : ∀ place, shared.states.get runId = some place → Removable (shared.sides runId) place) :
    Quiet shared (shared.remove runId index) where
  fits other := by
    change Fits ((shared.states.erase runId).get other) ((shared.setSide runId _).sides other)
    rw [setSide_sides]
    split
    next same =>
      subst same
      rw [Dictionary.get_erase_self]
      cases found : shared.states.get other with
      | none =>
        have fits := fitting other
        rw [found] at fits
        exact fits.gentle gentle_clearTimer
      | some place =>
        have fits := fitting other
        rw [found] at fits
        exact (fits.remove (removable place found)).gentle gentle_clearTimer
    next other =>
      rw [Dictionary.get_erase_of_ne other]
      exact fitting _
  published other := by
    change ((shared.setSide runId _).sides other).published = _
    rw [setSide_sides]
    split
    next same => rw [same]; rfl
    next => rfl
  publishing other := by
    change ((shared.setSide runId _).sides other).publishing = _
    rw [setSide_sides]
    split
    next same => rw [same]; rfl
    next => rfl
  gone other none := by
    change (shared.states.erase runId).get other = _
    by_cases same : other = runId
    · rw [same, Dictionary.get_erase_self]
    · rw [Dictionary.get_erase_of_ne same, none]
  flushed := rfl

structure Publishes (shared next : Shared) (runId : String) (published : List OutboundEvent)
    (publishing : Option (Nat × Wait)) : Prop where
  fits : Fits (next.states.get runId) (next.sides runId)
  published : (next.sides runId).published = published
  publishing : (next.sides runId).publishing = publishing
  others : ∀ other, other ≠ runId → next.sides other = shared.sides other ∧ next.states.get other = shared.states.get other
  flushed : next.flushed = shared.flushed

theorem settle_publishes {runId : String} {published : List OutboundEvent} {result : RunSide × Option Wait} {rest : Option Call}
    (served : Served (shared.states.get runId) index event published result)
    (settled : settle shared runId index event result = (next, rest)) :
    Publishes shared next runId published (result.2.map fun wait => (index, wait)) ∧
      rest = result.2.map (Call.waiting runId index) := by
  have here : (shared.setSide runId result.1).sides runId = result.1 := if_pos rfl
  have away (other : String) (apart : other ≠ runId) : (shared.setSide runId result.1).sides other = shared.sides other :=
    if_neg apart
  cases waits : result.2 with
  | some wait =>
    simp only [settle, waits] at settled
    cases settled
    refine ⟨⟨?_, ?_, ?_, fun other apart => ⟨away other apart, rfl⟩, rfl⟩, rfl⟩
    · rw [here]
      exact served.goesOn (.inl (by simp [waits]))
    · rw [here, served.published]
    · rw [here, served.publishing, waits]
  | none =>
    simp only [settle, waits] at settled
    split at settled
    next final =>
      cases settled
      have removed : ((shared.setSide runId result.1).remove runId index).sides runId =
          result.1.change index RelayState.clearTimer := by
        simp [Shared.remove, Shared.setSide]
      refine ⟨⟨?_, ?_, ?_, fun other apart => ⟨?_, ?_⟩, rfl⟩, rfl⟩
      · rw [removed]
        change Fits ((shared.states.erase runId).get runId) _
        rw [Dictionary.get_erase_self]
        exact (served.ends waits final).gentle gentle_clearTimer
      · rw [removed]
        exact served.published
      · rw [removed]
        change result.1.publishing = _
        rw [served.publishing, waits]
      · simp [Shared.remove, Shared.setSide, apart]
      · exact Dictionary.get_erase_of_ne apart
    next plain =>
      cases settled
      refine ⟨⟨?_, ?_, ?_, fun other apart => ⟨away other apart, rfl⟩, rfl⟩, rfl⟩
      · rw [here]
        exact served.goesOn (.inr (Bool.eq_false_iff.mpr plain))
      · rw [here, served.published]
      · rw [here, served.publishing, waits]

structure Located (shared next : Shared) (runId : String) (index : Nat) : Prop where
  holding : Holding (some index) (next.sides runId)
  here : next.states.get runId = some index
  taken : (next.sides runId).taken = (shared.sides runId).taken
  published : (next.sides runId).published = (shared.sides runId).published
  others : ∀ other, other ≠ runId → next.sides other = shared.sides other ∧ next.states.get other = shared.states.get other
  flushed : next.flushed = shared.flushed

theorem getState_located {runId sessionId tenantId : String} (fits : Fits (shared.states.get runId) (shared.sides runId))
    (idle : (shared.sides runId).publishing = none) (located : shared.getState runId sessionId tenantId = some (next, index)) :
    Located shared next runId index := by
  have holding := fits.holding
  rw [live, idle] at holding
  simp only [Shared.getState] at located
  split at located
  next place found =>
    split at located
    · cases located
      exact ⟨found ▸ holding, found, rfl, rfl, fun _ _ => ⟨rfl, rfl⟩, rfl⟩
    · cases located
  next absent =>
    cases located
    rw [absent] at holding
    have made := holding.create sessionId tenantId
    refine ⟨?_, Dictionary.get_set_self _ _ _, ?_, ?_, fun other apart => ⟨if_neg apart, ?_⟩, rfl⟩
    · simpa [Shared.setSide] using made
    · simp [Shared.setSide]
    · simp [Shared.setSide]
    · exact Dictionary.get_set_of_ne apart

theorem publish_publishes {context : RelayRunContext} {rest : Option Call} (fitting : Fitting shared)
    (idle : (shared.sides context.runId).publishing = none)
    (moved : publish maxBatchChars shared event context = some (next, rest)) :
    shared = next ∧ rest = none ∨ ∃ (index : Nat) (waits : Option Wait),
      Publishes shared next context.runId ((shared.sides context.runId).published ++ [event])
        (waits.map fun wait => (index, wait)) ∧ rest = waits.map (Call.waiting context.runId index) := by
  unfold OutboundStreamRelay.publish at moved
  split at moved
  · cases moved
    exact .inl ⟨rfl, rfl⟩
  split at moved
  · cases moved
    exact .inl ⟨rfl, rfl⟩
  split at moved
  · cases moved
    exact .inl ⟨rfl, rfl⟩
  next middle index found =>
    obtain ⟨result, received, settled⟩ := Option.map_eq_some_iff.mp moved
    have fits := fitting context.runId
    have located := getState_located fits idle found
    have served := Served.receive located.holding
      (located.taken.trans ((fits.taken idle).trans located.published.symm)) located.here received
    obtain ⟨publishes, same⟩ := settle_publishes served settled
    refine .inr ⟨index, result.2, ⟨publishes.fits, ?_, publishes.publishing, fun other apart => ?_, ?_⟩, same⟩
    · rw [publishes.published, located.published]
    · obtain ⟨side, entry⟩ := publishes.others other apart
      obtain ⟨sideBefore, entryBefore⟩ := located.others other apart
      exact ⟨side.trans sideBefore, entry.trans entryBefore⟩
    · exact publishes.flushed.trans located.flushed

theorem waiting_publishes {runId : String} {wait : Wait} {rest : Option Call} (fitting : Fitting shared)
    (publishing : (shared.sides runId).publishing = some (index, wait))
    (left : wait.event.isFinal → backlog (shared.sides runId) index = [])
    (moved : ((shared.sides runId).resume maxBatchChars index wait).map (settle shared runId index wait.event) =
      some (next, rest)) :
    ∃ waits : Option Wait, Publishes shared next runId (shared.sides runId).published (waits.map fun wait => (index, wait)) ∧
      rest = waits.map (Call.waiting runId index) := by
  obtain ⟨result, resumed, settled⟩ := Option.map_eq_some_iff.mp moved
  obtain ⟨publishes, same⟩ := settle_publishes (Served.resume (fitting runId) publishing left resumed) settled
  exact ⟨result.2, publishes, same⟩

theorem Publishes.grows {runId : String} {published : List OutboundEvent} {publishing : Option (Nat × Wait)}
    (publishes : Publishes shared next runId published publishing)
    (more : (shared.sides runId).published.length < published.length ∨
      (shared.sides runId).published.length ≤ published.length ∧ (shared.sides runId).publishing ≠ none) :
    Grows shared next := by
  intro other
  by_cases same : other = runId
  · subst same
    rw [publishes.published]
    refine ⟨by omega, fun equal idle => ?_⟩
    obtain less | ⟨_, busy⟩ := more
    · omega
    · exact (busy idle).elim
  · obtain ⟨side, entry⟩ := publishes.others other same
    rw [side, entry]
    exact ⟨Nat.le_refl _, fun _ idle => ⟨idle, id⟩⟩

theorem Publishes.fitting {runId : String} {published : List OutboundEvent} {publishing : Option (Nat × Wait)}
    (publishes : Publishes shared next runId published publishing) (fitting : Fitting shared) : Fitting next := by
  intro other
  by_cases same : other = runId
  · exact same ▸ publishes.fits
  · obtain ⟨side, entry⟩ := publishes.others other same
    rw [side, entry]
    exact fitting other

structure Effect (shared next : Shared) (call : Call) (rest : Option Call) : Prop where
  valid : Valid next
  grows : Grows shared next
  asserted : ∀ left, rest = some left → Asserted next left
  publishing : ∀ runId, (∀ event context, call = .publish event context → runId ≠ context.runId) →
    (∀ index wait, call ≠ .waiting runId index wait) → (next.sides runId).publishing = (shared.sides runId).publishing
  /-- Only the publishes of a run wait for it. -/
  run : ∀ runId index wait, rest = some (.waiting runId index wait) →
    (∃ event context, call = .publish event context ∧ context.runId = runId) ∨
      ∃ index wait, call = .waiting runId index wait

theorem Valid.grown (valid : Valid shared) (fitting : Fitting next) (grows : Grows shared next)
    (flushed : next.flushed = shared.flushed) : Valid next :=
  ⟨fitting, fun extent member => grows.untouched (valid.flushed extent (flushed ▸ member))⟩

theorem Quiet.effect (quiet : Quiet shared next) (valid : Valid shared) {call : Call} {rest : Option Call}
    (asserted : ∀ left, rest = some left → Asserted next left)
    (other : ∀ runId index wait, rest ≠ some (.waiting runId index wait)) : Effect shared next call rest where
  valid := valid.grown quiet.fits quiet.grows quiet.flushed
  grows := quiet.grows
  asserted := asserted
  publishing runId _ _ := quiet.publishing runId
  run runId index wait wrong := (other runId index wait wrong).elim

theorem Publishes.effect {runId : String} {published : List OutboundEvent} {waits : Option Wait} {call : Call}
    (publishes : Publishes shared next runId published (waits.map fun wait => (index, wait))) (valid : Valid shared)
    (more : (shared.sides runId).published.length < published.length ∨
      (shared.sides runId).published.length ≤ published.length ∧ (shared.sides runId).publishing ≠ none)
    (called : (∃ event context, call = .publish event context ∧ context.runId = runId) ∨
      ∃ index wait, call = .waiting runId index wait) :
    Effect shared next call (waits.map (Call.waiting runId index)) where
  valid := valid.grown (publishes.fitting valid.fits) (publishes.grows more) publishes.flushed
  grows := publishes.grows more
  asserted left same := by
    obtain ⟨wait, found, rfl⟩ := Option.map_eq_some_iff.mp same
    change (next.sides runId).publishing = _
    rw [publishes.publishing, found]
    rfl
  publishing other notPublish notWaiting := by
    have apart : other ≠ runId := by
      rintro rfl
      obtain ⟨event, context, rfl, same⟩ | ⟨index, wait, rfl⟩ := called
      · exact notPublish event context rfl same.symm
      · exact notWaiting index wait rfl
    rw [(publishes.others other apart).1]
  run other place wait same := by
    obtain ⟨_, _, same⟩ := Option.map_eq_some_iff.mp same
    cases same
    exact called

theorem publish_effect {context : RelayRunContext} {rest : Option Call} (valid : Valid shared)
    (idle : (shared.sides context.runId).publishing = none)
    (moved : publish maxBatchChars shared event context = some (next, rest)) :
    Effect shared next (.publish event context) rest := by
  obtain ⟨rfl, rfl⟩ | ⟨index, waits, publishes, rfl⟩ := publish_publishes valid.fits idle moved
  · exact (Quiet.refl valid.fits).effect valid (fun _ wrong => by cases wrong) (fun _ _ _ wrong => by cases wrong)
  · apply publishes.effect valid
    · exact .inl (by simp)
    · exact .inl ⟨event, context, rfl, rfl⟩

theorem waiting_effect {runId : String} {wait : Wait} {rest : Option Call} (valid : Valid shared)
    (publishing : (shared.sides runId).publishing = some (index, wait))
    (left : wait.event.isFinal → backlog (shared.sides runId) index = [])
    (moved : ((shared.sides runId).resume maxBatchChars index wait).map (settle shared runId index wait.event) =
      some (next, rest)) : Effect shared next (.waiting runId index wait) rest := by
  obtain ⟨waits, publishes, rfl⟩ := waiting_publishes valid.fits publishing left moved
  apply publishes.effect valid
  · exact .inr ⟨Nat.le_refl _, by simp [publishing]⟩
  · exact .inr ⟨index, wait, rfl⟩

theorem stepTask_quiet {task : FlushTask} {result : Option FlushTask} (valid : Valid shared)
    (removable : MayRemove shared task) (stepped : stepTask shared task = some (next, result)) :
    Quiet shared next ∧ (∀ later, result = some later → later.runId = task.runId) ∧
      (result = none → next.states.get task.runId = none) := by
  obtain ⟨state, _, stepped⟩ := Option.bind_eq_some_iff.mp stepped
  split at stepped
  · cases stepped
  split at stepped
  next chained =>
    cases stepped
    have left (index : Nat) (found : shared.states.get task.runId = some index) :
        Removable (shared.sides task.runId) index := by
      simp only [MayRemove, found] at removable
      exact removable chained
    refine ⟨Quiet.remove valid.fits left, ?_, fun _ => Dictionary.get_erase_self _⟩
    intro later wrong
    cases wrong
  next =>
    cases stepped
    refine ⟨Quiet.refl valid.fits, ?_, fun wrong => (by cases wrong)⟩
    intro later same
    cases same
    rfl

theorem tasks_left (task : FlushTask) {tasks left : List FlushTask} {extent : String → Option Nat}
    (kept : ∀ other ∈ tasks, other.runId = task.runId ∨ ∃ same ∈ left, same.runId = other.runId)
    (gone : (∃ same ∈ left, same.runId = task.runId) ∨ next.states.get task.runId = none)
    (untouched : Untouched next extent fun runId => ∃ task ∈ tasks, task.runId = runId) :
    Untouched next extent fun runId => ∃ task ∈ left, task.runId = runId := by
  intro runId n known
  obtain ⟨most, still⟩ := untouched runId n known
  refine ⟨most, fun same => ?_⟩
  obtain ⟨idle, absent | ⟨other, member, rfl⟩⟩ := still same
  · exact ⟨idle, .inl absent⟩
  · refine ⟨idle, ?_⟩
    obtain here | later := kept other member
    · rw [here]
      exact gone.symm
    · exact .inr later

theorem mem_set_or {tasks : List FlushTask} {place : Nat} {task later other : FlushTask}
    (found : tasks[place]? = some task) (member : other ∈ tasks) :
    other = task ∨ other ∈ tasks.set place later := by
  obtain ⟨index, present⟩ := List.mem_iff_getElem?.mp member
  by_cases same : place = index
  · subst same
    exact .inl (Option.some.inj (present.symm.trans found))
  · refine .inr (List.mem_iff_getElem?.mpr ⟨index, ?_⟩)
    rw [List.getElem?_set_ne same, present]

theorem mem_eraseIdx_or {tasks : List FlushTask} {place : Nat} {task other : FlushTask}
    (found : tasks[place]? = some task) (member : other ∈ tasks) :
    other = task ∨ other ∈ tasks.eraseIdx place := by
  obtain ⟨index, present⟩ := List.mem_iff_getElem?.mp member
  by_cases same : index = place
  · subst same
    exact .inl (Option.some.inj (present.symm.trans found))
  · exact .inr (List.mem_eraseIdx_iff_getElem?.mpr ⟨index, same, present⟩)

theorem task_effect {tasks : List FlushTask} {extent : String → Option Nat} {place : Nat} {task : FlushTask}
    {result : Option FlushTask} (valid : Valid shared) (asserted : Asserted shared (.flushing tasks extent))
    (found : tasks[place]? = some task)
    (removable : MayRemove shared task) (stepped : stepTask shared task = some (next, result)) :
    Effect shared next (.flushing tasks extent)
      (some (.flushing (result.elim (tasks.eraseIdx place) (tasks.set place)) extent)) := by
  obtain ⟨quiet, later, gone⟩ := stepTask_quiet valid removable stepped
  refine quiet.effect valid (fun left same => ?_) (fun _ _ _ wrong => by cases wrong)
  cases same
  refine tasks_left task ?_ ?_ (quiet.grows.untouched asserted)
  · intro other member
    cases result with
    | none =>
      obtain rfl | kept := mem_eraseIdx_or found member
      · exact .inl rfl
      · exact .inr ⟨other, kept, rfl⟩
    | some next =>
      obtain rfl | kept := mem_set_or found member
      · exact .inl rfl
      · exact .inr ⟨other, kept, rfl⟩
  · cases result with
    | none => exact .inr (gone rfl)
    | some next => exact .inl ⟨next, List.mem_set (List.getElem?_eq_some_iff.mp found).1 _, later next rfl⟩

theorem flushAll_effect (valid : Valid shared) :
    Effect shared shared.flushEach .flushAll (some (.flushing shared.flushTasks shared.extent)) := by
  have quiet := Quiet.flushEach valid.fits
  refine quiet.effect valid (fun left same => ?_) (fun _ _ _ wrong => by cases wrong)
  cases same
  intro runId n known
  rw [quiet.published, quiet.publishing]
  simp only [Shared.extent] at known
  split at known
  next idle =>
    cases known
    refine ⟨Nat.le_refl _, fun _ => ⟨idle, ?_⟩⟩
    cases entry : shared.states.get runId with
    | none => exact .inl entry
    | some index => exact .inr ⟨_, List.mem_map_of_mem (Dictionary.mem_entries.mpr entry), rfl⟩
  next => cases known

theorem flushed_effect {extent : String → Option Nat} (valid : Valid shared) (asserted : Asserted shared (.flushing [] extent)) :
    Effect shared { shared with flushed := shared.flushed ++ [extent] } (.flushing [] extent) none where
  valid := by
    refine ⟨valid.fits, fun other member => ?_⟩
    obtain old | new := List.mem_append.mp member
    · exact valid.flushed other old
    · rw [List.mem_singleton.mp new]
      intro runId n known
      obtain ⟨most, still⟩ := asserted runId n known
      refine ⟨most, fun same => ?_⟩
      obtain ⟨idle, gone⟩ := still same
      exact ⟨idle, .inl (gone.resolve_right fun wrong => by obtain ⟨_, member, _⟩ := wrong; cases member)⟩
  grows runId := ⟨Nat.le_refl _, fun _ idle => ⟨idle, id⟩⟩
  asserted _ wrong := by cases wrong
  publishing _ _ _ := rfl
  run _ _ _ wrong := by cases wrong

def Careful (shared : Shared) (call : Call) (move : Move) : Prop := Given shared call move ∧ NothingLeft shared call move

theorem advance_effect {call : Call} {move : Move} {rest : Option Call} (valid : Valid shared) (asserted : Asserted shared call)
    (careful : Careful shared call move) (moved : advance maxBatchChars shared call move = some (next, rest)) :
    Effect shared next call rest := by
  obtain ⟨given, nothing⟩ := careful
  unfold advance at moved
  split at moved
  next event context => exact publish_effect valid given moved
  next runId index wait => exact waiting_effect valid asserted nothing moved
  next =>
    cases moved
    exact flushAll_effect valid
  next =>
    cases moved
    exact flushed_effect valid asserted
  next tasks extent place =>
    obtain ⟨task, found, moved⟩ := Option.bind_eq_some_iff.mp moved
    obtain ⟨⟨after, result⟩, stepped, moved⟩ := Option.bind_eq_some_iff.mp moved
    have effect := task_effect valid asserted found (by simpa only [NothingLeft, found] using nothing) stepped
    cases result with
    | some later =>
      cases moved
      exact effect
    | none =>
      cases moved
      exact effect
  next runId index =>
    obtain ⟨side, fired, same⟩ := Option.map_eq_some_iff.mp moved
    cases same
    obtain ⟨state, _, fired⟩ := Option.bind_eq_some_iff.mp fired
    split at fired
    · cases fired
      have fits : Fits (shared.states.get runId) ((shared.sides runId).flush index) := (valid.fits runId).gentle gentle_flush
      have quiet := Quiet.set valid.fits fits rfl rfl
      exact quiet.effect valid (fun _ wrong => by cases wrong) (fun _ _ _ wrong => by cases wrong)
    · cases fired
  next runId index =>
    obtain ⟨side, appended, same⟩ := Option.map_eq_some_iff.mp moved
    cases same
    obtain ⟨fits, published, publishing⟩ := (valid.fits runId).append appended
    have quiet := Quiet.set valid.fits fits published publishing
    exact quiet.effect valid (fun _ wrong => by cases wrong) (fun _ _ _ wrong => by cases wrong)
  next => exact given.elim
  next => cases moved

def outline : Outline Shared Call := ⟨Valid, Asserted, Apart, Grows⟩

def careful (maxBatchChars : Nat) : System Shared Call Move := relay maxBatchChars Careful

theorem asserted_kept {call other : Call} {move : Move} {rest : Option Call} (effect : Effect shared next call rest)
    (asserted : Asserted shared call) (given : Given shared call move) (held : Asserted shared other)
    (apart : Apart call other) : Asserted next other := by
  cases other with
  | waiting runId index wait =>
    change (next.sides runId).publishing = _
    rw [effect.publishing runId]
    · exact held
    · intro event context same here
      subst same here
      have idle : (shared.sides context.runId).publishing = none := given
      cases idle.symm.trans held
    · intro place waiting same
      subst same
      exact apart rfl
  | flushing tasks extent => exact effect.grows.untouched held
  | publish | flushAll | timer | append => trivial

theorem outline_sound (maxBatchChars : Nat) : outline.Sound (careful maxBatchChars) where
  refl shared runId := ⟨Nat.le_refl _, fun _ idle => ⟨idle, id⟩⟩
  trans {a b c} first second runId := by
    obtain ⟨more, quiet⟩ := first runId
    obtain ⟨further, still⟩ := second runId
    refine ⟨Nat.le_trans more further, fun same idle => ?_⟩
    obtain ⟨kept, away⟩ := quiet (by omega) idle
    obtain ⟨last, gone⟩ := still (by omega) kept
    exact ⟨last, fun absent => gone (away absent)⟩
  symm {call other} apart := by
    cases call <;> cases other <;> try trivial
    exact fun same => apart same.symm
  starts {shared call} valid started := by
    cases call with
    | waiting | flushing => exact started.elim
    | publish | flushAll | timer | append => exact ⟨trivial, fun _ _ => trivial⟩
  advances {shared call move after rest} valid asserted permitted moved := by
    have effect := advance_effect valid asserted permitted moved
    refine ⟨effect.valid, effect.grows, fun left same => ⟨effect.asserted left same, fun other held apart => ?_⟩⟩
    cases left with
    | waiting runId index wait =>
      cases other with
      | waiting second place waiting =>
        intro here
        obtain ⟨event, context, called, same⟩ | ⟨_, _, called⟩ := effect.run runId index wait same
        · subst called same here
          have idle : (shared.sides context.runId).publishing = none := permitted.1
          cases idle.symm.trans held
        · subst called
          exact apart here
      | publish | flushAll | flushing | timer | append => trivial
    | publish | flushAll | flushing | timer | append => trivial
  stable valid asserted permitted moved held apart :=
    asserted_kept (advance_effect valid asserted permitted moved) asserted permitted.1 held apart

theorem Valid.initial : Valid .initial := by
  refine ⟨fun runId => ⟨⟨?_, ?_, ?_, rfl⟩, ?_, fun _ => rfl, fun _ _ => rfl⟩, ?_⟩
  · intro index found
    cases found
  · intro state member
    cases member
  · intro index _
    rfl
  · intro index wait found
    cases found
  · intro extent member
    cases member

/-- In a run where no state is removed with something left in it, a run that is over stands in
the store as it was published. -/
theorem nothing_lost (maxBatchChars : Nat) {world : World Shared Call}
    (run : Run (careful maxBatchChars) ⟨.initial, []⟩ world) : Complete world.shared := by
  have holds : outline.Holds world :=
    (((Outline.Holds.start Valid.initial : outline.Holds _).run (outline_sound maxBatchChars) run)).1
  intro runId idle ended
  have fits := holds.shared.fits runId
  have gone : world.shared.states.get runId = none := by
    obtain final | ⟨extent, member, same⟩ := ended
    · exact fits.final idle final
    · obtain ⟨_, still⟩ := holds.shared.flushed extent member runId _ same
      exact (still rfl).2.resolve_right id
  have stream := fits.holding.stream
  rw [live, idle] at stream
  simp only [gone, Option.elim_none] at stream
  rw [fits.taken idle] at stream
  rw [← stream]
  simp [tokens]

def awaited (maxBatchChars : Nat) : System Shared Call Move := relay maxBatchChars Given

instance (shared : Shared) (call : Call) (move : Move) : Decidable (Given shared call move) :=
  match call, move with
  | .publish _ context, _ => inferInstanceAs (Decidable ((shared.sides context.runId).publishing = none))
  | .append .., .fail .. => isFalse id
  | .append .., .next .. | .append .., .task .. => isTrue trivial
  | .waiting .., _ | .flushAll .., _ | .flushing .., _ | .timer .., _ => isTrue trivial

instance (side : RunSide) (index : Nat) : Decidable (Removable side index) := by
  unfold Removable
  infer_instance

instance (shared : Shared) (task : FlushTask) : Decidable (MayRemove shared task) := by
  unfold MayRemove
  split <;> infer_instance

instance (shared : Shared) (task : Option FlushTask) :
    Decidable (match task with | some task => MayRemove shared task | none => True) :=
  match task with
  | some task => inferInstanceAs (Decidable (MayRemove shared task))
  | none => isTrue trivial

instance (shared : Shared) (call : Call) (move : Move) : Decidable (NothingLeft shared call move) :=
  match call, move with
  | .waiting runId index wait, _ =>
    inferInstanceAs (Decidable (wait.event.isFinal → backlog (shared.sides runId) index = []))
  | .flushing tasks _, .task place =>
    inferInstanceAs (Decidable (match tasks[place]? with | some task => MayRemove shared task | none => True))
  | .flushing .., .next .. | .flushing .., .fail .. => isTrue trivial
  | .publish .., _ | .flushAll .., _ | .timer .., _ | .append .., _ => isTrue trivial

instance (shared : Shared) (call : Call) : Decidable ((careful 256).starts shared call) :=
  inferInstanceAs (Decidable (starts shared call))

instance (shared : Shared) (call : Call) (move : Move) : Decidable ((careful 256).permits shared call move) :=
  inferInstanceAs (Decidable (Given shared call move ∧ NothingLeft shared call move))

instance (shared : Shared) (call : Call) : Decidable ((awaited 256).starts shared call) :=
  inferInstanceAs (Decidable (starts shared call))

instance (shared : Shared) (call : Call) (move : Move) : Decidable ((awaited 256).permits shared call move) :=
  inferInstanceAs (Decidable (Given shared call move))

def once (index : Nat) (call : Call) : List (Turn Call Move) := [.start call, .advance index .next]

def start : World Shared Call := ⟨.initial, []⟩

def context : RelayRunContext := ⟨"r", "s", some "t"⟩

def toTheEnd : Option (World Shared Call) :=
  start.play (careful 256) <|
    once 0 (.publish (.delta .text [72, 105]) context) ++ once 1 (.timer "r" 0) ++ once 2 (.append "r" 0) ++
      once 3 (.publish (.delta .thinking [63]) context) ++ once 4 (.publish .done context) ++
      once 5 (.append "r" 0) ++ [.advance 4 .next]

/-- Text that comes while `flushAll` waits goes with the state. -/
def flushedMeanwhile : Option (World Shared Call) :=
  start.play (awaited 256) <|
    once 0 (.publish (.delta .text [72]) context) ++ once 1 .flushAll ++ once 2 (.append "r" 0) ++
      [.advance 1 (.task 0)] ++ once 3 (.publish (.delta .text [105]) context) ++
      [.advance 1 (.task 0), .advance 1 .next] ++ once 4 (.publish .done context) ++ [.advance 4 .next]

theorem nothing_lost_to_the_end : ∃ world : World Shared Call, Run (careful 256) start world ∧ Over world.shared "r" ∧
    (world.shared.sides "r").durable.map Row.event = [.delta .text [72, 105], .delta .thinking [63]] ∧
    Complete world.shared := by
  obtain ⟨world, played⟩ : ∃ world, toTheEnd = some world := Option.isSome_iff_exists.mp (by decide +kernel)
  have run : Run (careful 256) start world := World.run_of_play _ played
  refine ⟨world, run, .inl ?_, ?_, nothing_lost 256 run⟩
  all_goals
    cases played
    rfl

theorem lost_meanwhile : ¬ ∀ (maxBatchChars : Nat) (world : World Shared Call),
    Run (awaited maxBatchChars) ⟨.initial, []⟩ world → Complete world.shared := by
  intro complete
  obtain ⟨world, played⟩ : ∃ world, flushedMeanwhile = some world := Option.isSome_iff_exists.mp (by decide +kernel)
  have run : Run (awaited 256) start world := World.run_of_play _ played
  have same := complete 256 world run "r"
  cases played
  exact absurd (same rfl (.inl rfl)) (by decide +kernel)

end AgentSaas.Proofs.StreamRelay
