import Mathlib.Algebra.Ring.Nat
import Mathlib.Data.List.Flatten
import Mathlib.Data.List.Perm.Basic
import AgentSaas.EventSubscription

/-! What a subscription has delivered is the beginning of what the log holds after its
boundary, and a wake during a drain brings another scan. -/

namespace AgentSaas.Proofs.EventSubscription
open AgentSaas.EventSubscription AgentSaas.Cursors

variable {ε : Type} {options : SubscribeAppendedOptions} {notifyChannel : String} {table : EventsTable ε}
  {subscription : Subscription ε}

abbrev number (row : EventRow ε) : Nat := row.globalSequence

def EventsTable.rows (table : EventsTable ε) : List (EventRow ε) := table.committed ++ table.inserting.flatten

structure Numbered (table : EventsTable ε) : Prop where
  positive : 0 < table.nextSequence
  distinct : ((EventsTable.rows table).map number).Nodup
  below : ∀ row ∈ EventsTable.rows table, number row < table.nextSequence

theorem Numbered.committed (numbered : Numbered table) : (table.committed.map number).Nodup := by
  have distinct := numbered.distinct
  rw [EventsTable.rows, List.map_append] at distinct
  exact (List.nodup_append.mp distinct).1

theorem insert_rows (table : EventsTable ε) (transaction : Nat) (event : ε) (conflict : Bool) :
    ∃ rows : List (EventRow ε), (rows = [] ∨ rows = [⟨table.nextSequence, event⟩]) ∧
      (EventsTable.rows (table.insert transaction event conflict)).Perm (EventsTable.rows table ++ rows) ∧
      (table.insert transaction event conflict).inserting.flatten.Perm (table.inserting.flatten ++ rows) := by
  let rows : List (EventRow ε) := if conflict then [] else [⟨table.nextSequence, event⟩]
  have added : (table.insert transaction event conflict).inserting.flatten.Perm (table.inserting.flatten ++ rows) := by
    simp only [EventsTable.insert]
    cases found : table.inserting[transaction]? with
    | none => simp [rows]
    | some earlier =>
      obtain ⟨inside, here⟩ := List.getElem?_eq_some_iff.mp found
      have old := (List.getElem_cons_eraseIdx_perm inside).flatten
      have new := (List.set_perm_cons_eraseIdx inside (earlier ++ rows)).flatten
      rw [here, List.flatten_cons] at old
      apply new.trans
      rw [List.flatten_cons, List.append_assoc]
      apply List.Perm.trans _ (old.append_right rows)
      rw [List.append_assoc]
      exact List.Perm.append_left earlier List.perm_append_comm
  refine ⟨rows, ?_, ?_, added⟩
  · cases conflict
    · exact .inr rfl
    · exact .inl rfl
  · rw [EventsTable.rows, EventsTable.rows, List.append_assoc]
    exact List.Perm.append_left _ added

theorem commit_rows (table : EventsTable ε) (transaction : Nat) :
    (EventsTable.rows (table.commit transaction)).Perm (EventsTable.rows table) := by
  simp only [EventsTable.rows, EventsTable.commit]
  cases found : table.inserting[transaction]? with
  | none =>
    rw [List.eraseIdx_of_length_le (List.getElem?_eq_none_iff.mp found)]
    simp
  | some rows =>
    obtain ⟨inside, here⟩ := List.getElem?_eq_some_iff.mp found
    have old := (List.getElem_cons_eraseIdx_perm inside).flatten
    rw [here, List.flatten_cons] at old
    rw [Option.getD_some, List.append_assoc]
    exact List.Perm.append_left _ old

theorem rollback_rows (table : EventsTable ε) (transaction : Nat) :
    (EventsTable.rows (table.rollback transaction)).Sublist (EventsTable.rows table) :=
  List.Sublist.append_left (List.Sublist.flatten (List.eraseIdx_sublist ..)) _

theorem commit_inserting {transaction : Nat} {row : EventRow ε}
    (member : row ∈ (table.inserting[transaction]?).getD [] ∨ row ∈ (table.inserting.eraseIdx transaction).flatten) :
    row ∈ table.inserting.flatten := by
  rcases member with taken | left
  · cases found : table.inserting[transaction]? with
    | none => simp [found] at taken
    | some rows =>
      rw [found] at taken
      exact List.mem_flatten.mpr ⟨rows, List.mem_of_getElem? found, taken⟩
  · exact (List.Sublist.flatten (List.eraseIdx_sublist ..)).mem left

theorem Numbered.write (numbered : Numbered table) (write : Write ε) : Numbered (World.writeStep table write) := by
  cases write with
  | insert transaction event conflict =>
    obtain ⟨rows, shape, same, -⟩ := insert_rows table transaction event conflict
    have fresh : ∀ row ∈ rows, number row = table.nextSequence := by
      intro row member
      rcases shape with rfl | rfl
      · cases member
      · rw [List.mem_singleton.mp member]
    refine ⟨Nat.succ_pos _, ?_, ?_⟩
    · apply ((same.map number).nodup_iff).mpr
      rw [List.map_append, List.nodup_append]
      refine ⟨numbered.distinct, ?_, ?_⟩
      · rcases shape with rfl | rfl
        · exact List.nodup_nil
        · exact List.nodup_singleton _
      · intro old earlier new later equal
        obtain ⟨row, member, rfl⟩ := List.mem_map.mp earlier
        obtain ⟨added, present, rfl⟩ := List.mem_map.mp later
        have := numbered.below row member
        have := fresh added present
        omega
    · intro row member
      rcases List.mem_append.mp (same.mem_iff.mp member) with old | new
      · exact Nat.lt_succ_of_lt (numbered.below row old)
      · rw [fresh row new]
        exact Nat.lt_succ_self _
  | commit transaction =>
    have same := commit_rows table transaction
    exact ⟨numbered.positive, ((same.map number).nodup_iff).mpr numbered.distinct,
      fun row member => numbered.below row (same.mem_iff.mp member)⟩
  | rollback transaction =>
    have fewer := rollback_rows table transaction
    exact ⟨numbered.positive, numbered.distinct.sublist (fewer.map number),
      fun row member => numbered.below row (fewer.mem member)⟩

/-! What the subscription has of the table. -/

/-- The rows that were read and not delivered. -/
def Drain.rows : Drain ε → List (EventRow ε)
  | .fetched rows => rows
  | .calling row rest _ => row :: rest
  | _ => []

/-- The delivered rows are those from the boundary to the watermark, the page goes on from
there, and what is still being inserted comes after it. -/
structure Follows (table : EventsTable ε) (subscription : Subscription ε) : Prop where
  order : subscription.boundary ≤ subscription.globalWatermark
  passed : subscription.delivered = between number subscription.boundary subscription.globalWatermark table.committed
  page : ∃ top, subscription.globalWatermark ≤ top ∧ top < table.nextSequence ∧
    (∀ row ∈ table.inserting.flatten, top < number row) ∧
    Drain.rows subscription.drain = between number subscription.globalWatermark top table.committed
  cursor : ∀ cursor, subscription.drain = .reading cursor → cursor = subscription.globalWatermark

/-- The drain has no rows, or those it had; nothing else that the rows depend on changed. -/
structure Keeps (before after : Subscription ε) : Prop where
  boundary : after.boundary = before.boundary
  watermark : after.globalWatermark = before.globalWatermark
  delivered : after.delivered = before.delivered
  rows : Drain.rows after.drain = [] ∨ after.drain = before.drain
  cursor : ∀ cursor, after.drain = .reading cursor → cursor = after.globalWatermark ∨ after.drain = before.drain

theorem Keeps.refl (subscription : Subscription ε) : Keeps subscription subscription :=
  ⟨rfl, rfl, rfl, .inr rfl, fun _ _ => .inr rfl⟩

theorem Follows.keep (follows : Follows table subscription) {next : Subscription ε} (keeps : Keeps subscription next) :
    Follows table next := by
  obtain ⟨top, above, below, ahead, page⟩ := follows.page
  refine ⟨?_, ?_, ?_, ?_⟩
  · rw [keeps.boundary, keeps.watermark]
    exact follows.order
  · rw [keeps.boundary, keeps.watermark, keeps.delivered]
    exact follows.passed
  · rw [keeps.watermark]
    rcases keeps.rows with none | same
    · refine ⟨subscription.globalWatermark, Nat.le_refl _, by omega, ?_, by rw [none, between_self]⟩
      intro row member
      have := ahead row member
      omega
    · exact ⟨top, above, below, ahead, by rw [same, page]⟩
  · intro cursor reading
    rcases keeps.cursor cursor reading with fresh | same
    · exact fresh
    · rw [keeps.watermark]
      exact follows.cursor cursor (same ▸ reading)

theorem nextPage_keeps (subscription : Subscription ε) : Keeps subscription subscription.nextPage := by
  refine ⟨rfl, rfl, rfl, .inl ?_, ?_⟩
  · simp only [Subscription.nextPage]
    split <;> rfl
  · intro cursor reading
    simp only [Subscription.nextPage] at reading ⊢
    split at reading
    next => cases reading
    next =>
      cases reading
      exact .inl rfl

theorem drainGlobal_keeps (subscription : Subscription ε) : Keeps subscription subscription.drainGlobal := by
  simp only [Subscription.drainGlobal]
  split
  next => exact Keeps.refl _
  next =>
    split
    next =>
      obtain ⟨boundary, watermark, delivered, rows, cursor⟩ :=
        nextPage_keeps { subscription with redo := false, scans := subscription.scans + 1 }
      exact ⟨boundary, watermark, delivered, rows, cursor⟩
    next => exact ⟨rfl, rfl, rfl, .inr rfl, fun _ _ => .inr rfl⟩

/-- A signal changes the listener, may close the subscription, and may wake the drain. -/
theorem signal_cases {signal : Signal} {next : Subscription ε}
    (moved : World.signalStep options notifyChannel subscription signal = some next) :
    ∃ listener closed, (subscription.closed = true → closed = true) ∧
      (next = { subscription with listener, closed } ∨ next = { subscription with listener, closed }.drainGlobal) := by
  cases signal with
  | notification channel =>
    cases moved
    refine ⟨subscription.listener, subscription.closed, id, ?_⟩
    split
    next => exact .inr rfl
    next => exact .inl rfl
  | poll =>
    simp only [World.signalStep] at moved
    split at moved
    next =>
      cases moved
      refine ⟨subscription.listener, subscription.closed, id, ?_⟩
      split
      next => exact .inl rfl
      next => exact .inr rfl
    next => cases moved
  | connected =>
    obtain ⟨client, -, rfl⟩ := Option.map_eq_some_iff.mp moved
    simp only [Subscription.connected]
    split
    next => exact ⟨_, subscription.closed, id, .inl rfl⟩
    next => exact ⟨_, subscription.closed, id, .inr rfl⟩
  | connectFailed =>
    obtain ⟨client, -, rfl⟩ := Option.map_eq_some_iff.mp moved
    simp only [Subscription.connectFailed, Subscription.scheduleReconnect]
    split <;> exact ⟨_, subscription.closed, id, .inl rfl⟩
  | clientLost client =>
    cases moved
    simp only [Subscription.clientLost, Subscription.scheduleReconnect]
    split
    next => split <;> exact ⟨_, subscription.closed, id, .inl rfl⟩
    next => exact ⟨subscription.listener, subscription.closed, id, .inl rfl⟩
  | reconnectFires =>
    simp only [World.signalStep] at moved
    split at moved
    next =>
      cases moved
      simp only [Subscription.reconnectFires, Subscription.startConnectAttempt]
      split <;> exact ⟨_, subscription.closed, id, .inl rfl⟩
    next => cases moved
  | unsubscribe =>
    simp only [World.signalStep] at moved
    split at moved
    next => cases moved
    next =>
      cases moved
      exact ⟨_, true, fun _ => rfl, .inl rfl⟩

theorem signal_keeps {signal : Signal} {next : Subscription ε}
    (moved : World.signalStep options notifyChannel subscription signal = some next) : Keeps subscription next := by
  obtain ⟨listener, closed, -, rfl | rfl⟩ := signal_cases moved
  · exact ⟨rfl, rfl, rfl, .inr rfl, fun _ _ => .inr rfl⟩
  · obtain ⟨boundary, watermark, delivered, rows, cursor⟩ := drainGlobal_keeps { subscription with listener, closed }
    exact ⟨boundary, watermark, delivered, rows, cursor⟩

theorem nextRow_follows {rest : List (EventRow ε)} (top : Nat) (full : Bool)
    (order : subscription.boundary ≤ subscription.globalWatermark)
    (passed : subscription.delivered = between number subscription.boundary subscription.globalWatermark table.committed)
    (above : subscription.globalWatermark ≤ top) (below : top < table.nextSequence)
    (ahead : ∀ row ∈ table.inserting.flatten, top < number row)
    (page : rest = between number subscription.globalWatermark top table.committed) :
    Follows table (subscription.nextRow full rest) := by
  have finished : Follows table { subscription with drain := .settled false } := by
    refine ⟨order, passed, ⟨subscription.globalWatermark, Nat.le_refl _, by omega, ?_, between_self.symm⟩, nofun⟩
    intro row member
    have := ahead row member
    omega
  cases rest with
  | nil =>
    simp only [Subscription.nextRow]
    split
    next =>
      obtain ⟨boundary, watermark, delivered, rows, cursor⟩ := nextPage_keeps { subscription with drain := .settled false }
      exact finished.keep ⟨boundary, watermark, delivered, rows, cursor⟩
    next => exact finished
  | cons row rest =>
    simp only [Subscription.nextRow]
    split
    next => exact finished
    next => exact ⟨order, passed, ⟨top, above, below, ahead, page⟩, nofun⟩

theorem resume_follows (numbered : Numbered table) (follows : Follows table subscription) {resumption : Resumption}
    {next : Subscription ε} (moved : World.resumeStep options table subscription resumption = some next) :
    Follows table next := by
  obtain ⟨top, above, below, ahead, page⟩ := follows.page
  cases resumption with
  | pageRead =>
    simp only [World.resumeStep] at moved
    split at moved
    next cursor reading =>
      simp only [EventsTable.queryWithEventsShareLock] at moved
      split at moved
      next granted =>
        cases moved
        rw [follows.cursor cursor reading]
        obtain ⟨high, more, last, rows⟩ := take_after numbered.committed subscription.globalWatermark options.pageLimit
        refine ⟨follows.order, follows.passed, ⟨high, more, ?_, ?_, rows⟩, nofun⟩
        · rcases last with rfl | ⟨row, member, rfl⟩
          · omega
          · exact numbered.below row (List.mem_append_left _ member)
        · rw [granted]
          nofun
      next => cases moved
    next => cases moved
  | queryFailed =>
    simp only [World.resumeStep] at moved
    split at moved
    next => cases moved; exact follows.keep ⟨rfl, rfl, rfl, .inl rfl, nofun⟩
    next => cases moved; exact follows.keep ⟨rfl, rfl, rfl, .inl rfl, nofun⟩
    next => cases moved
  | pageReceived =>
    simp only [World.resumeStep] at moved
    split at moved
    next rows fetched =>
      cases moved
      simp only [Subscription.receivePage]
      split
      next => exact follows.keep ⟨rfl, rfl, rfl, .inl rfl, nofun⟩
      next =>
        rw [fetched] at page
        exact nextRow_follows top _ follows.order follows.passed above below ahead page
    next => cases moved
  | callbackDone succeeded =>
    simp only [World.resumeStep] at moved
    split at moved
    next row rest full calling =>
      cases moved
      simp only [Subscription.callbackDone]
      split
      next =>
        rw [calling] at page
        have part : between number subscription.globalWatermark top table.committed = row :: rest := page.symm
        have inside : row ∈ between number subscription.globalWatermark top table.committed := part ▸ List.mem_cons_self ..
        obtain ⟨-, beyond, within⟩ := mem_between.mp inside
        obtain ⟨passed, left⟩ := between_cons numbered.committed part follows.order
        have moves : max subscription.globalWatermark row.globalSequence = number row := Nat.max_eq_right (Nat.le_of_lt beyond)
        have order := follows.order
        apply nextRow_follows top full
        · simp only [moves]
          omega
        · simp only [moves, passed, follows.passed]
        · simp only [moves]
          exact within
        · exact below
        · exact ahead
        · simp only [moves, left]
      next => exact follows.keep ⟨rfl, rfl, rfl, .inl rfl, nofun⟩
    next => cases moved
  | watermarkDrained =>
    simp only [World.resumeStep] at moved
    split at moved
    next failed settled =>
      cases moved
      simp only [Subscription.continueDrain]
      split
      next =>
        split
        next =>
          obtain ⟨boundary, watermark, delivered, rows, cursor⟩ :=
            drainGlobal_keeps { subscription with drain := .idle, redo := false }
          have idle : Follows table { subscription with drain := .idle, redo := false } :=
            follows.keep ⟨rfl, rfl, rfl, .inl rfl, nofun⟩
          exact idle.keep ⟨boundary, watermark, delivered, rows, cursor⟩
        next => exact follows.keep ⟨rfl, rfl, rfl, .inl rfl, nofun⟩
      next =>
        split
        next =>
          obtain ⟨boundary, watermark, delivered, rows, cursor⟩ :=
            nextPage_keeps { subscription with redo := false, scans := subscription.scans + 1 }
          exact follows.keep ⟨boundary, watermark, delivered, rows, cursor⟩
        next => exact follows.keep ⟨rfl, rfl, rfl, .inl rfl, nofun⟩
    next => cases moved

theorem write_follows (follows : Follows table subscription) (write : Write ε) :
    Follows (World.writeStep table write) subscription := by
  obtain ⟨top, above, below, ahead, page⟩ := follows.page
  cases write with
  | insert transaction event conflict =>
    obtain ⟨rows, shape, -, added⟩ := insert_rows table transaction event conflict
    refine ⟨follows.order, follows.passed, ⟨top, above, Nat.lt_succ_of_lt below, ?_, page⟩, follows.cursor⟩
    intro row member
    rcases List.mem_append.mp (added.mem_iff.mp member) with old | new
    · exact ahead row old
    · rcases shape with rfl | rfl
      · cases new
      · rw [List.mem_singleton.mp new]
        exact below
  | commit transaction =>
    have beyond : ∀ row ∈ (table.inserting[transaction]?).getD [], top < number row :=
      fun row member => ahead row (commit_inserting (.inl member))
    refine ⟨follows.order, ?_, ⟨top, above, below, ?_, ?_⟩, follows.cursor⟩
    · simp only [World.writeStep, EventsTable.commit]
      rw [between_append]
      · exact follows.passed
      · intro row member
        have := beyond row member
        omega
    · intro row member
      exact ahead row (commit_inserting (.inr member))
    · simp only [World.writeStep, EventsTable.commit]
      rw [between_append _ beyond]
      exact page
  | rollback transaction =>
    refine ⟨follows.order, follows.passed, ⟨top, above, below, ?_, page⟩, follows.cursor⟩
    intro row member
    exact ahead row (commit_inserting (.inr member))

theorem subscribe_follows (numbered : Numbered table) (granted : table.inserting = []) :
    Follows table (subscribeAppended options (maxSequence table.committed)) := by
  have below : maxSequence table.committed < table.nextSequence := by
    cases greatest : (table.committed.map number).max? with
    | none =>
      simp only [maxSequence, greatest]
      exact numbered.positive
    | some top =>
      simp only [maxSequence, greatest]
      obtain ⟨row, member, rfl⟩ := List.mem_map.mp (List.max?_mem greatest)
      exact numbered.below row (List.mem_append_left _ member)
  refine ⟨Nat.le_refl _, between_self.symm, ⟨_, Nat.le_refl _, below, ?_, between_self.symm⟩, nofun⟩
  rw [granted]
  nofun

structure Valid (world : World ε) : Prop where
  numbered : Numbered world.table
  follows : ∀ subscription, world.subscription = some subscription → Follows world.table subscription

theorem act_valid {world next : World ε} {action : Action ε} (valid : Valid world)
    (acted : world.act options notifyChannel action = some next) : Valid next := by
  cases action with
  | write write =>
    cases acted
    exact ⟨valid.numbered.write write, fun subscription present => write_follows (valid.follows subscription present) write⟩
  | subscribe =>
    simp only [World.act] at acted
    split at acted
    next =>
      simp only [EventsTable.queryWithEventsShareLock] at acted
      split at acted
      next granted =>
        cases acted
        refine ⟨valid.numbered, fun subscription present => ?_⟩
        cases present
        exact subscribe_follows valid.numbered granted
      next => cases acted
    next => cases acted
  | signal signal =>
    obtain ⟨subscription, present, acted⟩ := Option.bind_eq_some_iff.mp acted
    obtain ⟨after, moved, rfl⟩ := Option.map_eq_some_iff.mp acted
    refine ⟨valid.numbered, fun other here => ?_⟩
    cases here
    exact (valid.follows subscription present).keep (signal_keeps moved)
  | resume resumption =>
    obtain ⟨subscription, present, acted⟩ := Option.bind_eq_some_iff.mp acted
    obtain ⟨after, moved, rfl⟩ := Option.map_eq_some_iff.mp acted
    refine ⟨valid.numbered, fun other here => ?_⟩
    cases here
    exact resume_follows valid.numbered (valid.follows subscription present) moved

theorem play_valid {world next : World ε} {schedule : List (Action ε)} (valid : Valid world)
    (played : world.play options notifyChannel schedule = some next) : Valid next := by
  induction schedule generalizing world with
  | nil =>
    cases played
    exact valid
  | cons action rest ih =>
    obtain ⟨middle, acted, played⟩ := Option.bind_eq_some_iff.mp played
    exact ih (act_valid valid acted) played

theorem empty_valid : Valid (World.empty : World ε) :=
  ⟨⟨Nat.one_pos, List.nodup_nil, nofun⟩, nofun⟩

def Pending (subscription : Subscription ε) : Prop := subscription.drain ≠ .idle ∧ subscription.redo = true

def Drain.stage : Drain ε → Nat
  | .idle | .settled _ => 0
  | .calling _ _ _ => 1
  | .fetched _ => 2
  | .reading _ => 3

/-- How many rows come after the watermark, those that are still being inserted included. -/
def ahead (table : EventsTable ε) (watermark : Nat) : Nat :=
  ((EventsTable.rows table).filter fun row => watermark < number row).length

/-- How often the drain has to be resumed at most until `drainGlobalWatermark` is over. -/
def work (table : EventsTable ε) (subscription : Subscription ε) : Nat :=
  3 * ahead table subscription.globalWatermark + Drain.stage subscription.drain

def Action.inserts : Action ε → Nat
  | .write (.insert _ _ _) => 1
  | _ => 0

def Action.resumes : Action ε → Nat
  | .resume _ => 1
  | _ => 0

theorem drainGlobal_closed (subscription : Subscription ε) : subscription.drainGlobal.closed = subscription.closed := by
  simp only [Subscription.drainGlobal]
  split
  next => rfl
  next => split <;> rfl

theorem drainGlobal_scans (subscription : Subscription ε) : subscription.scans ≤ subscription.drainGlobal.scans := by
  simp only [Subscription.drainGlobal]
  split
  next => exact Nat.le_refl _
  next =>
    split
    next => exact Nat.le_succ _
    next => exact Nat.le_refl _

theorem drainGlobal_pending (pending : Pending subscription) :
    Pending subscription.drainGlobal ∧ subscription.drainGlobal.scans = subscription.scans ∧
      subscription.drainGlobal.drain = subscription.drain := by
  obtain ⟨busy, redo⟩ := pending
  simp only [Subscription.drainGlobal]
  split
  next => exact ⟨⟨busy, redo⟩, rfl, rfl⟩
  next => exact ⟨⟨busy, rfl⟩, rfl, rfl⟩

theorem signal_grows {signal : Signal} {next : Subscription ε}
    (moved : World.signalStep options notifyChannel subscription signal = some next) :
    subscription.scans ≤ next.scans ∧ (subscription.closed = true → next.closed = true) := by
  obtain ⟨listener, closed, still, rfl | rfl⟩ := signal_cases moved
  · exact ⟨Nat.le_refl _, still⟩
  · refine ⟨drainGlobal_scans { subscription with listener, closed }, fun before => ?_⟩
    rw [drainGlobal_closed]
    exact still before

theorem signal_pending {signal : Signal} {next : Subscription ε} (pending : Pending subscription)
    (moved : World.signalStep options notifyChannel subscription signal = some next) :
    Pending next ∧ next.scans = subscription.scans ∧ next.drain = subscription.drain := by
  obtain ⟨listener, closed, -, rfl | rfl⟩ := signal_cases moved
  · exact ⟨pending, rfl, rfl⟩
  · have told : Pending { subscription with listener, closed } := pending
    exact drainGlobal_pending told

theorem nextRow_grows (subscription : Subscription ε) (full : Bool) (rest : List (EventRow ε)) :
    (subscription.nextRow full rest).scans = subscription.scans ∧
      (subscription.nextRow full rest).closed = subscription.closed := by
  cases rest with
  | nil =>
    simp only [Subscription.nextRow]
    split <;> exact ⟨rfl, rfl⟩
  | cons row rest => exact ⟨rfl, rfl⟩

theorem resume_grows {resumption : Resumption} {next : Subscription ε}
    (moved : World.resumeStep options table subscription resumption = some next) :
    subscription.scans ≤ next.scans ∧ (subscription.closed = true → next.closed = true) := by
  cases resumption with
  | pageRead =>
    simp only [World.resumeStep] at moved
    split at moved
    next =>
      obtain ⟨rows, -, rfl⟩ := Option.map_eq_some_iff.mp moved
      exact ⟨Nat.le_refl _, id⟩
    next => cases moved
  | queryFailed =>
    simp only [World.resumeStep] at moved
    split at moved
    next => cases moved; exact ⟨Nat.le_refl _, id⟩
    next => cases moved; exact ⟨Nat.le_refl _, id⟩
    next => cases moved
  | pageReceived =>
    simp only [World.resumeStep] at moved
    split at moved
    next rows fetched =>
      cases moved
      simp only [Subscription.receivePage]
      split
      next => exact ⟨Nat.le_refl _, id⟩
      next =>
        obtain ⟨scans, closed⟩ := nextRow_grows subscription _ rows
        exact ⟨Nat.le_of_eq scans.symm, closed.trans⟩
    next => cases moved
  | callbackDone succeeded =>
    simp only [World.resumeStep] at moved
    split at moved
    next row rest full calling =>
      cases moved
      simp only [Subscription.callbackDone]
      split
      next =>
        obtain ⟨scans, closed⟩ := nextRow_grows { subscription with
          delivered := subscription.delivered ++ [row]
          globalWatermark := max subscription.globalWatermark row.globalSequence } full rest
        exact ⟨Nat.le_of_eq scans.symm, closed.trans⟩
      next => exact ⟨Nat.le_refl _, id⟩
    next => cases moved
  | watermarkDrained =>
    simp only [World.resumeStep] at moved
    split at moved
    next failed settled =>
      cases moved
      simp only [Subscription.continueDrain]
      split
      next =>
        split
        next =>
          refine ⟨drainGlobal_scans { subscription with drain := .idle, redo := false }, fun before => ?_⟩
          rw [drainGlobal_closed]
          exact before
        next => exact ⟨Nat.le_refl _, id⟩
      next =>
        split
        next => exact ⟨Nat.le_succ _, id⟩
        next => exact ⟨Nat.le_refl _, id⟩
    next => cases moved

theorem Drain.stage_le (drain : Drain ε) : Drain.stage drain ≤ 3 := by
  cases drain <;> simp [Drain.stage]

theorem nextRow_pending (subscription : Subscription ε) (full : Bool) (rest : List (EventRow ε)) (redo : subscription.redo = true) :
    Pending (subscription.nextRow full rest) ∧
      (subscription.nextRow full rest).globalWatermark = subscription.globalWatermark := by
  cases rest with
  | nil =>
    simp only [Subscription.nextRow, Subscription.nextPage]
    split
    next =>
      split
      next => exact ⟨⟨nofun, redo⟩, rfl⟩
      next => exact ⟨⟨nofun, redo⟩, rfl⟩
    next => exact ⟨⟨nofun, redo⟩, rfl⟩
  | cons row rest =>
    simp only [Subscription.nextRow]
    split
    next => exact ⟨⟨nofun, redo⟩, trivial⟩
    next => exact ⟨⟨nofun, redo⟩, trivial⟩

theorem nextRow_stage (subscription : Subscription ε) (full : Bool) (row : EventRow ε) (rest : List (EventRow ε)) :
    Drain.stage (subscription.nextRow full (row :: rest)).drain ≤ 1 := by
  simp only [Subscription.nextRow]
  split
  next => exact Nat.zero_le _
  next => exact Nat.le_refl _

theorem ahead_lt {row : EventRow ε} {watermark : Nat} (member : row ∈ EventsTable.rows table) (beyond : watermark < number row) :
    ahead table (number row) < ahead table watermark := by
  have fewer : ((EventsTable.rows table).filter fun other => number row < number other) =
      ((EventsTable.rows table).filter fun other => watermark < number other).filter
        fun other => number row < number other := by
    rw [List.filter_filter]
    apply List.filter_congr
    intro other _
    by_cases large : number row < number other
    · have passed : watermark < number other := by omega
      simp [large, passed]
    · simp [large]
  rw [ahead, fewer]
  apply List.length_filter_lt_length_iff_exists.mpr
  exact ⟨row, List.mem_filter.mpr ⟨member, decide_eq_true beyond⟩, by simp⟩

/-- Each resumption of a drain that has been woken is one of few before the next scan. -/
theorem resume_pending (follows : Follows table subscription) (pending : Pending subscription) (opened : subscription.closed = false)
    {resumption : Resumption} {next : Subscription ε}
    (moved : World.resumeStep options table subscription resumption = some next) :
    subscription.scans < next.scans ∨
      Pending next ∧ next.scans = subscription.scans ∧ work table next < work table subscription := by
  obtain ⟨busy, redo⟩ := pending
  cases resumption with
  | pageRead =>
    simp only [World.resumeStep] at moved
    split at moved
    next cursor reading =>
      obtain ⟨rows, -, rfl⟩ := Option.map_eq_some_iff.mp moved
      refine .inr ⟨⟨nofun, redo⟩, rfl, ?_⟩
      simp only [work, reading, Drain.stage]
      omega
    next => cases moved
  | queryFailed =>
    simp only [World.resumeStep] at moved
    split at moved
    next reading =>
      cases moved
      refine .inr ⟨⟨nofun, redo⟩, rfl, ?_⟩
      simp only [work, reading, Drain.stage]
      omega
    next fetched =>
      cases moved
      refine .inr ⟨⟨nofun, redo⟩, rfl, ?_⟩
      simp only [work, fetched, Drain.stage]
      omega
    next => cases moved
  | pageReceived =>
    simp only [World.resumeStep] at moved
    split at moved
    next rows fetched =>
      cases moved
      simp only [Subscription.receivePage]
      split
      next =>
        refine .inr ⟨⟨nofun, redo⟩, rfl, ?_⟩
        simp only [work, fetched, Drain.stage]
        omega
      next some =>
        obtain ⟨row, rest, rfl⟩ := List.exists_cons_of_ne_nil some
        obtain ⟨pending, watermark⟩ := nextRow_pending subscription (decide ((row :: rest).length ≥ options.pageLimit)) (row :: rest) redo
        have stage := nextRow_stage subscription (decide ((row :: rest).length ≥ options.pageLimit)) row rest
        refine .inr ⟨pending, (nextRow_grows subscription _ _).1, ?_⟩
        have before : Drain.stage subscription.drain = 2 := by rw [fetched, Drain.stage]
        simp only [work, before, watermark]
        omega
    next => cases moved
  | callbackDone succeeded =>
    simp only [World.resumeStep] at moved
    split at moved
    next row rest full calling =>
      cases moved
      simp only [Subscription.callbackDone]
      split
      next =>
        obtain ⟨top, -, -, -, page⟩ := follows.page
        rw [calling] at page
        have inside : row ∈ between number subscription.globalWatermark top table.committed := page ▸ List.mem_cons_self ..
        obtain ⟨member, beyond, -⟩ := mem_between.mp inside
        have fewer := ahead_lt (List.mem_append_left table.inserting.flatten member) beyond
        have moves : max subscription.globalWatermark row.globalSequence = number row := Nat.max_eq_right (Nat.le_of_lt beyond)
        let passed := { subscription with
          delivered := subscription.delivered ++ [row]
          globalWatermark := max subscription.globalWatermark row.globalSequence }
        obtain ⟨pending, watermark⟩ := nextRow_pending passed full rest redo
        have before : Drain.stage subscription.drain = 1 := by rw [calling, Drain.stage]
        have stage := Drain.stage_le (passed.nextRow full rest).drain
        have here : (passed.nextRow full rest).globalWatermark = number row := watermark.trans moves
        refine .inr ⟨pending, (nextRow_grows passed full rest).1, ?_⟩
        change work table (passed.nextRow full rest) < work table subscription
        rw [work, work, here, before]
        omega
      next =>
        refine .inr ⟨⟨nofun, redo⟩, rfl, ?_⟩
        simp only [work, calling, Drain.stage]
        omega
    next => cases moved
  | watermarkDrained =>
    simp only [World.resumeStep] at moved
    split at moved
    next failed settled =>
      cases moved
      left
      simp only [Subscription.continueDrain, redo, opened, Subscription.drainGlobal, Subscription.drainGlobalWatermark,
        Subscription.nextPage]
      cases failed <;> exact Nat.lt_succ_self _
    next => cases moved

theorem write_work (write : Write ε) (subscription : Subscription ε) :
    work (World.writeStep table write) subscription ≤ work table subscription + 3 * Action.inserts (.write write) := by
  simp only [work]
  have more : ahead (World.writeStep table write) subscription.globalWatermark ≤
      ahead table subscription.globalWatermark + Action.inserts (.write write) := by
    simp only [ahead]
    cases write with
    | insert transaction event conflict =>
      obtain ⟨rows, shape, same, -⟩ := insert_rows table transaction event conflict
      rw [World.writeStep, (same.filter _).length_eq, List.filter_append, List.length_append, Action.inserts]
      have few : (rows.filter fun row => subscription.globalWatermark < number row).length ≤ rows.length :=
        List.length_filter_le ..
      have one : rows.length ≤ 1 := by
        rcases shape with rfl | rfl
        · exact Nat.zero_le _
        · exact Nat.le_refl _
      omega
    | commit transaction => exact Nat.le_of_eq ((commit_rows table transaction).filter _).length_eq
    | rollback transaction => exact ((rollback_rows table transaction).filter _).length_le
  omega

def inserts (schedule : List (Action ε)) : Nat := (schedule.map Action.inserts).sum

def resumptions (schedule : List (Action ε)) : Nat := (schedule.map Action.resumes).sum

theorem act_grows {world next : World ε} {action : Action ε} (present : world.subscription = some subscription)
    (acted : world.act options notifyChannel action = some next) :
    ∃ moved, next.subscription = some moved ∧ subscription.scans ≤ moved.scans ∧
      (subscription.closed = true → moved.closed = true) := by
  cases action with
  | write write =>
    cases acted
    exact ⟨subscription, present, Nat.le_refl _, id⟩
  | subscribe => simp [World.act, present] at acted
  | signal signal =>
    simp only [World.act, present, Option.bind_some] at acted
    obtain ⟨moved, step, rfl⟩ := Option.map_eq_some_iff.mp acted
    exact ⟨moved, rfl, signal_grows step⟩
  | resume resumption =>
    simp only [World.act, present, Option.bind_some] at acted
    obtain ⟨moved, step, rfl⟩ := Option.map_eq_some_iff.mp acted
    exact ⟨moved, rfl, resume_grows step⟩

theorem play_grows {world next : World ε} {schedule : List (Action ε)} (present : world.subscription = some subscription)
    (played : world.play options notifyChannel schedule = some next) :
    ∃ moved, next.subscription = some moved ∧ subscription.scans ≤ moved.scans ∧
      (subscription.closed = true → moved.closed = true) := by
  induction schedule generalizing world subscription with
  | nil =>
    cases played
    exact ⟨subscription, present, Nat.le_refl _, id⟩
  | cons action rest ih =>
    obtain ⟨middle, acted, played⟩ := Option.bind_eq_some_iff.mp played
    obtain ⟨moved, here, scans, closed⟩ := act_grows present acted
    obtain ⟨last, there, more, still⟩ := ih here played
    exact ⟨last, there, Nat.le_trans scans more, fun before => still (closed before)⟩

theorem act_pending {world next : World ε} {action : Action ε} (valid : Valid world)
    (present : world.subscription = some subscription) (pending : Pending subscription) (opened : subscription.closed = false)
    (acted : world.act options notifyChannel action = some next) {moved : Subscription ε}
    (here : next.subscription = some moved) :
    subscription.scans < moved.scans ∨ Pending moved ∧ moved.scans = subscription.scans ∧
      work next.table moved + Action.resumes action ≤ work world.table subscription + 3 * Action.inserts action := by
  cases action with
  | write write =>
    cases acted
    cases present.symm.trans here
    exact .inr ⟨pending, rfl, write_work write subscription⟩
  | subscribe => simp [World.act, present] at acted
  | signal signal =>
    simp only [World.act, present, Option.bind_some] at acted
    obtain ⟨after, step, rfl⟩ := Option.map_eq_some_iff.mp acted
    cases here
    obtain ⟨still, scans, drain⟩ := signal_pending pending step
    have watermark := (signal_keeps step).watermark
    refine .inr ⟨still, scans, ?_⟩
    rw [work, work, drain, watermark]
    exact Nat.le_refl _
  | resume resumption =>
    simp only [World.act, present, Option.bind_some] at acted
    obtain ⟨after, step, rfl⟩ := Option.map_eq_some_iff.mp acted
    cases here
    rcases resume_pending (valid.follows subscription present) pending opened step with again | ⟨still, scans, less⟩
    · exact .inl again
    · exact .inr ⟨still, scans, less⟩

/-- Until the next scan begins the drain goes on, with fewer and fewer resumptions to come. -/
theorem play_pending {world next : World ε} {schedule : List (Action ε)} (valid : Valid world)
    (present : world.subscription = some subscription) (pending : Pending subscription)
    (played : world.play options notifyChannel schedule = some next) {last : Subscription ε}
    (here : next.subscription = some last) (opened : last.closed = false) :
    subscription.scans < last.scans ∨ Pending last ∧
      work next.table last + resumptions schedule ≤ work world.table subscription + 3 * inserts schedule := by
  induction schedule generalizing world subscription with
  | nil =>
    cases played
    cases present.symm.trans here
    exact .inr ⟨pending, Nat.le_refl _⟩
  | cons action rest ih =>
    have before : subscription.closed = false := by
      obtain ⟨final, there, -, closed⟩ := play_grows present played
      cases there.symm.trans here
      cases shut : subscription.closed with
      | false => rfl
      | true => exact (closed shut).symm.trans opened
    obtain ⟨middle, acted, played⟩ := Option.bind_eq_some_iff.mp played
    obtain ⟨moved, there, -, -⟩ := act_grows present acted
    obtain ⟨final, ending, more, -⟩ := play_grows there played
    cases ending.symm.trans here
    rcases act_pending valid present pending before acted there with again | ⟨still, scans, less⟩
    · exact .inl (Nat.lt_of_lt_of_le again more)
    · rcases ih (act_valid valid acted) there still played with again | ⟨goes, fewer⟩
      · exact .inl (by omega)
      · refine .inr ⟨goes, ?_⟩
        simp only [resumptions, inserts, List.map_cons, List.sum_cons] at fewer ⊢
        omega

/-- The signals that call `drainGlobal`. -/
def Signal.wakes (notifyChannel : String) : Signal → Prop
  | .notification channel => channel = notifyChannel
  | .poll | .connected => True
  | _ => False

theorem wake_pending {signal : Signal} {woken : Subscription ε} (wakes : Signal.wakes notifyChannel signal)
    (busy : subscription.drain ≠ .idle) (opened : subscription.closed = false)
    (moved : World.signalStep options notifyChannel subscription signal = some woken) : Pending woken := by
  have wake (told : Subscription ε) (same : told.drain = subscription.drain) (still : told.closed = false) :
      Pending told.drainGlobal := by
    rw [← same] at busy
    simp only [Subscription.drainGlobal, still, Bool.false_eq_true, if_false]
    exact ⟨busy, rfl⟩
  cases signal with
  | notification channel =>
    cases moved
    have same : channel = notifyChannel := wakes
    rw [if_pos same]
    exact wake subscription rfl opened
  | poll =>
    simp only [World.signalStep, opened] at moved
    split at moved
    next =>
      cases moved
      exact wake subscription rfl opened
    next => cases moved
  | connected =>
    obtain ⟨client, -, rfl⟩ := Option.map_eq_some_iff.mp moved
    rw [Subscription.connected, if_neg (by simp [opened])]
    exact wake _ rfl opened
  | connectFailed | clientLost | reconnectFires | unsubscribe => exact wakes.elim

/-- In every run, what was delivered is the beginning of what the log holds after the
boundary, in order and once. A wake that comes during a drain is followed by another call of
`drainGlobalWatermark`, or the drain goes on and will make it, after a number of resumptions
that only later inserts raise. -/
theorem delivered_exactly (options : SubscribeAppendedOptions) (notifyChannel : String) (schedule : List (Action ε))
    {world : World ε} {subscription : Subscription ε}
    (played : World.empty.play options notifyChannel schedule = some world)
    (subscribed : world.subscription = some subscription) :
    subscription.delivered =
        (after number subscription.boundary world.table.committed).take subscription.delivered.length ∧
      (subscription.delivered.Pairwise fun earlier later => number earlier < number later) ∧
      ∀ signal woken, Signal.wakes notifyChannel signal → subscription.drain ≠ .idle → subscription.closed = false →
        World.signalStep options notifyChannel subscription signal = some woken →
        ∀ (further : List (Action ε)) (next : World ε) (last : Subscription ε),
          World.play options notifyChannel { world with subscription := some woken } further = some next →
          next.subscription = some last → last.closed = false →
          woken.scans < last.scans ∨
            (last.drain ≠ .idle ∧ last.redo = true ∧
              resumptions further ≤ work world.table woken + 3 * inserts further) := by
  have valid := play_valid empty_valid played
  have follows := valid.follows subscription subscribed
  refine ⟨?_, ?_, ?_⟩
  · conv => lhs; rw [follows.passed, between_eq_take valid.numbered.committed follows.order]
    rw [follows.passed]
  · rw [follows.passed]
    exact between_ascends valid.numbered.committed _ _
  · intro signal woken wakes busy opened moved further next last played' here still
    have pending := wake_pending wakes busy opened moved
    have there : Valid { world with subscription := some woken } := by
      refine ⟨valid.numbered, fun other present => ?_⟩
      cases present
      exact follows.keep (signal_keeps moved)
    rcases play_pending there rfl pending played' here still with again | ⟨⟨goes, redo⟩, fewer⟩
    · exact .inl again
    · have bound : work next.table last + resumptions further ≤ work world.table woken + 3 * inserts further := fewer
      exact .inr ⟨goes, redo, by omega⟩

def twoAtATime : SubscribeAppendedOptions := ⟨none, none, none, some 2⟩

def threeEvents : List (Action String) :=
  [.write (.insert 0 "old" false), .write (.commit 0), .subscribe, .signal .connected,
    .write (.insert 0 "first" false), .write (.insert 0 "second" false), .write (.commit 0),
    .resume .pageRead, .resume .pageReceived, .resume (.callbackDone true),
    .write (.insert 0 "third" false), .write (.commit 0), .signal (.notification "events_notify"),
    .resume (.callbackDone false), .resume .watermarkDrained,
    .resume .pageRead, .resume .pageReceived, .resume (.callbackDone true)]

theorem delivered_exactly_three :
    ∃ world subscription, World.empty.play twoAtATime "events_notify" threeEvents = some world ∧
      world.subscription = some subscription ∧ subscription.delivered.length = 2 ∧
      subscription.delivered =
        (after number subscription.boundary world.table.committed).take subscription.delivered.length :=
  ⟨_, _, rfl, rfl, rfl, (delivered_exactly twoAtATime "events_notify" threeEvents rfl rfl).1⟩

end AgentSaas.Proofs.EventSubscription
