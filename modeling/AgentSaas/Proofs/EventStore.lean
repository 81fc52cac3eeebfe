import AgentSaas.EventStore
import AgentSaas.Proofs.TransactionFootprints
import AgentSaas.Proofs.TransactionSafety
import Mathlib.Data.List.Nodup

/-! Appends of batches. The lock on the global sequence is held until the commit, so a batch
sees one database throughout; what its call has stored is followed as its own part. -/

namespace AgentSaas.Proofs.EventStore
open AgentSaas.Transactions AgentSaas.PlatformEvents AgentSaas.EventStore
open TransactionSafety TransactionFootprints

variable {β γ : Type}

-- No proof here has to find out whether a tenant's id is blank.
attribute [local irreducible] trim

structure Ordered (db : Tables γ) : Prop where
  keys : (db.events.map (·.key)).Nodup
  sequences : db.events.Pairwise fun first second =>
    first.session = second.session → first.sessionSequence < second.sessionSequence
  cursors : ∀ row ∈ db.events, ∃ next, db.cursors row.session = some next ∧ row.sessionSequence < next

def rules : Rules (Tables γ) Lock where
  invariant := Ordered
  grows before after := before.events <+: after.events
  keeps key before after := key = .globalSequence → after = before
  permits _ _ _ _ := True
  grows_refl _ := List.prefix_refl _
  grows_trans := List.IsPrefix.trans
  keeps_refl _ _ _ := rfl
  keeps_trans first second same := (second same).trans (first same)

def Names (input : EventInput β) (id : String) : Prop := ∀ given, input.id = some given → given = some id

def Answers (tenantId : String) (db : Tables γ) (input : EventInput β) (returned : String × γ) : Prop :=
  Names input returned.1 ∧ ∃ row ∈ db.events, row.key = (tenantId, returned.1) ∧ row.eventJson = returned.2

theorem Answers.later {tenantId : String} {before after : Tables γ} {input : EventInput β} {returned : String × γ}
    (answers : Answers tenantId before input returned) (growth : before.events <+: after.events) :
    Answers tenantId after input returned := by
  obtain ⟨named, row, member, same⟩ := answers
  exact ⟨named, row, growth.subset member, same⟩

/-! The events of a batch, with their generated fields. -/

structure Fills (input : EventInput β) (full : FullEvent β) : Prop where
  sessionId : full.sessionId = input.sessionId
  id : ∀ given, input.id = some given → full.id = given

inductive Numbered : List (EventInput β) → List (FullEvent β) → Nat → Prop
  | nil {sequence} : Numbered [] [] sequence
  | cons {input full inputs fulls sequence} (fills : Fills input full) (numbered : full.sequence = sequence)
      (rest : Numbered inputs fulls (sequence + 1)) : Numbered (input :: inputs) (full :: fulls) sequence

theorem fullEvent_fills (event : EventInput β) (uuid timestamp : String) (sequence : Nat) :
    Fills event (fullEvent event uuid timestamp sequence) :=
  ⟨rfl, fun given same => by simp [fullEvent, same]⟩

/-- Whatever the answers from outside, the rest of the program gets the numbered inputs. -/
theorem fullEvents_then {α : Type} (holds : Append γ α → Prop)
    (answer : ∀ next : Outside → Append γ α, (∀ outside, holds (next outside)) → holds (receive >>= next))
    {timestamp : String} {events : List (EventInput β)} {sequence : Nat} {next : List (FullEvent β) → Append γ α}
    (resume : ∀ full, Numbered events full sequence → holds (next full)) :
    holds (fullEvents timestamp events sequence >>= next) := by
  induction events generalizing sequence next with
  | nil => exact resume [] .nil
  | cons event rest ih =>
    simp only [fullEvents, Program.bind_bind]
    apply answer
    intro outside
    apply ih
    intro full numbered
    exact resume _ (.cons (fullEvent_fills event _ _ _) rfl numbered)

section Insert

variable {serializeEventForJsonb : FullEvent β → Option γ} {call : Nat} {tenantId : String}

theorem rowOf_spec {fails : Bool} {place : Nat} {event : FullEvent β} {row : EventRow γ}
    (built : (if fails then none else rowOf serializeEventForJsonb call tenantId place event) = some row) :
    row.key = (tenantId, row.eventId) ∧ row.session = (tenantId, event.sessionId) ∧
      row.sessionSequence = event.sequence ∧ event.id = some row.eventId ∧ row.call = call ∧ row.place = place := by
  simp only [Option.ite_none_left_eq_some, rowOf, Option.bind_eq_bind, Option.bind_eq_some_iff] at built
  obtain ⟨_, built⟩ := built
  obtain ⟨json, _, id, named, timestamp, _, same⟩ := built
  cases same
  exact ⟨rfl, rfl, rfl, named, rfl, rfl⟩

/-- The batch in the middle of its transaction: the database it sees, and the next sequence. -/
structure Writing (tenantId sessionId : String) (bound sequence : Nat) (db : Tables γ) : Prop where
  ordered : Ordered db
  cursor : db.cursors (tenantId, sessionId) = some bound
  below : ∀ row ∈ db.events, row.session = (tenantId, sessionId) → row.sessionSequence < sequence

theorem Writing.insert {sessionId : String} {bound sequence : Nat} {db : Tables γ} {row : EventRow γ}
    (writing : Writing tenantId sessionId bound sequence db) (session : row.session = (tenantId, sessionId))
    (numbered : row.sessionSequence = sequence) (room : sequence < bound)
    (absent : ∀ other ∈ db.events, other.key ≠ row.key) :
    Writing tenantId sessionId bound (sequence + 1) { db with events := db.events ++ [row] } := by
  refine ⟨⟨?_, ?_, ?_⟩, writing.cursor, ?_⟩
  · simp only [List.map_append, List.map_cons, List.map_nil]
    apply List.Nodup.append writing.ordered.keys (List.nodup_singleton _)
    intro key member last
    obtain ⟨other, present, same⟩ := List.mem_map.mp member
    exact absent other present (same.trans (List.mem_singleton.mp last))
  · apply List.pairwise_append.mpr
    refine ⟨writing.ordered.sequences, List.pairwise_singleton _ _, fun other member last final same => ?_⟩
    cases List.mem_singleton.mp final
    rw [numbered]
    exact writing.below other member (same.trans session)
  · intro other member
    cases List.mem_append.mp member with
    | inl member => exact writing.ordered.cursors other member
    | inr last =>
      cases List.mem_singleton.mp last
      exact ⟨bound, session ▸ writing.cursor, numbered ▸ room⟩
  · intro other member same
    cases List.mem_append.mp member with
    | inl member =>
      have := writing.below other member same
      omega
    | inr last =>
      cases List.mem_singleton.mp last
      omega

theorem Writing.skip {sessionId : String} {bound sequence : Nat} {db : Tables γ}
    (writing : Writing tenantId sessionId bound sequence db) :
    Writing tenantId sessionId bound (sequence + 1) db :=
  { writing with below := fun row member same => Nat.lt_succ_of_lt (writing.below row member same) }

theorem insertion_inserted {row : EventRow γ} {db : Tables γ} (inserted : insertion row db = .inserted) :
    ∀ other ∈ db.events, other.key ≠ row.key := by
  intro other member same
  have taken : db.events.any (·.key = row.key) = true :=
    List.any_eq_true.mpr ⟨other, member, by simpa using same⟩
  simp [insertion, taken] at inserted

/-- What the loop leaves for the commit, having begun with these events in sight. -/
structure Wrote (tenantId : String) (inputs : List (EventInput β)) (start seen : Tables γ)
    (value : Option (List (String × γ))) (transaction : Open (Tables γ) Lock) (db : Tables γ) : Prop where
  owned : .globalSequence ∈ transaction.held
  same : db = start
  ordered : Ordered (transaction.patch db)
  growth : seen.events <+: (transaction.patch db).events
  answers : ∀ answered, value = some answered → List.Forall₂ (Answers tenantId (transaction.patch db)) inputs answered

theorem Wrote.gives_up {inputs : List (EventInput β)} {transaction : Open (Tables γ) Lock} {start seen : Tables γ}
    (owned : .globalSequence ∈ transaction.held) (ordered : Ordered (transaction.patch start))
    (growth : seen.events <+: (transaction.patch start).events) :
    rules.Safe (Wrote tenantId inputs start seen) (pure none : Append γ (Option (List (String × γ))))
      transaction start := by
  intro later valid moved
  cases moved.2 _ owned rfl
  exact ⟨owned, rfl, ordered, growth, fun answered same => by cases same⟩

theorem Wrote.cons {input : EventInput β} {inputs : List (EventInput β)} {transaction : Open (Tables γ) Lock}
    {start seen : Tables γ} {program : Append γ (Option (List (String × γ)))} (returned : String × γ)
    (valid : Ordered start) (answer : Answers tenantId (transaction.patch start) input returned)
    (growth : seen.events <+: (transaction.patch start).events)
    (safe : rules.Safe (Wrote tenantId inputs start (transaction.patch start)) program transaction start) :
    rules.Safe (Wrote tenantId (input :: inputs) start seen)
      (do return (← program).map (returned :: ·)) transaction start := by
  apply Rules.Safe.bind safe valid
  intro value later db valid wrote final kept moved
  cases wrote.same
  cases moved.2 _ wrote.owned rfl
  refine ⟨wrote.owned, rfl, wrote.ordered, growth.trans wrote.growth, fun answered same => ?_⟩
  obtain ⟨rest, given, rfl⟩ := Option.map_eq_some_iff.mp same
  exact .cons (answer.later wrote.growth) (wrote.answers rest given)

theorem insertEvent_patch (row : EventRow γ) (transaction : Open (Tables γ) Lock) (db : Tables γ) :
    (transaction.after (insertEvent row) db).patch db =
      if (insertEvent row).result (transaction.patch db) = .inserted then
        { transaction.patch db with events := (transaction.patch db).events ++ [row] }
      else transaction.patch db := rfl

theorem insertEvents_safe {sessionId : String} {bound sequence : Nat} {inputs : List (EventInput β)}
    {events : List (FullEvent β)} {place : Nat} {transaction : Open (Tables γ) Lock} {start : Tables γ}
    (valid : Ordered start) (numbered : Numbered inputs events sequence)
    (single : ∀ input ∈ inputs, input.sessionId = sessionId)
    (room : sequence + events.length ≤ bound) (owned : .globalSequence ∈ transaction.held)
    (writing : Writing tenantId sessionId bound sequence (transaction.patch start)) :
    rules.Safe (Wrote tenantId inputs start (transaction.patch start))
      (insertEvents serializeEventForJsonb call tenantId events place) transaction start := by
  induction numbered generalizing place transaction with
  | nil =>
    intro later valid moved
    cases moved.2 _ owned rfl
    exact ⟨owned, rfl, writing.ordered, List.prefix_refl _, fun answered same => by cases same; exact .nil⟩
  | @cons input event inputs events sequence fills sequenced rest ih =>
    simp only [List.length_cons] at room
    have single' : ∀ input ∈ inputs, input.sessionId = sessionId := fun other member =>
      single other (List.mem_cons_of_mem _ member)
    unfold insertEvents
    apply Rules.Safe.answer
    intro outside
    split
    next => exact Wrote.gives_up owned writing.ordered (List.prefix_refl _)
    next row built =>
      obtain ⟨key, session, sequenceOf, id, _, _⟩ := rowOf_spec built
      rw [fills.sessionId, single input (List.mem_cons_self ..)] at session
      have names : Names input row.eventId := fun given same => (fills.id given same).symm.trans id
      apply Rules.Safe.query
      intro later _ moved
      cases moved.2 _ owned rfl
      have kept : .globalSequence ∈ (transaction.after (insertEvent row) start).held := List.mem_append_right _ owned
      have patched := insertEvent_patch row transaction start
      cases outcome : (insertEvent row).result (transaction.patch start) with
      | violation =>
        rw [outcome, if_neg (by decide)] at patched
        exact Wrote.gives_up kept (patched ▸ writing.ordered) (patched.symm ▸ List.prefix_refl _)
      | inserted =>
        rw [outcome, if_pos rfl] at patched
        have next := writing.insert session (sequenceOf.trans sequenced) (by omega) (insertion_inserted outcome)
        refine Wrote.cons (row.eventId, row.eventJson) valid ⟨names, row, ?_, key, rfl⟩ ?_
          (ih single' (by omega) kept (patched ▸ next))
        · rw [patched]
          exact List.mem_append_right _ (List.mem_singleton_self _)
        · rw [patched]
          exact List.prefix_append _ _
      | conflict =>
        rw [outcome, if_neg (by decide)] at patched
        apply Rules.Safe.answer
        intro second
        split
        next => exact Wrote.gives_up kept (patched ▸ writing.ordered) (patched.symm ▸ List.prefix_refl _)
        next =>
          apply Rules.Safe.read
          intro later _ moved
          cases moved.2 _ kept rfl
          rw [patched]
          split
          next => exact Wrote.gives_up kept (patched ▸ writing.ordered) (patched.symm ▸ List.prefix_refl _)
          next existing found =>
            obtain ⟨other, present, same⟩ := Option.map_eq_some_iff.mp found
            have matched : other.key = row.key := by simpa using List.find?_some present
            have next := writing.skip
            rw [← patched] at next present
            have safe := @ih (place + 1) _ single' (by omega) kept next
            refine Wrote.cons (row.eventId, existing) valid ⟨names, other, ?_, matched.trans key, same⟩ ?_ safe
            · exact List.mem_of_find?_eq_some present
            · exact patched.symm ▸ List.prefix_refl _

/-- The cursor is moved past the whole batch before its first event is written. -/
theorem allocated_writing {sessionId : String} (eventCount : Nat) {start : Tables γ} (valid : Ordered start) :
    Writing tenantId sessionId ((start.cursors (tenantId, sessionId)).getD 1 + eventCount)
      ((start.cursors (tenantId, sessionId)).getD 1)
      ((allocatePgEventSequences tenantId sessionId eventCount).write start start) := by
  have below : ∀ row ∈ start.events, row.session = (tenantId, sessionId) →
      row.sessionSequence < (start.cursors (tenantId, sessionId)).getD 1 := by
    intro row member same
    obtain ⟨next, present, before⟩ := valid.cursors row member
    rw [same] at present
    simpa [present] using before
  refine ⟨⟨valid.keys, valid.sequences, fun row member => ?_⟩, by simp [allocatePgEventSequences], below⟩
  by_cases same : row.session = (tenantId, sessionId)
  · have := below row member same
    refine ⟨(start.cursors (tenantId, sessionId)).getD 1 + eventCount, ?_, by omega⟩
    simp [allocatePgEventSequences, same]
  · obtain ⟨next, present, before⟩ := valid.cursors row member
    exact ⟨next, by simpa [allocatePgEventSequences, same] using present, before⟩

def Delivered (tenantId : String) (inputs : List (EventInput β)) (reply : Reply γ) (db : Tables γ) : Prop :=
  match reply with
  | .returned tenant answered => tenant = tenantId ∧ List.Forall₂ (Answers tenantId db) inputs answered
  | .thrown => True

theorem Delivered.later {inputs : List (EventInput β)} {reply : Reply γ} {before after : Tables γ}
    (delivered : Delivered tenantId inputs reply before) (growth : before.events <+: after.events) :
    Delivered tenantId inputs reply after := by
  cases reply with
  | returned tenant answered => exact ⟨delivered.1, delivered.2.imp fun _ _ answers => answers.later growth⟩
  | thrown => trivial

theorem thrown_safe {inputs : List (EventInput β)} {transaction : Open (Tables γ) Lock} {db : Tables γ} :
    rules.Safe (fun reply _ db => Delivered tenantId inputs reply db) thrown transaction db :=
  Rules.Safe.rollback fun _ _ _ _ _ _ => trivial

theorem Numbered.length {inputs : List (EventInput β)} {events : List (FullEvent β)} {sequence : Nat}
    (numbered : Numbered inputs events sequence) : events.length = inputs.length := by
  induction numbered with
  | nil => rfl
  | cons fills sequenced rest ih => simp [ih]

theorem appendSession_safe {sessionId : String} {events : List (EventInput β)} {db : Tables γ}
    (single : ∀ event ∈ events, event.sessionId = sessionId) :
    rules.Safe (fun reply _ db => Delivered tenantId events reply db)
      (appendSession serializeEventForJsonb call tenantId sessionId events) .closed db := by
  unfold appendSession
  apply Rules.Safe.answer
  intro connected
  split
  next => exact fun _ _ _ => trivial
  next =>
    apply Rules.Safe.lock
    intro start valid _
    have owned : Lock.globalSequence ∈ [Lock.globalSequence] := List.mem_singleton_self _
    apply Rules.Safe.answer
    intro outside
    split
    next => exact thrown_safe
    next =>
      apply Rules.Safe.query
      intro later _ moved
      cases moved.2 _ owned rfl
      have writing : Writing tenantId sessionId _ _ _ := allocated_writing events.length valid
      apply Rules.Safe.answer
      intro outside
      split
      next => exact thrown_safe
      next =>
        apply fullEvents_then (fun program => rules.Safe _ program _ _) fun _ safe => Rules.Safe.answer safe
        intro full numbered
        have room := Nat.le_of_eq (congrArg ((start.cursors (tenantId, sessionId)).getD 1 + ·) numbered.length)
        apply Rules.Safe.bind (insertEvents_safe valid numbered single room (List.mem_append_right _ owned) writing) valid
        intro value transaction db _ wrote
        cases wrote.same
        split
        next => exact thrown_safe
        next durable =>
          apply Rules.Safe.answer
          intro outside
          split
          next => exact thrown_safe
          next =>
            apply Rules.Safe.commit
            intro later _ moved
            cases moved.2 _ wrote.owned rfl
            refine ⟨fun others apart _ => ⟨wrote.ordered, wrote.growth, fun key taken same => ?_⟩, ?_⟩
            · exact absurd (same ▸ taken) (apart _ wrote.owned)
            · intro _ final _ onward
              have delivered : Delivered tenantId events (.returned tenantId durable) _ := ⟨rfl, wrote.answers durable rfl⟩
              exact delivered.later onward.1

theorem single_together {events : List (EventInput β)} {sessionId : String} {first : EventInput β} {rest : List (EventInput β)}
    (single : ∀ event ∈ events, event.sessionId = sessionId) (nonempty : events = first :: rest) :
    (rest.any (·.sessionId ≠ first.sessionId)) = false := by
  subst nonempty
  apply List.any_eq_false.mpr
  intro event member
  simp [single event (List.mem_cons_of_mem _ member), single first (List.mem_cons_self ..)]

theorem appendBatch_safe {batch : Batch β} {db : Tables γ} (single : batch.SingleSession) :
    rules.Safe (fun reply _ db => Delivered (trim batch.tenantId) batch.events reply db)
      (appendBatch serializeEventForJsonb call batch.tenantId batch.events) .closed db := by
  obtain ⟨tenantId, events⟩ := batch
  obtain ⟨sessionId, single⟩ := single
  simp only at single
  simp only [appendBatch]
  split
  next => exact fun _ _ _ => trivial
  next =>
    cases events with
    | nil => exact fun _ _ _ => ⟨rfl, .nil⟩
    | cons first rest =>
      have same : ∀ event ∈ first :: rest, event.sessionId = first.sessionId := fun event member =>
        (single event member).trans (single first (List.mem_cons_self ..)).symm
      simp only [single_together single rfl, if_false, Bool.false_eq_true]
      split
      next => exact fun _ _ _ => trivial
      next => exact appendSession_safe same

end Insert

/-! What a call stores is its own part of the table. -/

/-- The rows of a call stand in the order of its inputs, each under the id of the input at its place. -/
structure Placed (inputs : List (EventInput β)) (rows : List (EventRow γ)) : Prop where
  order : rows.Pairwise fun first second => first.place < second.place
  named : ∀ row ∈ rows, ∃ input, inputs[row.place]? = some input ∧ Names input row.eventId

def footprint (batches : Nat → Batch β) : Footprint (Tables γ) (List (EventRow γ)) where
  part call db := db.events.filter (·.call = call)
  valid call := Placed (batches call).events

/-- What is known of a call's rows once it has replied. -/
def Stored (reply : Reply γ) (rows : List (EventRow γ)) : Prop :=
  match reply with
  | .returned _ _ => True
  | .thrown => rows = []

structure Adds (inputs : List (EventInput β)) (call place : Nat) (rows : List (EventRow γ))
    (transaction : Open (Tables γ) Lock) : Prop where
  patch : ∀ db, (transaction.patch db).events = db.events ++ rows
  own : ∀ row ∈ rows, row.call = call
  before : ∀ row ∈ rows, row.place < place
  placed : Placed inputs rows

section Track

variable {batches : Nat → Batch β} {serializeEventForJsonb : FullEvent β → Option γ} {call : Nat} {tenantId : String}
  {inputs : List (EventInput β)} {place : Nat} {rows : List (EventRow γ)} {transaction : Open (Tables γ) Lock}

theorem Adds.start (kept : ∀ db, (transaction.patch db).events = db.events) : Adds inputs call 0 [] transaction :=
  ⟨fun db => by rw [kept, List.append_nil], fun _ member => (by cases member), fun _ member => (by cases member),
    ⟨.nil, fun _ member => (by cases member)⟩⟩

theorem Adds.insert {input : EventInput β} {row : EventRow γ} (adds : Adds inputs call place rows transaction)
    (present : inputs[place]? = some input) (named : Names input row.eventId) (own : row.call = call)
    (placed : row.place = place) (db : Tables γ) :
    ∃ rows, Adds inputs call (place + 1) rows (transaction.after (insertEvent row) db) := by
  have kept : ∀ other ∈ rows, other.place < place + 1 := fun other member => Nat.lt_succ_of_lt (adds.before other member)
  by_cases inserted : insertion row (transaction.patch db) = .inserted
  · refine ⟨rows ++ [row], fun later => ?_, fun other member => ?_, fun other member => ?_, ?_, fun other member => ?_⟩
    · simp [Open.after, insertEvent, inserted, adds.patch]
    · cases List.mem_append.mp member with
      | inl member => exact adds.own other member
      | inr last => exact List.mem_singleton.mp last ▸ own
    · cases List.mem_append.mp member with
      | inl member => exact kept other member
      | inr last =>
        cases List.mem_singleton.mp last
        omega
    · apply List.pairwise_append.mpr
      refine ⟨adds.placed.order, List.pairwise_singleton _ _, fun other member last final => ?_⟩
      rw [List.mem_singleton.mp final, placed]
      exact adds.before other member
    · cases List.mem_append.mp member with
      | inl member => exact adds.placed.named other member
      | inr last =>
        cases List.mem_singleton.mp last
        exact ⟨input, placed.symm ▸ present, named⟩
  · refine ⟨rows, fun later => ?_, adds.own, kept, adds.placed⟩
    simp [Open.after, insertEvent, inserted, adds.patch]

/-- The loop adds rows of its call in the order of the places, whatever it reads. -/
theorem insertEvents_tracks {rest : List (EventInput β)} {events : List (FullEvent β)} {sequence : Nat}
    (numbered : Numbered rest events sequence) (reached : inputs.drop place = rest)
    (adds : Adds inputs call place rows transaction) (own : List (EventRow γ)) :
    (footprint batches).Tracks call (fun _ later final => final = own ∧ ∃ place rows, Adds inputs call place rows later)
      (insertEvents serializeEventForJsonb call tenantId events place) transaction own := by
  induction numbered generalizing place rows transaction with
  | nil => exact ⟨rfl, place, rows, adds⟩
  | @cons input event rest events sequence fills sequenced numbered ih =>
    have present : inputs[place]? = some input := by
      have here : (inputs.drop place)[0]? = some input := by rw [reached]; rfl
      simpa [List.getElem?_drop] using here
    have rest_reached : inputs.drop (place + 1) = rest := by rw [← List.drop_drop, reached, List.drop_one, List.tail_cons]
    have onward : ∀ returned : String × γ, ∀ later : Open (Tables γ) Lock,
        (∃ rows, Adds inputs call (place + 1) rows later) →
        (footprint batches).Tracks call
          (fun _ later final => final = own ∧ ∃ place rows, Adds inputs call place rows later)
          (do return (← insertEvents serializeEventForJsonb call tenantId events (place + 1)).map (returned :: ·))
          later own := by
      intro returned later added
      obtain ⟨more, added⟩ := added
      apply Footprint.Tracks.bind (ih rest_reached added)
      intro value later final kept
      exact kept
    unfold insertEvents
    apply Footprint.Tracks.answer
    intro outside
    split
    next => exact ⟨rfl, place, rows, adds⟩
    next row built =>
      obtain ⟨_, _, _, id, numberOf, placeOf⟩ := rowOf_spec built
      have names : Names input row.eventId := fun given same => (fills.id given same).symm.trans id
      apply Footprint.Tracks.query
      intro db
      have added := adds.insert present names numberOf placeOf db
      split
      next => exact ⟨rfl, _, added⟩
      next => exact onward (row.eventId, row.eventJson) _ added
      next =>
        apply Footprint.Tracks.answer
        intro second
        split
        next => exact ⟨rfl, _, added⟩
        next =>
          apply Footprint.Tracks.query
          intro db
          split
          next => exact ⟨rfl, _, added⟩
          next existing _ => exact onward (row.eventId, existing) _ added

theorem thrown_tracks : (footprint batches).Tracks call (fun reply _ rows => Stored reply rows)
    (thrown : Append γ (Reply γ)) transaction [] := rfl

theorem Adds.commit (adds : Adds (batches call).events call place rows transaction) {db : Tables γ}
    (empty : (footprint batches).part call db = []) :
    (∀ other, other ≠ call → (footprint batches).part other (transaction.patch db) = (footprint batches).part other db) ∧
      (footprint batches).valid call ((footprint batches).part call (transaction.patch db)) := by
  refine ⟨fun other apart => ?_, ?_⟩
  · have none : rows.filter (·.call = other) = [] := List.filter_eq_nil_iff.mpr fun row member => by
      simpa [adds.own row member] using Ne.symm apart
    simp [footprint, adds.patch, none]
  · have all : rows.filter (·.call = call) = rows := List.filter_eq_self.mpr fun row member => by
      simpa using adds.own row member
    have part : (footprint batches).part call (transaction.patch db) = rows := by
      simp only [footprint] at empty ⊢
      rw [adds.patch, List.filter_append, empty, all, List.nil_append]
    rw [part]
    exact adds.placed

theorem appendSession_tracks {sessionId : String} :
    (footprint batches).Tracks call (fun reply _ rows => Stored reply rows)
      (appendSession serializeEventForJsonb call tenantId sessionId (batches call).events) .closed [] := by
  unfold appendSession
  apply Footprint.Tracks.answer
  intro connected
  split
  next => rfl
  next =>
    apply Footprint.Tracks.query
    intro locked
    apply Footprint.Tracks.answer
    intro outside
    split
    next => exact thrown_tracks
    next =>
      apply Footprint.Tracks.query
      intro allocated
      apply Footprint.Tracks.answer
      intro outside
      split
      next => exact thrown_tracks
      next =>
        apply fullEvents_then (fun program => (footprint batches).Tracks _ _ program _ _)
          fun _ tracks => Footprint.Tracks.answer tracks
        intro full numbered
        apply Footprint.Tracks.bind (insertEvents_tracks numbered rfl (Adds.start fun _ => rfl) [])
        intro value transaction own wrote
        obtain ⟨rfl, place, rows, adds⟩ := wrote
        split
        next => exact thrown_tracks
        next =>
          apply Footprint.Tracks.answer
          intro outside
          split
          next => exact thrown_tracks
          next =>
            apply Footprint.Tracks.commit
            intro db empty
            obtain ⟨apart, placed⟩ := adds.commit empty
            exact ⟨apart, placed, trivial⟩

theorem appendBatch_tracks (single : (batches call).SingleSession) :
    (footprint batches).Tracks call (fun reply _ rows => Stored reply rows)
      (appendBatch serializeEventForJsonb call (batches call).tenantId (batches call).events) .closed [] := by
  obtain ⟨sessionId, single⟩ := single
  simp only [appendBatch]
  split
  next => rfl
  next =>
    split
    next => trivial
    next first rest nonempty =>
      rw [single_together single nonempty]
      simp only [Bool.false_eq_true, if_false]
      split
      next => rfl
      next => exact appendSession_tracks

end Track

theorem covers {serializeEventForJsonb : FullEvent β → Option γ} {batches : Nat → Batch β}
    (single : ∀ call, (batches call).SingleSession) : rules.Covers (store serializeEventForJsonb batches)
      fun call reply db => Delivered (trim (batches call).tenantId) (batches call).events reply db where
  permits _ := trivial
  admits admitted _ := admitted ▸ appendBatch_safe (single _)
  lasting _ growth delivered := delivered.later growth

/-- What is true of the tables and of the calls at any moment. -/
structure Exact (batches : Nat → Batch β) (world : World (Tables γ) Lock Outside (Reply γ)) : Prop where
  /-- Each id of a tenant is stored once. -/
  once : (world.db.events.map (·.key)).Nodup
  /-- In the order of the commits, the sequences of a session increase. -/
  increasing : world.db.events.Pairwise fun first second =>
    first.session = second.session → first.sessionSequence < second.sessionSequence
  /-- Each event returned is the one stored under the id of its input. -/
  answered : ∀ {call tenantId events}, world.calls[call]? = some (.finished (.returned tenantId events)) →
    tenantId = trim (batches call).tenantId ∧ List.Forall₂ (Answers tenantId world.db) (batches call).events events
  /-- The rows of a call are in the order of its inputs. -/
  placed : ∀ call, Placed (batches call).events (world.db.events.filter (·.call = call))
  thrown : ∀ {call}, world.calls[call]? = some (.finished .thrown) → ∀ row ∈ world.db.events, row.call ≠ call

theorem append_exact (serializeEventForJsonb : FullEvent β → Option γ) (batches : Nat → Batch β)
    (single : ∀ call, (batches call).SingleSession) {world later : World (Tables γ) Lock Outside (Reply γ)}
    (run : Run (store serializeEventForJsonb batches) ⟨.empty, []⟩ world)
    (onward : Run (store serializeEventForJsonb batches) world later) :
    Exact batches world ∧ world.db.events <+: later.db.events := by
  have empty : Ordered (Tables.empty : Tables γ) := ⟨.nil, .nil, fun _ member => by cases member⟩
  obtain ⟨holds, _⟩ := (Rules.Holds.start empty).run (covers single) run
  obtain ⟨_, growth⟩ := holds.run (covers single) onward
  have begins : (footprint batches).Holds (fun _ => Stored) [] (World.mk (Tables.empty : Tables γ) [] : World (Tables γ) Lock Outside (Reply γ)) :=
    ⟨fun _ => ⟨.nil, fun _ member => by cases member⟩, fun _ _ => rfl, fun found => by simp at found⟩
  have traced := begins.run (fun admitted => admitted ▸ appendBatch_tracks (single _)) run
  refine ⟨⟨holds.invariant.keys, holds.invariant.sequences, fun found => ?_, traced.valid, fun {call} found row member same => ?_⟩, growth⟩
  · obtain ⟨same, answers⟩ := holds.fits found
    exact ⟨same, same ▸ answers⟩
  · have none : world.db.events.filter (·.call = call) = [] := traced.fits found
    exact List.filter_eq_nil_iff.mp none row member (by simpa using same)

/-- An input with an id, in a batch of its session. -/
def input (sessionId id : String) : EventInput String := ⟨some (some id), none, sessionId, "note", none, id⟩

def sampleBatches : Nat → Batch String
  | 0 => ⟨"acme", [input "s1" "e1", input "s1" "e1", input "s1" "e2"]⟩
  | 1 => ⟨"acme", [input "s2" "e2", input "s2" "e3"]⟩
  | _ => ⟨"acme", [input "s1" "e4"]⟩

theorem sampleBatches_single (call : Nat) : (sampleBatches call).SingleSession := by
  match call with
  | 0 => exact ⟨"s1", by decide⟩
  | 1 => exact ⟨"s2", by decide⟩
  | _ + 2 => exact ⟨"s1", fun event member => List.mem_singleton.mp member ▸ rfl⟩

def sampleStart : World (Tables String) Lock Outside (Reply String) :=
  World.spawn ⟨.empty, []⟩ ([0, 1, 2].map fun call =>
    appendBatch (fun full => some full.rest) call (sampleBatches call).tenantId (sampleBatches call).events)

theorem sampleStart_run : Run (store (fun full => some full.rest) sampleBatches) ⟨.empty, []⟩ sampleStart :=
  ((Relation.ReflTransGen.refl.tail (.start rfl)).tail (.start rfl)).tail (.start rfl)

def sample : Option (World (Tables String) Lock Outside (Reply String)) :=
  sampleStart.play (fun _ _ _ => true) (([1] ++ List.replicate 19 0 ++ List.replicate 15 1 ++ List.replicate 8 2).map
    (fun call => (call, ⟨false, "u", "now"⟩)) ++ [(2, ⟨true, "u", "now"⟩), (2, ⟨false, "u", "now"⟩), (2, ⟨false, "u", "now"⟩)])

theorem append_exact_sample : ∃ world, sample = some world ∧
    world.db.events.map (fun row => (row.session, row.eventId, row.sessionSequence)) =
      [(("acme", "s1"), "e1", 1), (("acme", "s1"), "e2", 3), (("acme", "s2"), "e3", 2)] ∧
    Exact sampleBatches world ∧ world.db.events <+: world.db.events := by
  have played : sample.map (fun world => world.db.events.map fun row => (row.session, row.eventId, row.sessionSequence)) =
      some [(("acme", "s1"), "e1", 1), (("acme", "s1"), "e2", 3), (("acme", "s2"), "e3", 2)] := by decide +kernel
  obtain ⟨world, same, rows⟩ := Option.map_eq_some_iff.mp played
  have run : Run (store (fun full => some full.rest) sampleBatches) ⟨.empty, []⟩ world :=
    sampleStart_run.trans (run_of_play (fun _ _ _ _ _ => trivial) same)
  exact ⟨world, same, rows, append_exact (fun full => some full.rest) sampleBatches sampleBatches_single run .refl⟩

end AgentSaas.Proofs.EventStore
