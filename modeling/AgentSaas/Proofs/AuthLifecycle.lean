import AgentSaas.AuthLifecycle
import AgentSaas.Proofs.InterleavingSafety
import AgentSaas.Splitting
import Mathlib.Data.List.Infix

/-! When a logout never hits a later login. A recovery acts on a journal that was read before,
outside the queue. -/

namespace AgentSaas.Proofs.AuthLifecycle
open AgentSaas.AuthLifecycle Interleaving InterleavingSafety
open Splitting (split_concat)

variable {shared : Shared} {transaction : Transaction} {journal : AuthLifecycleJournal} {move : Move}
  {log : List Entry} {id : Nat}

/-- What a recovery acts on is still stored, no login has begun since it was written, and nothing
is under way. A replay that joins a termination of its kind acts on nothing. -/
def Current (shared : Shared) (call : Call) (_ : Move) : Prop :=
  match call.task with
  | .read (some journal) =>
    journal.status ≠ .committed → journal.operation ≠ .login → coalesces shared journal.operation = false →
      shared.queue = [] ∧ shared.journal = some journal ∧ shared.stale = false
  | .fencing journal | .failClosing journal => shared.queue = [] ∧ shared.journal = some journal ∧ shared.stale = false
  | _ => True

def effectIds (log : List Entry) : List Nat :=
  log.filterMap fun
    | .effect id .. => some id
    | _ => none

/-- The termination steps of a transaction that did not fail, in their order. -/
def performed (id : Nat) (log : List Entry) : List AuthTerminationStep :=
  log.filterMap fun
    | .effect other (.termination step) true => if other = id then some step else none
    | _ => none

def terminates : AuthEffect → Bool
  | .termination _ | .deleteRemoteAccount => true
  | _ => false

/-- Between two effects of one transaction there is none of another. -/
def Uninterleaved (ids : List Nat) : Prop :=
  ∀ first middle last id, ids = first ++ id :: middle ++ id :: last → ∀ other ∈ middle, other = id

/-- Every login that began was called before this transaction was. -/
def Later (id : Nat) (log : List Entry) : Prop := ∀ login, .started login ∈ log → login < id

/-- Effects of two transactions do not interleave, a termination is committed and the remote account
deleted only after all six steps in their order, and a termination that acts after a login has begun
was called after that login. -/
structure Ordered (log : List Entry) : Prop where
  apart : Uninterleaved (effectIds log)
  complete : ∀ before id after, log = before ++ .committed id :: after → AUTH_TERMINATION_STEPS.Sublist (performed id before)
  remote : ∀ before id ok after, log = before ++ .effect id .deleteRemoteAccount ok :: after →
    AUTH_TERMINATION_STEPS.Sublist (performed id before)
  later : ∀ before id effect ok after, log = before ++ .effect id effect ok :: after → terminates effect → Later id before

def MayAct (id : Nat) (log : List Entry) : Prop := id ∉ effectIds log ∨ (effectIds log).getLast? = some id

theorem Uninterleaved.concat {ids : List Nat} (apart : Uninterleaved ids) (turn : id ∉ ids ∨ ids.getLast? = some id) :
    Uninterleaved (ids ++ [id]) := by
  intro first middle last name same other member
  obtain ⟨rfl, rfl, rfl⟩ | ⟨less, rfl, rfl⟩ := split_concat same
  · obtain absent | final := turn
    · exact absurd (List.mem_append_right _ List.mem_cons_self) absent
    · obtain rfl | ⟨front, back, rfl⟩ := List.eq_nil_or_concat middle
      · cases member
      · rw [List.concat_eq_append, ← List.cons_append, ← List.append_assoc, List.getLast?_concat] at final
        obtain rfl := Option.some.inj final
        rw [List.concat_eq_append, List.mem_append, List.mem_singleton] at member
        obtain inside | rfl := member
        · exact apart first front [] back (by simp) other inside
        · rfl
  · exact apart first middle less name rfl other member

@[simp] theorem effectIds_effect (effect : AuthEffect) (ok : Bool) :
    effectIds (log ++ [.effect id effect ok]) = effectIds log ++ [id] := List.filterMap_append

@[simp] theorem effectIds_started : effectIds (log ++ [.started id]) = effectIds log := by
  rw [effectIds, List.filterMap_append]
  exact List.append_nil _

@[simp] theorem effectIds_committed : effectIds (log ++ [.committed id]) = effectIds log := by
  rw [effectIds, List.filterMap_append]
  exact List.append_nil _

theorem performed_mono (id : Nat) (more : List Entry) : (performed id log).Sublist (performed id (log ++ more)) := by
  rw [performed, performed, List.filterMap_append]
  exact List.sublist_append_left _ _

theorem performed_step (step : AuthTerminationStep) :
    performed id (log ++ [.effect id (.termination step) true]) = performed id log ++ [step] := by
  rw [performed, performed, List.filterMap_append]
  simp

theorem mayAct_last (effect : AuthEffect) (ok : Bool) : MayAct id (log ++ [.effect id effect ok]) := by
  refine .inr ?_
  rw [effectIds_effect, List.getLast?_concat]

theorem Later.effect {other : Nat} (later : Later id log) (effect : AuthEffect) (ok : Bool) :
    Later id (log ++ [.effect other effect ok]) := by
  intro login member
  obtain old | new := List.mem_append.mp member
  · exact later login old
  · cases List.mem_singleton.mp new

theorem Ordered.concat (ordered : Ordered log) {entry : Entry} (apart : Uninterleaved (effectIds (log ++ [entry])))
    (complete : ∀ id, entry = .committed id → AUTH_TERMINATION_STEPS.Sublist (performed id log))
    (remote : ∀ id ok, entry = .effect id .deleteRemoteAccount ok → AUTH_TERMINATION_STEPS.Sublist (performed id log))
    (later : ∀ id effect ok, entry = .effect id effect ok → terminates effect → Later id log) : Ordered (log ++ [entry]) := by
  refine ⟨apart, ?_, ?_, ?_⟩
  · intro before name rest same
    obtain ⟨rfl, new, -⟩ | ⟨less, -, old⟩ := split_concat same
    · exact complete name new.symm
    · exact ordered.complete before name less old
  · intro before name ok rest same
    obtain ⟨rfl, new, -⟩ | ⟨less, -, old⟩ := split_concat same
    · exact remote name ok new.symm
    · exact ordered.remote before name ok less old
  · intro before name effect ok rest same
    obtain ⟨rfl, new, -⟩ | ⟨less, -, old⟩ := split_concat same
    · exact later name effect ok new.symm
    · exact ordered.later before name effect ok less old

theorem Ordered.effect (ordered : Ordered log) (turn : MayAct id log) {effect : AuthEffect} {ok : Bool}
    (complete : effect = .deleteRemoteAccount → AUTH_TERMINATION_STEPS.Sublist (performed id log))
    (later : terminates effect → Later id log) : Ordered (log ++ [.effect id effect ok]) := by
  refine ordered.concat (effectIds_effect effect ok ▸ ordered.apart.concat turn) (fun _ wrong => by cases wrong) ?_ ?_
  · intro name ok same
    cases same
    exact complete rfl
  · intro name effect ok same
    cases same
    exact later

theorem Ordered.started (ordered : Ordered log) : Ordered (log ++ [.started id]) := by
  refine ordered.concat ?_ (fun _ wrong => by cases wrong) (fun _ _ wrong => by cases wrong) fun _ _ _ wrong => by cases wrong
  rw [effectIds_started]
  exact ordered.apart

theorem Ordered.committed (ordered : Ordered log) (complete : AUTH_TERMINATION_STEPS.Sublist (performed id log)) :
    Ordered (log ++ [.committed id]) := by
  refine ordered.concat ?_ ?_ (fun _ _ wrong => by cases wrong) fun _ _ _ wrong => by cases wrong
  · rw [effectIds_committed]
    exact ordered.apart
  · intro name same
    cases same
    exact complete

/-! The journal and the running transaction. -/

def transactionOf : Entry → Nat
  | .started id | .effect id .. | .committed id => id

/-- The transactions that the record and the journal name. -/
def names (shared : Shared) : List Nat := shared.log.map transactionOf ++ (shared.journal.map (·.transactionId)).toList

def Progress (journal : AuthLifecycleJournal) (log : List Entry) : Prop :=
  (AUTH_TERMINATION_STEPS.take journal.checkpoint).Sublist (performed journal.transactionId log)

structure Kept (shared : Shared) : Prop where
  ordered : Ordered shared.log
  named : ∀ name ∈ names shared, name < shared.tickets
  journal : ∀ journal, shared.journal = some journal → journal.operation ≠ .login → Progress journal shared.log
  current : ∀ journal, shared.journal = some journal → shared.stale = false →
    MayAct journal.transactionId shared.log ∧ (journal.operation ≠ .login → Later journal.transactionId shared.log)

/-- A transaction that has not begun: it was called after everything that is named. -/
structure Waiting (shared : Shared) (journal : AuthLifecycleJournal) : Prop where
  first : journal.checkpoint = 0
  later : ∀ name ∈ names shared, name < journal.transactionId

structure Acting (shared : Shared) (journal : AuthLifecycleJournal) : Prop where
  turn : MayAct journal.transactionId shared.log
  later : journal.operation ≠ .login → Later journal.transactionId shared.log
  own : shared.stale = true ∨ ∀ other, shared.journal = some other → other.transactionId = journal.transactionId

structure Ending (shared : Shared) (journal : AuthLifecycleJournal) : Prop where
  acting : Acting shared journal
  termination : journal.operation ≠ .login
  progress : Progress journal shared.log

def Head (shared : Shared) (transaction : Transaction) : Prop :=
  match transaction.stage with
  | .queued => transaction.existing = false ∧ Waiting shared transaction.journal ∨
    transaction.existing = true ∧ Ending shared transaction.journal
  | .writing => Waiting shared transaction.journal ∧ transaction.journal.operation ≠ .login
  | .performing step => Ending shared transaction.journal ∧ AUTH_TERMINATION_STEPS[transaction.journal.checkpoint]? = some step
  | .checkpointing _ => Ending shared transaction.journal ∧
    (AUTH_TERMINATION_STEPS.take (transaction.journal.checkpoint + 1)).Sublist (performed transaction.journal.transactionId shared.log)
  | .deletingRemote | .committing => Ending shared transaction.journal ∧
    AUTH_TERMINATION_STEPS.Sublist (performed transaction.journal.transactionId shared.log)
  | .failing _ => Ending shared transaction.journal
  | .clearing | .settled => True
  | .refusing | .refused | .fencing | .recording | .persisting | .savingFirst | .installing | .savingSecond | .committingLogin
    | .connecting | .clearingLogin | .failClosing _ | .writingFailed _ =>
    Acting shared transaction.journal ∧ transaction.journal.operation = .login

/-- A step of the transaction `id`: the record grows by what it does, and nothing else gets a name. -/
structure Follows (id : Nat) (shared after : Shared) : Prop where
  kept : Kept after
  log : shared.log <+: after.log
  named : ∀ name ∈ names after, name = id ∨ name ∈ names shared
  tickets : after.tickets = shared.tickets

theorem Follows.refl (kept : Kept shared) (id : Nat) : Follows id shared shared :=
  ⟨kept, List.prefix_refl _, fun _ member => .inr member, rfl⟩

theorem mem_names {name : Nat} : name ∈ names shared ↔
    name ∈ shared.log.map transactionOf ∨ ∃ journal, shared.journal = some journal ∧ journal.transactionId = name := by
  simp only [names, List.mem_append, Option.mem_toList, Option.map_eq_some_iff]

theorem names_record (entry : Entry) {name : Nat} (member : name ∈ names (shared.record entry)) :
    name = transactionOf entry ∨ name ∈ names shared := by
  obtain logged | stored := mem_names.mp member
  · rw [Shared.record, List.map_append, List.mem_append] at logged
    obtain old | new := logged
    · exact .inr (mem_names.mpr (.inl old))
    · exact .inl (List.mem_singleton.mp new)
  · exact .inr (mem_names.mpr (.inr stored))

theorem Kept.bound (kept : Kept shared) (bounded : id < shared.tickets) {name : Nat} (named : name = id ∨ name ∈ names shared) :
    name < shared.tickets := by
  obtain rfl | old := named
  · exact bounded
  · exact kept.named name old

theorem effectIds_subset (log : List Entry) : effectIds log ⊆ log.map transactionOf := by
  intro id member
  obtain ⟨entry, inside, named⟩ := List.mem_filterMap.mp member
  cases entry with
  | effect => exact List.mem_map.mpr ⟨_, inside, Option.some.inj named⟩
  | started | committed => cases named

theorem Waiting.turn (waiting : Waiting shared journal) : MayAct journal.transactionId shared.log :=
  .inl fun member => Nat.lt_irrefl _ (waiting.later _ (mem_names.mpr (.inl (effectIds_subset _ member))))

theorem Waiting.begins (waiting : Waiting shared journal) : Later journal.transactionId shared.log :=
  fun _ member => waiting.later _ (mem_names.mpr (.inl (List.mem_map.mpr ⟨_, member, rfl⟩)))

theorem Progress.mono (progress : Progress journal log) (more : List Entry) : Progress journal (log ++ more) :=
  List.Sublist.trans progress (performed_mono _ more)

theorem perform_follows (effect : AuthEffect) (move : Move) (kept : Kept shared) (acting : Acting shared journal)
    (bounded : journal.transactionId < shared.tickets) (termination : terminates effect → journal.operation ≠ .login)
    (complete : effect = .deleteRemoteAccount → AUTH_TERMINATION_STEPS.Sublist (performed journal.transactionId shared.log)) :
    Follows journal.transactionId shared (shared.perform journal.transactionId effect move) ∧
      Acting (shared.perform journal.transactionId effect move) journal := by
  refine ⟨⟨⟨?_, ?_, ?_, ?_⟩, List.prefix_append _ _, fun _ => names_record _, rfl⟩, mayAct_last effect _,
    fun ends => (acting.later ends).effect _ _, acting.own⟩
  · exact kept.ordered.effect acting.turn complete fun ends => acting.later (termination ends)
  · exact fun name member => kept.bound bounded (names_record _ member)
  · exact fun other stored ends => (kept.journal other stored ends).mono _
  · intro other stored fresh
    obtain stale | own := acting.own
    · exact absurd (stale.symm.trans fresh) (by decide)
    · refine ⟨?_, fun ends => ((kept.current other stored fresh).2 ends).effect _ _⟩
      rw [own other stored]
      exact mayAct_last effect _

theorem write_follows (kept : Kept shared) {written : AuthLifecycleJournal} (turn : MayAct written.transactionId shared.log)
    (later : written.operation ≠ .login → Later written.transactionId shared.log)
    (bounded : written.transactionId < shared.tickets) (progress : written.operation ≠ .login → Progress written shared.log) :
    Follows written.transactionId shared (shared.write written move) := by
  unfold Shared.write
  split
  · have named : ∀ name ∈ names { shared with journal := some written, stale := false },
        name = written.transactionId ∨ name ∈ names shared := by
      intro name member
      obtain logged | ⟨other, stored, rfl⟩ := mem_names.mp member
      · exact .inr (mem_names.mpr (.inl logged))
      · cases stored
        exact .inl rfl
    refine ⟨⟨kept.ordered, ?_, ?_, ?_⟩, List.prefix_refl _, named, rfl⟩
    · exact fun name member => kept.bound bounded (named name member)
    · rintro other ⟨⟩
      exact progress
    · rintro other ⟨⟩ _
      exact ⟨turn, later⟩
  · exact .refl kept _

theorem write_log (written : AuthLifecycleJournal) : (shared.write written move).log = shared.log := by
  unfold Shared.write
  split <;> rfl

theorem Acting.write (acting : Acting shared journal) {written : AuthLifecycleJournal}
    (same : written.transactionId = journal.transactionId) : Acting (shared.write written move) journal := by
  unfold Shared.write
  split
  · refine ⟨acting.turn, acting.later, .inr ?_⟩
    rintro other ⟨⟩
    exact same
  · exact acting

/-- At most the journal was cleared. -/
structure Quiet (shared after : Shared) : Prop where
  log : after.log = shared.log
  journal : ∀ journal, after.journal = some journal → shared.journal = some journal
  stale : after.stale = shared.stale
  tickets : shared.tickets ≤ after.tickets

namespace Quiet

variable {after : Shared}

theorem names (quiet : Quiet shared after) {name : Nat} (member : name ∈ names after) : name ∈ names shared := by
  obtain logged | ⟨journal, stored, same⟩ := mem_names.mp member
  · exact mem_names.mpr (.inl (quiet.log ▸ logged))
  · exact mem_names.mpr (.inr ⟨journal, quiet.journal journal stored, same⟩)

theorem kept (quiet : Quiet shared after) (kept : Kept shared) : Kept after where
  ordered := quiet.log.symm ▸ kept.ordered
  named name member := Nat.lt_of_lt_of_le (kept.named name (quiet.names member)) quiet.tickets
  journal journal stored ends := quiet.log.symm ▸ kept.journal journal (quiet.journal journal stored) ends
  current journal stored fresh :=
    quiet.log.symm ▸ kept.current journal (quiet.journal journal stored) (quiet.stale.symm.trans fresh)

theorem waiting (quiet : Quiet shared after) (waiting : Waiting shared journal) : Waiting after journal :=
  ⟨waiting.first, fun name member => waiting.later name (quiet.names member)⟩

theorem acting (quiet : Quiet shared after) (acting : Acting shared journal) : Acting after journal := by
  refine ⟨quiet.log.symm ▸ acting.turn, quiet.log.symm ▸ acting.later, ?_⟩
  obtain stale | own := acting.own
  · exact .inl (quiet.stale.trans stale)
  · exact .inr fun other stored => own other (quiet.journal other stored)

theorem ending (quiet : Quiet shared after) (ending : Ending shared journal) : Ending after journal :=
  ⟨quiet.acting ending.acting, ending.termination, quiet.log.symm ▸ ending.progress⟩

theorem head (quiet : Quiet shared after) (head : Head shared transaction) : Head after transaction := by
  unfold Head at head ⊢
  split at head
  · obtain ⟨fresh, waiting⟩ | ⟨known, ending⟩ := head
    · exact .inl ⟨fresh, quiet.waiting waiting⟩
    · exact .inr ⟨known, quiet.ending ending⟩
  · exact ⟨quiet.waiting head.1, head.2⟩
  · exact ⟨quiet.ending head.1, head.2⟩
  · exact ⟨quiet.ending head.1, quiet.log.symm ▸ head.2⟩
  · exact ⟨quiet.ending head.1, quiet.log.symm ▸ head.2⟩
  · exact ⟨quiet.ending head.1, quiet.log.symm ▸ head.2⟩
  · exact quiet.ending head
  · trivial
  · trivial
  all_goals exact ⟨quiet.acting head.1, head.2⟩

theorem clear (shared : Shared) (move : Move) : Quiet shared (shared.clear move) := by
  unfold Shared.clear
  split
  · exact ⟨rfl, nofun, rfl, Nat.le_refl _⟩
  · exact ⟨rfl, fun _ => id, rfl, Nat.le_refl _⟩

end Quiet

theorem clear_tickets : (shared.clear move).tickets = shared.tickets := by
  unfold Shared.clear
  split <;> rfl

theorem clear_follows (move : Move) (kept : Kept shared) (id : Nat) : Follows id shared (shared.clear move) :=
  have quiet := Quiet.clear shared move
  ⟨quiet.kept kept, quiet.log ▸ List.prefix_refl _, fun _ member => .inr (quiet.names member), clear_tickets⟩

theorem started_follows (kept : Kept shared) (waiting : Waiting shared journal)
    (login : journal.operation = .login) (bounded : journal.transactionId < shared.tickets) :
    Follows journal.transactionId shared
        { shared.record (.started journal.transactionId) with stale := true } ∧
      Acting { shared.record (.started journal.transactionId) with stale := true } journal := by
  refine ⟨⟨⟨kept.ordered.started, ?_, ?_, nofun⟩, List.prefix_append _ _, fun _ => names_record _, rfl⟩, ?_,
    fun ends => absurd login ends, .inl rfl⟩
  · exact fun name member => kept.bound bounded (names_record _ member)
  · exact fun other stored ends => (kept.journal other stored ends).mono _
  · have turn := waiting.turn
    unfold MayAct at turn ⊢
    rwa [Shared.record, effectIds_started]

theorem committed_follows (kept : Kept shared) (bounded : id < shared.tickets)
    (complete : AUTH_TERMINATION_STEPS.Sublist (performed id shared.log)) : Follows id shared (shared.record (.committed id)) := by
  refine ⟨⟨kept.ordered.committed complete, ?_, ?_, ?_⟩, List.prefix_append _ _, fun _ => names_record _, rfl⟩
  · exact fun name member => kept.bound bounded (names_record _ member)
  · exact fun other stored ends => (kept.journal other stored ends).mono _
  · intro other stored fresh
    obtain ⟨turn, later⟩ := kept.current other stored fresh
    refine ⟨?_, fun ends login member => ?_⟩
    · unfold MayAct at turn ⊢
      rwa [Shared.record, effectIds_committed]
    · obtain old | new := List.mem_append.mp member
      · exact later ends login old
      · cases List.mem_singleton.mp new

theorem Follows.trans {middle after : Shared} (first : Follows id shared middle) (last : Follows id middle after) :
    Follows id shared after := by
  refine ⟨last.kept, first.log.trans last.log, fun name member => ?_, last.tickets.trans first.tickets⟩
  obtain own | old := last.named name member
  · exact .inl own
  · exact first.named name old

theorem Ending.write (ending : Ending shared journal) {written : AuthLifecycleJournal}
    (same : written.transactionId = journal.transactionId) : Ending (shared.write written move) journal :=
  ⟨ending.acting.write same, ending.termination, (write_log written).symm ▸ ending.progress⟩

structure Moves (shared : Shared) (transaction : Transaction) (result : Shared × Transaction) : Prop where
  follows : Follows transaction.journal.transactionId shared result.1
  head : Head result.1 result.2
  same : result.2.journal.transactionId = transaction.journal.transactionId

variable {remote existing : Bool}

theorem afterCheckpoint_head (ending : Ending shared journal) : Head shared ⟨journal, existing, afterCheckpoint remote journal⟩ := by
  unfold afterCheckpoint
  split
  next step found => exact ⟨ending, found⟩
  next past =>
    have complete : AUTH_TERMINATION_STEPS.Sublist (performed journal.transactionId shared.log) := by
      have progress := ending.progress
      rwa [Progress, List.take_of_length_le (List.getElem?_eq_none_iff.mp past)] at progress
    split
    · exact ⟨ending, complete⟩
    · exact ⟨ending, complete⟩

theorem begin_moves (kept : Kept shared) (bounded : journal.transactionId < shared.tickets)
    (head : Head shared ⟨journal, existing, .queued⟩) :
    Moves shared ⟨journal, existing, .queued⟩ (advanceTransaction remote shared ⟨journal, existing, .queued⟩ move) := by
  have termination (ends : journal.operation ≠ .login) :
      Head shared ⟨journal, existing, if existing then afterCheckpoint remote journal else .writing⟩ := by
    obtain ⟨fresh, waiting⟩ | ⟨known, ending⟩ := head
    · rw [show existing = false from fresh]
      exact ⟨waiting, ends⟩
    · rw [show existing = true from known]
      exact afterCheckpoint_head ending
  simp only [advanceTransaction, begin]
  split
  next login =>
    obtain ⟨_, waiting⟩ | ⟨_, ending⟩ := head
    · obtain ⟨follows, acting⟩ := started_follows kept waiting login bounded
      refine ⟨follows, ?_, rfl⟩
      dsimp only
      split
      · exact ⟨acting, login⟩
      · exact ⟨acting, login⟩
    · exact absurd login ending.termination
  next logout => exact ⟨.refl kept _, termination fun login => (by rw [login] at logout; cases logout), rfl⟩
  next delete => exact ⟨.refl kept _, termination fun login => (by rw [login] at delete; cases delete), rfl⟩

theorem writing_moves (kept : Kept shared) (bounded : journal.transactionId < shared.tickets)
    (waiting : Waiting shared journal) (ends : journal.operation ≠ .login) :
    Moves shared ⟨journal, existing, .writing⟩ (advanceTransaction remote shared ⟨journal, existing, .writing⟩ move) := by
  have none : Progress journal shared.log := by
    rw [Progress, waiting.first]
    exact List.nil_sublist _
  have follows : Follows journal.transactionId shared (shared.write journal move) :=
    write_follows kept waiting.turn (fun _ => waiting.begins) bounded fun _ => none
  cases move with
  | done =>
    refine ⟨follows, afterCheckpoint_head ⟨⟨waiting.turn, fun _ => waiting.begins, .inr ?_⟩, ends, none⟩, rfl⟩
    rintro other ⟨⟩
    rfl
  | failed => exact ⟨follows, trivial, rfl⟩

theorem performing_moves {step : AuthTerminationStep} (kept : Kept shared) (bounded : journal.transactionId < shared.tickets)
    (ending : Ending shared journal) (found : AUTH_TERMINATION_STEPS[journal.checkpoint]? = some step) :
    Moves shared ⟨journal, existing, .performing step⟩
      (advanceTransaction remote shared ⟨journal, existing, .performing step⟩ move) := by
  obtain ⟨follows, acting⟩ := perform_follows (.termination step) move kept ending.acting bounded (fun _ => ending.termination)
    (fun wrong => by cases wrong)
  have more : (AUTH_TERMINATION_STEPS.take (journal.checkpoint + 1)).Sublist
      (performed journal.transactionId (shared.log ++ [.effect journal.transactionId (.termination step) true])) := by
    rw [performed_step, List.take_add_one, found]
    exact List.Sublist.append_right ending.progress [step]
  cases move with
  | done => exact ⟨follows, ⟨⟨acting, ending.termination, ending.progress.mono _⟩, more⟩, rfl⟩
  | failed => exact ⟨follows, ⟨acting, ending.termination, ending.progress.mono _⟩, rfl⟩

theorem checkpointing_moves {step : AuthTerminationStep} (kept : Kept shared) (bounded : journal.transactionId < shared.tickets)
    (ending : Ending shared journal)
    (more : (AUTH_TERMINATION_STEPS.take (journal.checkpoint + 1)).Sublist (performed journal.transactionId shared.log)) :
    Moves shared ⟨journal, existing, .checkpointing step⟩
      (advanceTransaction remote shared ⟨journal, existing, .checkpointing step⟩ move) := by
  have next : Ending shared (checkpointed journal (journal.checkpoint + 1)) :=
    ⟨⟨ending.acting.turn, ending.acting.later, ending.acting.own⟩, ending.termination, more⟩
  have follows : Follows journal.transactionId shared (shared.write (checkpointed journal (journal.checkpoint + 1)) move) :=
    write_follows kept next.acting.turn next.acting.later bounded fun _ => more
  cases move with
  | done =>
    have still : Ending (shared.write (checkpointed journal (journal.checkpoint + 1)) .done)
      (checkpointed journal (journal.checkpoint + 1)) := next.write rfl
    exact ⟨follows, afterCheckpoint_head still, rfl⟩
  | failed => exact ⟨follows, ending.write rfl, rfl⟩

theorem deletingRemote_moves (kept : Kept shared) (bounded : journal.transactionId < shared.tickets) (ending : Ending shared journal)
    (complete : AUTH_TERMINATION_STEPS.Sublist (performed journal.transactionId shared.log)) :
    Moves shared ⟨journal, existing, .deletingRemote⟩
      (advanceTransaction remote shared ⟨journal, existing, .deletingRemote⟩ move) := by
  obtain ⟨follows, acting⟩ : Follows journal.transactionId shared (shared.perform journal.transactionId .deleteRemoteAccount move) ∧
      Acting (shared.perform journal.transactionId .deleteRemoteAccount move) journal :=
    perform_follows .deleteRemoteAccount move kept ending.acting bounded (fun _ => ending.termination) fun _ => complete
  have still : Ending (shared.perform journal.transactionId .deleteRemoteAccount move) journal :=
    ⟨acting, ending.termination, ending.progress.mono _⟩
  cases move with
  | done => exact ⟨follows, ⟨still, complete.trans (performed_mono _ _)⟩, rfl⟩
  | failed => exact ⟨follows, still, rfl⟩

theorem committing_moves (kept : Kept shared) (bounded : journal.transactionId < shared.tickets) (ending : Ending shared journal)
    (complete : AUTH_TERMINATION_STEPS.Sublist (performed journal.transactionId shared.log)) :
    Moves shared ⟨journal, existing, .committing⟩ (advanceTransaction remote shared ⟨journal, existing, .committing⟩ move) := by
  let next := { journal with status := AuthLifecycleStatus.committed }
  have written : Follows next.transactionId shared (shared.write next move) :=
    write_follows kept ending.acting.turn ending.acting.later bounded fun _ => ending.progress
  have both := written.trans (committed_follows written.kept (written.tickets ▸ bounded) ((write_log _).symm ▸ complete))
  cases move with
  | done => exact ⟨both, trivial, rfl⟩
  | failed applied message =>
    cases applied with
    | true => exact ⟨both, trivial, rfl⟩
    | false => exact ⟨.refl kept _, trivial, rfl⟩

theorem failing_moves (failure : Failure) (kept : Kept shared) (bounded : journal.transactionId < shared.tickets)
    (ending : Ending shared journal) :
    Moves shared ⟨journal, existing, .failing failure⟩
      (advanceTransaction remote shared ⟨journal, existing, .failing failure⟩ move) := by
  have turn : MayAct (failedJournal journal failure).transactionId shared.log := ending.acting.turn
  exact ⟨write_follows kept turn ending.acting.later bounded fun _ => ending.progress, trivial, rfl⟩

theorem login_perform (effect : AuthEffect) (move : Move) (kept : Kept shared) (bounded : journal.transactionId < shared.tickets)
    (acting : Acting shared journal) (login : journal.operation = .login) (harmless : terminates effect = false) :
    Follows journal.transactionId shared (shared.perform journal.transactionId effect move) ∧
      Acting (shared.perform journal.transactionId effect move) journal ∧ journal.operation = .login := by
  obtain ⟨follows, still⟩ := perform_follows effect move kept acting bounded
    (fun ends => by rw [harmless] at ends; cases ends) (fun same => by rw [same] at harmless; cases harmless)
  exact ⟨follows, still, login⟩

theorem login_write (written : AuthLifecycleJournal) (move : Move) (kept : Kept shared)
    (bounded : journal.transactionId < shared.tickets) (acting : Acting shared journal) (same : written.transactionId = journal.transactionId)
    (login : written.operation = .login) :
    Follows journal.transactionId shared (shared.write written move) ∧ Acting (shared.write written move) written ∧
      written.operation = .login := by
  have turn : MayAct written.transactionId shared.log := same ▸ acting.turn
  have follows : Follows written.transactionId shared (shared.write written move) :=
    write_follows kept turn (absurd login) (same ▸ bounded) (absurd login)
  have own : Acting shared written := ⟨turn, absurd login, by rw [same]; exact acting.own⟩
  exact ⟨same ▸ follows, own.write rfl, login⟩

theorem advanceTransaction_moves (remote : Bool) (move : Move) (kept : Kept shared)
    (bounded : transaction.journal.transactionId < shared.tickets) (head : Head shared transaction) :
    Moves shared transaction (advanceTransaction remote shared transaction move) := by
  obtain ⟨journal, existing, stage⟩ := transaction
  cases stage with
  | queued => exact begin_moves kept bounded head
  | writing => exact writing_moves kept bounded head.1 head.2
  | performing => exact performing_moves kept bounded head.1 head.2
  | checkpointing => exact checkpointing_moves kept bounded head.1 head.2
  | deletingRemote => exact deletingRemote_moves kept bounded head.1 head.2
  | failing failure => exact failing_moves failure kept bounded head
  | committing => exact committing_moves kept bounded head.1 head.2
  | clearing => exact ⟨clear_follows move kept _, trivial, rfl⟩
  | settled => exact ⟨.refl kept _, trivial, rfl⟩
  | refusing =>
    obtain ⟨follows, still⟩ := login_perform .fenceUntilCommit move kept bounded head.1 head.2 rfl
    cases move with
    | done => exact ⟨follows, still, rfl⟩
    | failed => exact ⟨follows, trivial, rfl⟩
  | refused => exact ⟨(login_perform .failClosed move kept bounded head.1 head.2 rfl).1, trivial, rfl⟩
  | fencing =>
    obtain ⟨follows, still⟩ := login_perform .fenceUntilCommit move kept bounded head.1 head.2 rfl
    cases move with
    | done => exact ⟨follows, still, rfl⟩
    | failed => exact ⟨follows, still, rfl⟩
  | recording =>
    obtain ⟨follows, still⟩ := login_write journal move kept bounded head.1 rfl head.2
    cases move with
    | done => exact ⟨follows, still, rfl⟩
    | failed => exact ⟨follows, still, rfl⟩
  | persisting =>
    obtain ⟨follows, still⟩ := login_perform .persistTokenAndBinding move kept bounded head.1 head.2 rfl
    cases move with
    | done => exact ⟨follows, still, rfl⟩
    | failed => exact ⟨follows, still, rfl⟩
  | savingFirst =>
    obtain ⟨follows, still⟩ := login_write (checkpointed journal 1) move kept bounded head.1 rfl head.2
    cases move with
    | done => exact ⟨follows, still, rfl⟩
    | failed => exact ⟨follows, ⟨head.1.write rfl, head.2⟩, rfl⟩
  | installing =>
    obtain ⟨follows, still⟩ := login_perform .installAuthenticatedState move kept bounded head.1 head.2 rfl
    cases move with
    | done => exact ⟨follows, still, rfl⟩
    | failed => exact ⟨follows, still, rfl⟩
  | savingSecond =>
    obtain ⟨follows, still⟩ := login_write (checkpointed journal 2) move kept bounded head.1 rfl head.2
    cases move with
    | done => exact ⟨follows, still, rfl⟩
    | failed => exact ⟨follows, ⟨head.1.write rfl, head.2⟩, rfl⟩
  | committingLogin =>
    obtain ⟨follows, still⟩ := login_write { journal with status := .committed, checkpoint := 3 } move kept bounded head.1 rfl head.2
    cases move with
    | done => exact ⟨follows, still, rfl⟩
    | failed => exact ⟨follows, still, rfl⟩
  | connecting =>
    obtain ⟨follows, still⟩ := login_perform .commitConnections move kept bounded head.1 head.2 rfl
    cases move with
    | done => exact ⟨follows, still, rfl⟩
    | failed => exact ⟨follows, still, rfl⟩
  | clearingLogin =>
    have follows := clear_follows move kept journal.transactionId
    cases move with
    | done => exact ⟨follows, trivial, rfl⟩
    | failed => exact ⟨follows, ⟨(Quiet.clear shared _).acting head.1, head.2⟩, rfl⟩
  | failClosing =>
    obtain ⟨follows, still⟩ := login_perform .failClosed move kept bounded head.1 head.2 rfl
    cases move with
    | done => exact ⟨follows, still, rfl⟩
    | failed => exact ⟨follows, trivial, rfl⟩
  | writingFailed message =>
    exact ⟨(login_write (failedJournal journal ⟨"login", message⟩) move kept bounded head.1 rfl head.2).1, trivial, rfl⟩

/-- The first transaction acts, and those behind it were called later, in their order. -/
structure Valid (shared : Shared) : Prop where
  kept : Kept shared
  head : ∀ transaction ∈ shared.queue.head?, Head shared transaction
  waiting : ∀ transaction ∈ shared.queue.tail,
    transaction.stage = .queued ∧ transaction.existing = false ∧ Waiting shared transaction.journal
  ascending : shared.queue.Pairwise fun first second => first.journal.transactionId < second.journal.transactionId
  bounded : ∀ transaction ∈ shared.queue, transaction.journal.transactionId < shared.tickets

theorem Kept.valid (kept : Kept shared) (none : shared.queue = []) : Valid shared where
  kept := kept
  head transaction first := by
    rw [none, List.head?_nil] at first
    cases first
  waiting transaction member := by
    rw [none] at member
    cases member
  ascending := none ▸ .nil
  bounded transaction member := by
    rw [none] at member
    cases member

theorem ordered_nil : Ordered [] where
  apart first middle last id same := by simp [effectIds] at same
  complete before id rest same := by simp at same
  remote before id ok rest same := by simp at same
  later before id effect ok rest same := by simp at same

theorem kept_empty : Kept .empty where
  ordered := ordered_nil
  named name member := by simp [names, Shared.empty] at member
  journal journal stored := by cases stored
  current journal stored := by cases stored

theorem Valid.proceed (valid : Valid shared) : Valid (proceed remote shared move) := by
  unfold AuthLifecycle.proceed
  split
  · exact valid
  next head rest queued =>
    have first : Head shared head := valid.head head (by rw [queued]; rfl)
    have waiting : ∀ transaction ∈ rest,
        transaction.stage = .queued ∧ transaction.existing = false ∧ Waiting shared transaction.journal := by
      intro transaction member
      exact valid.waiting transaction (by rw [queued]; exact member)
    have ascending := valid.ascending
    rw [queued, List.pairwise_cons] at ascending
    have bounded : ∀ transaction ∈ head :: rest, transaction.journal.transactionId < shared.tickets := queued ▸ valid.bounded
    split
    next ended =>
      have quiet : Quiet shared { shared with queue := rest } := ⟨rfl, fun _ => id, rfl, Nat.le_refl _⟩
      refine ⟨quiet.kept valid.kept, ?_, ?_, ascending.2, fun transaction member => bounded transaction (.tail _ member)⟩
      · intro transaction next
        obtain ⟨stage, fresh, waits⟩ := waiting transaction (List.mem_of_mem_head? next)
        unfold Head
        rw [stage]
        exact .inl ⟨fresh, quiet.waiting waits⟩
      · intro transaction member
        obtain ⟨stage, fresh, waits⟩ := waiting transaction (List.mem_of_mem_tail member)
        exact ⟨stage, fresh, quiet.waiting waits⟩
    next =>
      obtain ⟨follows, moved, same⟩ := advanceTransaction_moves remote move valid.kept (bounded head List.mem_cons_self) first
      generalize advanceTransaction remote shared head move = result at follows moved same
      obtain ⟨after, next⟩ := result
      have quiet : Quiet after { after with queue := next :: rest } := ⟨rfl, fun _ => id, rfl, Nat.le_refl _⟩
      refine ⟨quiet.kept follows.kept, ?_, ?_, ?_, ?_⟩
      · rintro transaction ⟨⟩
        exact quiet.head moved
      · intro transaction member
        obtain ⟨stage, fresh, waits⟩ := waiting transaction member
        refine ⟨stage, fresh, waits.first, fun name named => ?_⟩
        obtain rfl | old := follows.named name (quiet.names named)
        · exact ascending.1 transaction member
        · exact waits.later name old
      · refine .cons (fun transaction member => ?_) ascending.2
        rw [same]
        exact ascending.1 transaction member
      · intro transaction member
        rw [follows.tickets]
        obtain rfl | member := List.mem_cons.mp member
        · rw [same]
          exact bounded head List.mem_cons_self
        · exact bounded transaction (.tail _ member)

theorem Valid.serialize (valid : Valid shared) (operation : AuthLifecycleOperation) (binding : Option AuthSessionBinding) :
    Valid (serialize shared operation binding) := by
  unfold AuthLifecycle.serialize
  split
  · exact valid
  next =>
    let new : Transaction := ⟨newJournal shared.tickets operation binding, false, .queued⟩
    let after : Shared := { shared with queue := shared.queue ++ [new], tickets := shared.tickets + 1 }
    have quiet : Quiet shared after := ⟨rfl, fun _ => id, rfl, Nat.le_succ _⟩
    have waits : Waiting after new.journal := ⟨rfl, fun name member => valid.kept.named name (quiet.names member)⟩
    change Valid after
    refine ⟨quiet.kept valid.kept, ?_, ?_, ?_, ?_⟩
    · intro transaction first
      obtain old | new : transaction ∈ shared.queue.head? ∨ transaction = new := by
        change transaction ∈ (shared.queue ++ [new]).head? at first
        cases same : shared.queue with
        | nil =>
          rw [same] at first
          exact .inr (Option.some.inj first).symm
        | cons head rest =>
          rw [same] at first
          exact .inl first
      · exact quiet.head (valid.head transaction old)
      · rw [new]
        exact .inl ⟨rfl, waits⟩
    · intro transaction member
      obtain old | new : transaction ∈ shared.queue.tail ∨ transaction = new := by
        change transaction ∈ (shared.queue ++ [new]).tail at member
        cases same : shared.queue with
        | nil =>
          rw [same] at member
          cases member
        | cons head rest =>
          rw [same, List.cons_append, List.tail_cons, List.mem_append, List.mem_singleton] at member
          exact member
      · obtain ⟨stage, fresh, waits⟩ := valid.waiting transaction old
        exact ⟨stage, fresh, quiet.waiting waits⟩
      · rw [new]
        exact ⟨rfl, rfl, waits⟩
    · refine List.pairwise_append.mpr ⟨valid.ascending, List.pairwise_singleton _ _, fun first member second last => ?_⟩
      rw [List.mem_singleton.mp last]
      exact valid.bounded first member
    · intro transaction member
      obtain old | last := List.mem_append.mp member
      · exact Nat.lt_succ_of_lt (valid.bounded transaction old)
      · rw [List.mem_singleton.mp last]
        exact Nat.lt_succ_self _

theorem Kept.acting (kept : Kept shared) (stored : shared.journal = some journal) (fresh : shared.stale = false) :
    Acting shared journal := by
  obtain ⟨turn, later⟩ := kept.current journal stored fresh
  refine ⟨turn, later, .inr fun other same => ?_⟩
  rw [Option.some.inj (stored.symm.trans same)]

theorem Kept.stored (kept : Kept shared) (stored : shared.journal = some journal) : journal.transactionId < shared.tickets :=
  kept.named _ (mem_names.mpr (.inr ⟨journal, stored, rfl⟩))

theorem Valid.recover (valid : Valid shared) (ends : journal.operation ≠ .login)
    (current : coalesces shared journal.operation = false →
      shared.queue = [] ∧ shared.journal = some journal ∧ shared.stale = false) : Valid (recover shared journal) := by
  unfold AuthLifecycle.recover
  split
  · exact valid
  next alone =>
    obtain ⟨none, stored, fresh⟩ := current (Bool.eq_false_iff.mpr alone)
    rw [none, List.nil_append]
    have quiet : Quiet shared { shared with queue := [⟨journal, true, .queued⟩] } := ⟨rfl, fun _ => id, rfl, Nat.le_refl _⟩
    refine ⟨quiet.kept valid.kept, ?_, ?_, List.pairwise_singleton _ _, ?_⟩
    · rintro transaction ⟨⟩
      have acting := valid.kept.acting stored fresh
      exact .inr ⟨rfl, quiet.ending ⟨acting, ends, valid.kept.journal journal stored ends⟩⟩
    · intro transaction member
      cases member
    · intro transaction member
      rw [List.mem_singleton.mp member]
      exact valid.kept.stored stored

theorem Valid.outside (valid : Valid shared) {effect : AuthEffect} (harmless : terminates effect = false)
    (current : shared.queue = [] ∧ shared.journal = some journal ∧ shared.stale = false) :
    Valid (shared.perform journal.transactionId effect move) := by
  obtain ⟨none, stored, fresh⟩ := current
  obtain ⟨follows, _⟩ := perform_follows effect move valid.kept (valid.kept.acting stored fresh) (valid.kept.stored stored)
    (fun ends => by rw [harmless] at ends; cases ends) (fun same => by rw [same] at harmless; cases harmless)
  exact follows.kept.valid none

theorem Valid.clear (valid : Valid shared) : Valid (shared.clear move) := by
  have quiet := Quiet.clear shared move
  have same : (shared.clear move).queue = shared.queue := by
    unfold Shared.clear
    split <;> rfl
  refine ⟨quiet.kept valid.kept, ?_, ?_, same.symm ▸ valid.ascending, ?_⟩
  · rw [same]
    exact fun transaction first => quiet.head (valid.head transaction first)
  · rw [same]
    intro transaction member
    obtain ⟨stage, fresh, waits⟩ := valid.waiting transaction member
    exact ⟨stage, fresh, quiet.waiting waits⟩
  · rw [same, clear_tickets]
    exact valid.bounded

theorem Valid.restart (valid : Valid shared) : Valid { shared with queue := [], process := shared.process + 1 } :=
  have quiet : Quiet shared { shared with queue := [], process := shared.process + 1 } := ⟨rfl, fun _ => id, rfl, Nat.le_refl _⟩
  (quiet.kept valid.kept).valid rfl

theorem Valid.perform (valid : Valid shared) {call : Call} (current : Current shared call move) :
    Valid (perform remote shared call.task move).1 := by
  obtain ⟨process, task⟩ := call
  cases task with
  | login binding => exact valid.serialize .login (some binding)
  | logout => exact valid.serialize .logout none
  | deleteAccount => exact valid.serialize .deleteAccount none
  | resume => exact valid
  | reading => exact valid
  | read journal =>
    simp only [AuthLifecycle.perform]
    cases journal with
    | none => exact valid
    | some journal =>
      simp only [afterRead]
      split
      · exact valid
      next running =>
        split
        · exact valid
        next ends => exact valid.recover ends (current running ends)
  | clearing => exact valid.clear
  | failClosedIncompleteLogin => exact valid
  | fencing => exact valid.outside rfl current
  | failClosing => exact valid.outside rfl current
  | proceed => exact valid.proceed
  | restart => exact valid.restart

theorem relies (remote : Bool) : Relies Valid (fun _ _ => True) (fun _ _ => True) (service remote Current) where
  refl _ := trivial
  trans _ _ := trivial
  mono _ _ := trivial
  starts _ _ := trivial
  advances {shared call move after rest} valid _ current moved := by
    refine ⟨?_, trivial, fun _ _ => trivial⟩
    simp only [service, advance] at moved
    split at moved
    · rw [← (Prod.mk.inj (Option.some.inj moved)).1]
      exact valid.perform current
    · cases moved

/-- However the calls interleave, fail and crash, if a recovery acts on a journal that is current. -/
theorem ordered_when_current (remote : Bool) {world : World Shared Call} (run : Run (service remote Current) ⟨.empty, []⟩ world) :
    Ordered world.shared.log :=
  ((relies remote).holds (kept_empty.valid rfl) run).shared.kept.ordered

instance (shared : Shared) (call : Call) : Decidable (starts shared call) :=
  match call with
  | ⟨_, .login _⟩ | ⟨_, .logout⟩ | ⟨_, .deleteAccount⟩ | ⟨_, .resume⟩ | ⟨_, .failClosedIncompleteLogin⟩ | ⟨_, .proceed⟩
    | ⟨_, .restart⟩ => inferInstanceAs (Decidable (_ ∧ True))
  | ⟨_, .reading⟩ | ⟨_, .read _⟩ | ⟨_, .clearing⟩ | ⟨_, .fencing _⟩ | ⟨_, .failClosing _⟩ =>
    inferInstanceAs (Decidable (_ ∧ False))

instance (shared : Shared) (call : Call) (move : Move) : Decidable (Current shared call move) :=
  match call with
  | ⟨_, .read (some _)⟩ => inferInstanceAs (Decidable (_ → _ → _ → _))
  | ⟨_, .fencing _⟩ | ⟨_, .failClosing _⟩ => inferInstanceAs (Decidable (_ ∧ _ ∧ _))
  | ⟨_, .read none⟩ | ⟨_, .login _⟩ | ⟨_, .logout⟩ | ⟨_, .deleteAccount⟩ | ⟨_, .resume⟩ | ⟨_, .failClosedIncompleteLogin⟩
    | ⟨_, .proceed⟩ | ⟨_, .restart⟩ | ⟨_, .reading⟩ | ⟨_, .clearing⟩ => isTrue trivial

def anyhow (remote : Bool) : System Shared Call Move := service remote fun _ _ _ => True

def current (remote : Bool) : System Shared Call Move := service remote Current

instance (remote : Bool) (shared : Shared) (call : Call) : Decidable ((anyhow remote).starts shared call) :=
  inferInstanceAs (Decidable (starts shared call))

instance (remote : Bool) (shared : Shared) (call : Call) (move : Move) : Decidable ((anyhow remote).permits shared call move) :=
  isTrue trivial

instance (remote : Bool) (shared : Shared) (call : Call) : Decidable ((current remote).starts shared call) :=
  inferInstanceAs (Decidable (starts shared call))

instance (remote : Bool) (shared : Shared) (call : Call) (move : Move) : Decidable ((current remote).permits shared call move) :=
  inferInstanceAs (Decidable (Current shared call move))

def proceeding (index times : Nat) : List (Turn Call Move) := List.replicate times (.advance index .done)

/-- A logout has performed one step when the process dies, and its journal is read by the next one. -/
def interrupted : List (Turn Call Move) :=
  [.start ⟨0, .proceed⟩, .start ⟨0, .logout⟩, .advance 1 .done] ++ proceeding 0 3 ++
    [.start ⟨0, .restart⟩, .advance 2 .done, .start ⟨1, .resume⟩, .advance 3 .done, .advance 3 .done, .start ⟨1, .proceed⟩]

def signedIn : List (Turn Call Move) := [.start ⟨1, .login ⟨1, 1⟩⟩, .advance 5 .done] ++ proceeding 4 11

def replayedFirst : Option (World Shared Call) :=
  World.play (current true) ⟨.empty, []⟩ (interrupted ++ [.advance 3 .done] ++ proceeding 4 16 ++ signedIn)

theorem ordered_after_replay : ∃ world : World Shared Call, Run (current true) ⟨.empty, []⟩ world ∧
    .committed 0 ∈ world.shared.log ∧ .started 1 ∈ world.shared.log ∧ Ordered world.shared.log := by
  obtain ⟨world, played⟩ : ∃ world, replayedFirst = some world := ⟨_, rfl⟩
  have run : Run (current true) ⟨.empty, []⟩ world := World.run_of_play _ played
  refine ⟨world, run, ?_, ?_, ordered_when_current true run⟩
  all_goals
    cases played
    decide

def replayedLate : Option (World Shared Call) :=
  World.play (anyhow false) ⟨.empty, []⟩ (interrupted ++ signedIn ++ [.advance 3 .done] ++ proceeding 4 12)

/-- The replay deletes the token of the login. -/
theorem login_hit : ¬ ∀ (remote : Bool) (world : World Shared Call),
    Run (anyhow remote) ⟨.empty, []⟩ world → Ordered world.shared.log := by
  intro ordered
  obtain ⟨world, played⟩ : ∃ world, replayedLate = some world := ⟨_, rfl⟩
  have logged : world.shared.log = [.effect 0 (.termination .fenceGeneration) true, .started 1, .effect 1 .fenceUntilCommit true,
      .effect 1 .persistTokenAndBinding true, .effect 1 .installAuthenticatedState true, .effect 1 .commitConnections true,
      .effect 0 (.termination .fenceGeneration) true, .effect 0 (.termination .disconnectWs) true,
      .effect 0 (.termination .stopQueue) true, .effect 0 (.termination .clearCursorEpoch) true,
      .effect 0 (.termination .clearCache) true] ++ [.effect 0 (.termination .deleteToken) true] := by
    cases played
    rfl
  have later := (ordered false world (World.run_of_play _ played)).later _ 0 _ true [] logged rfl
  exact absurd (later 1 (by decide)) (by decide)

end AgentSaas.Proofs.AuthLifecycle
