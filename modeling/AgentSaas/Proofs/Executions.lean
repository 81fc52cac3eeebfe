import AgentSaas.AppServer.Executions
import AgentSaas.Proofs.InterleavingSafety

/-! When a logical call has one outcome. The write that records it may fail after it has been
committed, and the failure is then recorded over what the handler has done. -/

namespace AgentSaas.Proofs.Executions
open AgentSaas.AppServer AgentSaas.AppServer.Executions Interleaving InterleavingSafety Tables

variable {surroundings : Surroundings} {kind : StoreKind} {row next : ExecutionRecord} {history : History}
  {shared after : Shared} {execution : Execution} {key : ExecutionKey}

/-- Once the handler has been called, no terminal write throws that has been committed. -/
def Careful (_ : Shared) (call : Call) (move : Move) : Prop :=
  match call, move with
  | .savingDone .., .fail true _ | .savingFailure _ _ _ true, .fail true _ => False
  | _, _ => True

def Finished (row : ExecutionRecord) : Prop := row.status = .done ∨ row.status = .failed

def reported : Response → ExecutionQueryResponse
  | .ok data => .done data
  | .error failure => .failed failure.code (some failure.message)

/-- The handler runs once, answers from finished records are what its call returned or threw, and
other inputs are refused. -/
structure OneOutcome (history : History) : Prop where
  once : history.handled.length ≤ 1
  replayed : ∀ answer ∈ history.answers, ∀ inputHash ∈ history.handled, ∀ response ∈ history.outcomes,
    Finished answer.read → answer.inputHash = inputHash → answer.response = response
  refused : ∀ answer ∈ history.answers, ∀ inputHash ∈ history.handled, answer.inputHash ≠ inputHash →
    answer.response = .error otherInput
  queried : ∀ query ∈ history.queries, ∀ read, query.read = some read → Finished read →
    ∀ response ∈ history.outcomes, query.response = .ok (reported response)

/-! One key: its record, and what has been done under it. -/

def Recorded (row : ExecutionRecord) (response : Response) : Prop :=
  (row.status = .done → response = .ok row.result) ∧
    (row.status = .failed → ∃ failure, response = .error failure ∧ row.error = some failure)

def Seen (row read : ExecutionRecord) : Prop := row.inputHash = read.inputHash ∧ (Finished read → row.status ≠ .inProgress)

structure Blank (history : History) : Prop where
  handled : history.handled = []
  outcomes : history.outcomes = []
  answers : history.answers = []
  queries : ∀ query ∈ history.queries, query.read = none

structure Kept (row : ExecutionRecord) (history : History) : Prop where
  one : OneOutcome history
  handled : ∀ inputHash ∈ history.handled, row.inputHash = inputHash
  outcomes : ∀ response ∈ history.outcomes, Recorded row response
  answers : ∀ answer ∈ history.answers, answer.response = replay answer.read answer.inputHash ∧ Seen row answer.read
  queries : ∀ query ∈ history.queries, ∀ read, query.read = some read →
    query.response = .ok (queryResponse read) ∧ Seen row read

def Fits : Option ExecutionRecord → History → Prop
  | none, history => Blank history
  | some row, history => Kept row history

theorem replay_other {inputHash : String} (other : row.inputHash ≠ inputHash) : replay row inputHash = .error otherInput :=
  if_pos other

theorem replay_recorded {response : Response} (recorded : Recorded row response) (finished : Finished row) :
    replay row row.inputHash = response := by
  unfold replay
  rw [if_neg (not_not_intro rfl)]
  obtain done | failed := finished
  · rw [done, recorded.1 done]
  · obtain ⟨failure, rfl, same⟩ := recorded.2 failed
    rw [failed, same]
    rfl

theorem queryResponse_recorded {response : Response} (recorded : Recorded row response) (finished : Finished row) :
    queryResponse row = reported response := by
  unfold queryResponse
  obtain done | failed := finished
  · rw [done, recorded.1 done]
    rfl
  · obtain ⟨failure, rfl, same⟩ := recorded.2 failed
    rw [failed, same]
    rfl

theorem Seen.self (row : ExecutionRecord) : Seen row row := by
  refine ⟨rfl, fun finished working => ?_⟩
  obtain done | failed := finished
  · rw [done] at working
    cases working
  · rw [failed] at working
    cases working

theorem Blank.kept (blank : Blank history) (row : ExecutionRecord) : Kept row history := by
  have unread : ∀ query ∈ history.queries, ∀ read, query.read ≠ some read := by
    intro query member read same
    rw [blank.queries query member] at same
    cases same
  refine ⟨⟨?_, ?_, ?_, ?_⟩, ?_, ?_, ?_, ?_⟩
  · rw [blank.handled]
    exact Nat.zero_le 1
  · intro answer member
    rw [blank.answers] at member
    cases member
  · intro answer member
    rw [blank.answers] at member
    cases member
  · exact fun query member read same => absurd same (unread query member read)
  · intro inputHash member
    rw [blank.handled] at member
    cases member
  · intro response member
    rw [blank.outcomes] at member
    cases member
  · intro answer member
    rw [blank.answers] at member
    cases member
  · exact fun query member read same => absurd same (unread query member read)

namespace Kept

theorem handle (kept : Kept row history) (fresh : history.handled = []) (none : history.outcomes = []) :
    Kept row { history with handled := history.handled ++ [row.inputHash] } := by
  have only : ∀ inputHash ∈ history.handled ++ [row.inputHash], row.inputHash = inputHash := by
    intro inputHash member
    rw [fresh] at member
    exact (List.mem_singleton.mp member).symm
  have silent : ∀ response, response ∉ history.outcomes := by
    intro response member
    rw [none] at member
    cases member
  refine ⟨⟨?_, ?_, ?_, ?_⟩, only, kept.outcomes, kept.answers, kept.queries⟩
  · rw [fresh]
    exact Nat.le_refl 1
  · exact fun _ _ _ _ response member => absurd member (silent response)
  · intro answer member inputHash handled other
    obtain ⟨response, same, _⟩ := kept.answers answer member
    rw [response]
    exact replay_other fun equal => other (equal.symm.trans (same.symm.trans (only inputHash handled)))
  · exact fun _ _ _ _ _ response member => absurd member (silent response)

theorem finish (kept : Kept row history) (working : row.status = .inProgress) (same : next.inputHash = row.inputHash)
    (none : history.outcomes = []) : Kept next history := by
  have seen {read : ExecutionRecord} (before : Seen row read) : Seen next read :=
    ⟨same.trans before.1, fun finished => absurd working (before.2 finished)⟩
  refine ⟨kept.one, fun inputHash member => same.trans (kept.handled inputHash member), ?_, ?_, ?_⟩
  · intro response member
    rw [none] at member
    cases member
  · exact fun answer member => ⟨(kept.answers answer member).1, seen (kept.answers answer member).2⟩
  · intro query member read found
    obtain ⟨response, before⟩ := kept.queries query member read found
    exact ⟨response, seen before⟩

/-- The call that ran the handler returns or throws, when its record has been in progress so far. -/
theorem conclude {response : Response} (kept : Kept row history) (working : row.status = .inProgress)
    (same : next.inputHash = row.inputHash) (none : history.outcomes = []) (recorded : Recorded next response) :
    Kept next { history with outcomes := history.outcomes ++ [response] } := by
  have finished := kept.finish working same none
  refine ⟨⟨kept.one.once, ?_, kept.one.refused, ?_⟩, finished.handled, ?_, finished.answers, finished.queries⟩
  · intro answer member _ _ _ _ done
    exact absurd working ((kept.answers answer member).2.2 done)
  · intro query member read found done
    exact absurd working ((kept.queries query member read found).2.2 done)
  · intro other member
    rw [none] at member
    rw [List.mem_singleton.mp member]
    exact recorded

theorem answer (kept : Kept row history) (inputHash : String) :
    Kept row { history with answers := history.answers ++ [⟨inputHash, row, replay row inputHash⟩] } := by
  refine ⟨⟨kept.one.once, ?_, ?_, kept.one.queried⟩, kept.handled, kept.outcomes, ?_, kept.queries⟩
  · intro answer member handled ran response outcome finished same
    obtain old | new := List.mem_append.mp member
    · exact kept.one.replayed answer old handled ran response outcome finished same
    · rw [List.mem_singleton.mp new] at finished same ⊢
      change inputHash = handled at same
      change replay row inputHash = response
      rw [same, ← kept.handled handled ran]
      exact replay_recorded (kept.outcomes response outcome) finished
  · intro answer member handled ran other
    obtain old | new := List.mem_append.mp member
    · exact kept.one.refused answer old handled ran other
    · rw [List.mem_singleton.mp new] at other ⊢
      exact replay_other fun same => other (same.symm.trans (kept.handled handled ran))
  · intro answer member
    obtain old | new := List.mem_append.mp member
    · exact kept.answers answer old
    · rw [List.mem_singleton.mp new]
      exact ⟨rfl, .self row⟩

theorem query (kept : Kept row history) :
    Kept row { history with queries := history.queries ++ [⟨some row, .ok (queryResponse row)⟩] } := by
  refine ⟨⟨kept.one.once, kept.one.replayed, kept.one.refused, ?_⟩, kept.handled, kept.outcomes, kept.answers, ?_⟩
  · intro query member read found finished response outcome
    obtain old | new := List.mem_append.mp member
    · exact kept.one.queried query old read found finished response outcome
    · rw [List.mem_singleton.mp new] at found ⊢
      cases found
      exact congrArg Except.ok (queryResponse_recorded (kept.outcomes response outcome) finished)
  · intro query member read found
    obtain old | new := List.mem_append.mp member
    · exact kept.queries query old read found
    · rw [List.mem_singleton.mp new] at found ⊢
      cases found
      exact ⟨rfl, .self row⟩

theorem expire (kept : Kept row history) (nowMs : Int) : Kept (row.expire nowMs) history := by
  refine ⟨kept.one, kept.handled, fun _ _ => ⟨fun wrong => (by cases wrong), fun wrong => (by cases wrong)⟩, ?_, ?_⟩
  · intro answer member
    obtain ⟨response, same, _⟩ := kept.answers answer member
    exact ⟨response, same, fun _ wrong => (by cases wrong)⟩
  · intro query member read found
    obtain ⟨response, same, _⟩ := kept.queries query member read found
    exact ⟨response, same, fun _ wrong => (by cases wrong)⟩

end Kept

theorem Fits.missed {record : Option ExecutionRecord} (fits : Fits record history)
    (response : Except KyAppError ExecutionQueryResponse) :
    Fits record { history with queries := history.queries ++ [⟨none, response⟩] } := by
  have unread {query : QueryAnswer} (member : query ∈ history.queries ++ [⟨none, response⟩]) :
      query ∈ history.queries ∨ query.read = none := by
    obtain old | new := List.mem_append.mp member
    · exact .inl old
    · rw [List.mem_singleton.mp new]
      exact .inr rfl
  cases record with
  | none =>
    refine ⟨fits.handled, fits.outcomes, fits.answers, fun query member => ?_⟩
    obtain old | new := unread member
    · exact fits.queries query old
    · exact new
  | some row =>
    refine ⟨⟨fits.one.once, fits.one.replayed, fits.one.refused, ?_⟩, fits.handled, fits.outcomes, fits.answers, ?_⟩
    · intro query member read found
      obtain old | new := unread member
      · exact fits.one.queried query old read found
      · rw [new] at found
        cases found
    · intro query member read found
      obtain old | new := unread member
      · exact fits.queries query old read found
      · rw [new] at found
        cases found

def Valid (shared : Shared) : Prop := ∀ key, Fits (shared.records.row key) (shared.history key)

def Owned (shared : Shared) (execution : Execution) (ran : Bool) : Prop :=
  ∃ row, shared.records.row execution.key = some row ∧ row.status = .inProgress ∧ row.inputHash = execution.inputHash ∧
    (shared.history execution.key).handled = (if ran then [execution.inputHash] else []) ∧
    (shared.history execution.key).outcomes = []

def owner : Call → Option ExecutionKey
  | .creatingContext execution | .handling execution | .savingDone execution .. | .savingFailure execution .. =>
    some execution.key
  | _ => none

def Asserted (shared : Shared) : Call → Prop
  | .beginning execution record => record.status = .inProgress ∧ record.inputHash = execution.inputHash
  | .reading execution => (shared.records.row execution.key).isSome
  | .creatingContext execution => Owned shared execution false
  | .handling execution | .savingDone execution .. => Owned shared execution true
  | .savingFailure execution _ _ ran => Owned shared execution ran
  | _ => True

def Apart (call other : Call) : Prop := ∀ key, owner call = some key → owner other ≠ some key

def Settles (row later : ExecutionRecord) : Prop :=
  later = row ∨ row.status = .inProgress ∧ later.inputHash = row.inputHash ∨
    Finished row ∧ ∃ nowMs, later = row.expire nowMs

def Grows (shared after : Shared) : Prop :=
  ∀ key row, shared.records.row key = some row → ∃ later, after.records.row key = some later ∧ Settles row later

theorem Finished.settles {later : ExecutionRecord} (finished : Finished row) (settles : Settles row later) :
    later = row ∨ ∃ nowMs, later = row.expire nowMs := by
  obtain same | ⟨working, _⟩ | ⟨_, expired⟩ := settles
  · exact .inl same
  · obtain done | failed := finished
    · rw [done] at working
      cases working
    · rw [failed] at working
      cases working
  · exact .inr expired

theorem Settles.trans {middle last : ExecutionRecord} (first : Settles row middle) (second : Settles middle last) :
    Settles row last := by
  obtain rfl | ⟨working, same⟩ | ⟨finished, nowMs, rfl⟩ := first
  · exact second
  · refine .inr (.inl ⟨working, ?_⟩)
    obtain rfl | ⟨_, also⟩ | ⟨_, nowMs, rfl⟩ := second
    · exact same
    · exact also.trans same
    · exact same
  · obtain rfl | ⟨working, _⟩ | ⟨wrong, _⟩ := second
    · exact .inr (.inr ⟨finished, nowMs, rfl⟩)
    · cases working
    · obtain done | failed := wrong
      · cases done
      · cases failed

theorem Grows.refl (shared : Shared) : Grows shared shared := fun _ row found => ⟨row, found, .inl rfl⟩

theorem Grows.trans {last : Shared} (first : Grows shared after) (second : Grows after last) : Grows shared last := by
  intro key row found
  obtain ⟨middle, found, settles⟩ := first key row found
  obtain ⟨later, found, onward⟩ := second key middle found
  exact ⟨later, found, settles.trans onward⟩

structure Only (shared after : Shared) (key : ExecutionKey) : Prop where
  rows : ∀ other, other ≠ key → after.records.row other = shared.records.row other
  histories : ∀ other, other ≠ key → after.history other = shared.history other

structure Effect (shared after : Shared) (own : Option ExecutionKey) (rest : Option Call) : Prop where
  valid : Valid after
  grows : Grows shared after
  owned : ∀ execution ran, own ≠ some execution.key → Owned shared execution ran → Owned after execution ran
  asserted : ∀ next, rest = some next → Asserted after next ∧
    ∀ key, owner next = some key → own = some key ∨ shared.records.row key = none

theorem Only.valid (only : Only shared after key) (valid : Valid shared)
    (fits : Fits (after.records.row key) (after.history key)) : Valid after := by
  intro other
  by_cases same : other = key
  · rw [same]
    exact fits
  · rw [only.rows other same, only.histories other same]
    exact valid other

theorem Only.grows (only : Only shared after key)
    (settles : ∀ row, shared.records.row key = some row → ∃ later, after.records.row key = some later ∧ Settles row later) :
    Grows shared after := by
  intro other row found
  by_cases same : other = key
  · rw [same] at found ⊢
    exact settles row found
  · rw [only.rows other same]
    exact ⟨row, found, .inl rfl⟩

theorem Only.owned (only : Only shared after key) {ran : Bool} (apart : execution.key ≠ key)
    (owned : Owned shared execution ran) : Owned after execution ran := by
  unfold Owned
  rw [only.rows _ apart, only.histories _ apart]
  exact owned

theorem Owned.mono {ran : Bool} (owned : Owned shared execution ran) (rows : after.records.row = shared.records.row)
    (handled : (after.history execution.key).handled = (shared.history execution.key).handled)
    (outcomes : (after.history execution.key).outcomes = (shared.history execution.key).outcomes) :
    Owned after execution ran := by
  unfold Owned
  rw [rows, handled, outcomes]
  exact owned

theorem Effect.still {own : Option ExecutionKey} {rest : Option Call} (valid : Valid shared)
    (rows : after.records.row = shared.records.row) (history : after.history = shared.history)
    (asserted : ∀ next, rest = some next → Asserted after next ∧
      ∀ key, owner next = some key → own = some key ∨ shared.records.row key = none) : Effect shared after own rest := by
  refine ⟨?_, ?_, fun execution ran _ owned => ?_, asserted⟩
  · intro key
    rw [rows, history]
    exact valid key
  · intro key row found
    rw [rows]
    exact ⟨row, found, .inl rfl⟩
  · exact owned.mono rows (by rw [history]) (by rw [history])

theorem Effect.ended {own : Option ExecutionKey} (valid : Valid shared) : Effect shared shared own none :=
  .still valid rfl rfl fun next wrong => (by cases wrong)

theorem Effect.goes {own : Option ExecutionKey} {next : Call} (valid : Valid shared) (asserted : Asserted shared next)
    (owns : owner next = none ∨ owner next = own) : Effect shared shared own (some next) := by
  refine .still valid rfl rfl fun other same => ?_
  cases same
  refine ⟨asserted, fun key found => .inl ?_⟩
  obtain none | same := owns
  · rw [none] at found
    cases found
  · rw [← same, found]

/-- What is added to a history, other than by the call that runs the handler. -/
theorem Effect.noted {changed : History} (valid : Valid shared) (fits : Fits (shared.records.row key) changed)
    (handled : changed.handled = (shared.history key).handled) (outcomes : changed.outcomes = (shared.history key).outcomes) :
    Effect shared (shared.setHistory key changed) none none := by
  have only : Only shared (shared.setHistory key changed) key :=
    ⟨fun _ _ => rfl, fun other apart => Function.update_of_ne apart _ _⟩
  have here : (shared.setHistory key changed).history key = changed := Function.update_self ..
  refine ⟨only.valid valid ?_, fun _ row found => ⟨row, found, .inl rfl⟩, ?_, fun next wrong => (by cases wrong)⟩
  · rw [here]
    exact fits
  · intro execution ran _ owned
    by_cases same : execution.key = key
    · apply owned.mono
      · rfl
      · rw [same, here, handled]
      · rw [same, here, outcomes]
    · exact only.owned same owned

theorem Valid.kept (valid : Valid shared) (found : shared.records.row key = some row) : Kept row (shared.history key) := by
  have fits := valid key
  rw [found] at fits
  exact fits

theorem answer_effect (inputHash : String) (valid : Valid shared) (found : shared.records.row key = some row) :
    Effect shared (shared.answer key inputHash row) none none := by
  apply Effect.noted valid
  · rw [found]
    exact (valid.kept found).answer inputHash
  · rfl
  · rfl

theorem query_effect (valid : Valid shared) (found : shared.records.row key = some row) :
    Effect shared (shared.query key (some row) (.ok (queryResponse row))) none none := by
  apply Effect.noted valid
  · rw [found]
    exact (valid.kept found).query
  · rfl
  · rfl

theorem missed_effect (response : Except KyAppError ExecutionQueryResponse) (valid : Valid shared) :
    Effect shared (shared.query key none response) none none := by
  apply Effect.noted valid
  · exact (valid key).missed response
  · rfl
  · rfl

theorem expireOverdue_effect (nowMs : Int) (valid : Valid shared) : Effect shared (shared.expireOverdue nowMs) none none := by
  have rows (key : ExecutionKey) : (shared.expireOverdue nowMs).records.row key =
      (shared.records.row key).map fun row => if row.overdue nowMs then row.expire nowMs else row := rfl
  refine ⟨fun key => ?_, fun key row found => ?_, ?_, fun next wrong => (by cases wrong)⟩
  · rw [rows]
    cases found : shared.records.row key with
    | none =>
      have fits := valid key
      rw [found] at fits
      exact fits
    | some row =>
      simp only [Option.map_some]
      split
      · exact (valid.kept found).expire nowMs
      · exact valid.kept found
  · refine ⟨if row.overdue nowMs then row.expire nowMs else row, ?_, ?_⟩
    · rw [rows, found, Option.map_some]
    · split
      next overdue =>
        simp only [ExecutionRecord.overdue, Bool.and_eq_true, Bool.or_eq_true, decide_eq_true_eq] at overdue
        exact .inr (.inr ⟨overdue.1, nowMs, rfl⟩)
      next => exact .inl rfl
  · intro execution ran _ owned
    obtain ⟨row, found, working, held⟩ := owned
    refine ⟨row, ?_, working, held⟩
    rw [rows, found, Option.map_some]
    simp [ExecutionRecord.overdue, working]

theorem begin_only (row : ExecutionRecord) : Only shared (shared.begin key row) key :=
  ⟨fun _ apart => Table.insert_row_other apart row, fun _ _ => rfl⟩

theorem begin_row (absent : shared.records.row key = none) (row : ExecutionRecord) :
    (shared.begin key row).records.row key = some row := by
  change (shared.records.insert key row).row key = some row
  rw [Table.insert_row_of_none absent, Function.update_self]

theorem Valid.blank (valid : Valid shared) (absent : shared.records.row key = none) : Blank (shared.history key) := by
  have fits := valid key
  rw [absent] at fits
  exact fits

theorem begin_effect {rest : Option Call} (valid : Valid shared) (absent : shared.records.row key = none)
    (asserted : ∀ next, rest = some next → Asserted (shared.begin key row) next ∧
      ∀ other, owner next = some other → none = some other ∨ shared.records.row other = none) :
    Effect shared (shared.begin key row) none rest := by
  have only := @begin_only shared key row
  refine ⟨only.valid valid ?_, only.grows fun other found => ?_, fun execution ran _ owned => ?_, asserted⟩
  · rw [begin_row absent]
    exact (valid.blank absent).kept row
  · rw [absent] at found
    cases found
  · apply only.owned _ owned
    rintro rfl
    obtain ⟨other, found, _⟩ := owned
    rw [absent] at found
    cases found

theorem created_asserted {now : Int} (owned : Owned shared execution false) :
    Asserted shared (created surroundings execution now) := by
  unfold created
  split
  · exact owned
  · exact owned

theorem created_owner {now : Int} (same : owner (created surroundings execution now) = some key) : execution.key = key := by
  unfold created at same
  split at same
  · exact Option.some.inj same
  · exact Option.some.inj same

theorem handle_effect (valid : Valid shared) (owned : Owned shared execution false) :
    Effect shared (shared.handle execution) (some execution.key) (some (.handling execution)) := by
  obtain ⟨row, found, working, same, fresh, none⟩ := owned
  have kept := valid.kept found
  have only : Only shared (shared.handle execution) execution.key :=
    ⟨fun _ _ => rfl, fun other apart => Function.update_of_ne apart _ _⟩
  have here : (shared.handle execution).history execution.key =
      { shared.history execution.key with handled := (shared.history execution.key).handled ++ [execution.inputHash] } :=
    Function.update_self ..
  refine ⟨only.valid valid ?_, fun _ row found => ⟨row, found, .inl rfl⟩, ?_, ?_⟩
  · rw [here, ← same]
    change Fits (shared.records.row execution.key) _
    rw [found]
    exact kept.handle fresh none
  · intro other ran apart owned
    exact only.owned (fun same => apart (congrArg some same.symm)) owned
  · intro next continues
    cases continues
    refine ⟨⟨row, found, working, same, ?_, ?_⟩, fun key same => .inl same⟩
    · rw [here, fresh]
      rfl
    · rw [here]
      exact none

theorem finish_only (kind : StoreKind) (patch : ExecutionFinishPatch) : Only shared (shared.finish kind key patch) key := by
  refine ⟨fun other apart => ?_, fun _ _ => rfl⟩
  change (shared.records.row other).map (fun row => if other = key then row.finish kind patch else row) = _
  simp only [if_neg apart, Option.map_id']

theorem finish_row (kind : StoreKind) (patch : ExecutionFinishPatch) (found : shared.records.row key = some row) :
    (shared.finish kind key patch).records.row key = some (row.finish kind patch) := by
  change (shared.records.row key).map (fun row => if key = key then row.finish kind patch else row) = _
  rw [found, Option.map_some, if_pos rfl]

theorem finish_effect {ran : Bool} (patch : ExecutionFinishPatch) (valid : Valid shared) (owned : Owned shared execution ran) :
    Effect shared (shared.finish kind execution.key patch) (some execution.key) none := by
  obtain ⟨row, found, working, same, fresh, none⟩ := owned
  have only := @finish_only shared execution.key kind patch
  have settled := finish_row kind patch found
  refine ⟨only.valid valid ?_, only.grows fun other present => ?_, ?_, fun next wrong => (by cases wrong)⟩
  · rw [settled]
    exact (valid.kept found).finish working rfl none
  · cases found.symm.trans present
    exact ⟨row.finish kind patch, settled, .inr (.inl ⟨working, rfl⟩)⟩
  · intro other ran apart owned
    exact only.owned (fun same => apart (congrArg some same.symm)) owned

/-- The call that ran the handler returns or throws what has become of its record. -/
theorem conclude_effect {response : Response} (valid : Valid shared) (owned : Owned shared execution true)
    (only : Only shared after execution.key) (history : after.history = shared.history)
    (becomes : ∀ row, shared.records.row execution.key = some row → row.status = .inProgress →
      ∃ later, after.records.row execution.key = some later ∧ later.inputHash = row.inputHash ∧ Recorded later response) :
    Effect shared (after.conclude execution.key response) (some execution.key) none := by
  obtain ⟨row, found, working, same, fresh, none⟩ := owned
  obtain ⟨later, settled, hash, recorded⟩ := becomes row found working
  have whole : Only shared (after.conclude execution.key response) execution.key := by
    refine ⟨only.rows, fun other apart => ?_⟩
    rw [← only.histories other apart]
    exact Function.update_of_ne apart _ _
  have here : (after.conclude execution.key response).history execution.key =
      { shared.history execution.key with outcomes := (shared.history execution.key).outcomes ++ [response] } := by
    rw [← history]
    exact Function.update_self ..
  refine ⟨whole.valid valid ?_, whole.grows fun other present => ?_, ?_, fun next wrong => (by cases wrong)⟩
  · rw [here]
    change Fits (after.records.row execution.key) _
    rw [settled]
    exact (valid.kept found).conclude working hash none recorded
  · cases found.symm.trans present
    exact ⟨later, settled, .inr (.inl ⟨working, hash⟩)⟩
  · intro other ran apart owned
    exact whole.owned (fun same => apart (congrArg some same.symm)) owned

theorem beginning_effect (surroundings : Surroundings) {execution : Execution} {record : ExecutionRecord} {rest : Option Call} (valid : Valid shared)
    (working : record.status = .inProgress) (same : record.inputHash = execution.inputHash)
    (absent : shared.records.row execution.key = none)
    (continues : ∀ next, rest = some next → next = created surroundings execution shared.clock) :
    Effect shared (shared.begin execution.key record) none rest := by
  apply begin_effect valid absent
  intro next more
  rw [continues next more]
  have blank := valid.blank absent
  refine ⟨created_asserted ⟨record, begin_row absent record, working, same, blank.handled, blank.outcomes⟩, ?_⟩
  intro key owned
  rw [← created_owner owned]
  exact .inr absent

theorem savingDone_effect {execution : Execution} {data : String} {now : Int} (valid : Valid shared)
    (owned : Owned shared execution true) :
    Effect shared ((shared.finish kind execution.key (donePatch data now)).conclude execution.key (.ok (some data)))
      (some execution.key) none := by
  apply conclude_effect valid owned (finish_only kind _) rfl
  intro row found _
  refine ⟨row.finish kind (donePatch data now), finish_row kind _ found, rfl, fun _ => ?_, fun wrong => (by cases wrong)⟩
  cases kind with
  | postgres => rfl
  | memory => rfl

theorem savingFailure_effect {execution : Execution} {failure : KyAppError} {now : Int} (valid : Valid shared)
    (owned : Owned shared execution true) :
    Effect shared ((shared.finish kind execution.key (failedPatch failure now)).conclude execution.key (.error failure))
      (some execution.key) none := by
  apply conclude_effect valid owned (finish_only kind _) rfl
  intro row found _
  refine ⟨row.finish kind (failedPatch failure now), finish_row kind _ found, rfl, fun wrong => (by cases wrong), fun _ => ?_⟩
  refine ⟨failure, rfl, ?_⟩
  cases kind with
  | postgres => rfl
  | memory => rfl

theorem unwritten_effect {execution : Execution} (failure : KyAppError) (valid : Valid shared)
    (owned : Owned shared execution true) :
    Effect shared (shared.conclude execution.key (.error failure)) (some execution.key) none := by
  refine conclude_effect valid owned ⟨fun _ _ => rfl, fun _ _ => rfl⟩ rfl fun row found working => ?_
  refine ⟨row, found, rfl, fun done => ?_, fun failed => ?_⟩
  · rw [working] at done
    cases done
  · rw [working] at failed
    cases failed

theorem advance_effect {call : Call} {move : Move} {rest : Option Call} (valid : Valid shared) (asserted : Asserted shared call)
    (careful : Careful shared call move) (moved : advance surroundings kind shared call move = some (after, rest)) :
    Effect shared after (owner call) rest := by
  unfold advance at moved
  split at moved
  next =>
    split at moved
    next =>
      cases moved
      exact .ended valid
    next =>
      cases moved
      exact .goes valid trivial (.inl rfl)
  next =>
    split at moved
    next =>
      cases moved
      exact .ended valid
    next =>
      cases moved
      exact .goes valid ⟨rfl, rfl⟩ (.inl rfl)
  next execution record =>
    split at moved
    next absent =>
      cases moved
      exact beginning_effect surroundings valid asserted.1 asserted.2 absent fun next same => (Option.some.inj same).symm
    next found =>
      cases moved
      exact .goes valid (Option.isSome_of_eq_some found) (.inl rfl)
    next found =>
      cases moved
      exact answer_effect _ valid found
  next execution record failure =>
    cases moved
    cases found : shared.records.row execution.key with
    | none => exact beginning_effect surroundings valid asserted.1 asserted.2 found fun next wrong => (by cases wrong)
    | some row =>
      refine .still valid ?_ rfl fun next wrong => (by cases wrong)
      exact Table.insert_of_some (Option.isSome_of_eq_some found) record
  next execution =>
    split at moved
    next absent =>
      change (shared.records.row execution.key).isSome at asserted
      rw [absent] at asserted
      cases asserted
    next found =>
      cases moved
      exact answer_effect _ valid found
  next =>
    cases moved
    exact handle_effect valid asserted
  next =>
    cases moved
    exact .goes valid asserted (.inr rfl)
  next =>
    cases moved
    exact .goes valid asserted (.inr rfl)
  next =>
    cases moved
    exact .goes valid asserted (.inr rfl)
  next =>
    split at moved
    all_goals
      cases moved
      exact .goes valid asserted (.inr rfl)
  next =>
    cases moved
    exact savingDone_effect valid asserted
  next committed _ =>
    cases committed with
    | true => exact careful.elim
    | false =>
      cases moved
      exact .goes valid asserted (.inr rfl)
  next ran =>
    cases moved
    cases ran with
    | true => exact savingFailure_effect valid asserted
    | false => exact finish_effect _ valid asserted
  next ran committed other =>
    cases moved
    cases ran with
    | true =>
      cases committed with
      | true => exact careful.elim
      | false => exact unwritten_effect other valid asserted
    | false =>
      cases committed with
      | true => exact finish_effect _ valid asserted
      | false => exact .ended valid
  next =>
    split at moved
    next =>
      cases moved
      exact .goes valid trivial (.inl rfl)
    next =>
      cases moved
      exact .ended valid
  next =>
    split at moved
    next =>
      cases moved
      exact .goes valid trivial (.inl rfl)
    next found =>
      cases moved
      exact query_effect valid found
  next =>
    cases moved
    exact missed_effect _ valid
  next =>
    cases moved
    exact .goes valid trivial (.inl rfl)
  next =>
    cases moved
    exact expireOverdue_effect _ valid
  next =>
    cases moved
    exact expireOverdue_effect _ valid
  next =>
    cases moved
    exact .still valid rfl rfl fun next wrong => (by cases wrong)
  next =>
    cases moved
    exact .still valid rfl rfl fun next wrong => (by cases wrong)
  next => cases moved

def careful (surroundings : Surroundings) (kind : StoreKind) : System Shared Call Move :=
  capabilities surroundings kind Careful

def outline : Outline Shared Call := ⟨Valid, Asserted, Apart, Grows⟩

theorem Owned.found {ran : Bool} (owned : Owned shared execution ran) : (shared.records.row execution.key).isSome := by
  obtain ⟨row, found, _⟩ := owned
  exact Option.isSome_of_eq_some found

theorem Asserted.found {call : Call} (asserted : Asserted shared call) (own : owner call = some key) :
    (shared.records.row key).isSome := by
  cases call with
  | creatingContext | handling | savingDone | savingFailure =>
    cases own
    exact asserted.found
  | _ => cases own

theorem Effect.stable {own : Option ExecutionKey} {rest : Option Call} {other : Call} (effect : Effect shared after own rest)
    (asserted : Asserted shared other) (apart : ∀ key, own = some key → owner other ≠ some key) : Asserted after other := by
  cases other with
  | reading execution =>
    obtain ⟨row, found⟩ := Option.isSome_iff_exists.mp asserted
    obtain ⟨later, found, _⟩ := effect.grows _ row found
    exact Option.isSome_of_eq_some found
  | creatingContext execution | handling execution | savingDone execution | savingFailure execution =>
    exact effect.owned execution _ (fun same => apart _ same rfl) asserted
  | beginning => exact asserted
  | invoke | consuming | queryExecution | getting | findingByLcid | expireOverdue | expiring | tick => trivial

theorem sound (surroundings : Surroundings) (kind : StoreKind) : outline.Sound (careful surroundings kind) where
  refl := Grows.refl
  trans := Grows.trans
  symm apart key same other := apart key other same
  starts {shared call} _ started := by
    cases call with
    | invoke | queryExecution | expireOverdue | tick => exact ⟨trivial, fun other _ key wrong => by cases wrong⟩
    | _ => exact started.elim
  advances {shared call move after rest} valid asserted permitted moved := by
    have effect := advance_effect valid asserted permitted moved
    refine ⟨effect.valid, effect.grows, fun next continues => ⟨(effect.asserted next continues).1, ?_⟩⟩
    intro other asserted apart key same also
    obtain own | absent := (effect.asserted next continues).2 key same
    · exact apart key own also
    · have found := Asserted.found asserted also
      rw [absent] at found
      cases found
  stable valid asserted permitted moved other apart := (advance_effect valid asserted permitted moved).stable other apart

theorem Valid.initial (clock : Int) : Valid (.initial clock) := by
  intro key
  exact ⟨rfl, rfl, rfl, fun query member => by cases member⟩

theorem Fits.one {record : Option ExecutionRecord} (fits : Fits record history) : OneOutcome history := by
  cases record with
  | none => exact (Blank.kept fits ⟨"", .inProgress, none, none, 0, 0, 0⟩).one
  | some row => exact Kept.one fits

/-- A finished record only expires. -/
def Settled (middle final : Shared) : Prop :=
  ∀ key row, middle.records.row key = some row → Finished row →
    ∃ later, final.records.row key = some later ∧ (later = row ∨ ∃ nowMs, later = row.expire nowMs)

def anyhow (surroundings : Surroundings) (kind : StoreKind) : System Shared Call Move :=
  capabilities surroundings kind fun _ _ _ => True

/-- One capability that accepts every input. -/
def orders : Surroundings :=
  ⟨[⟨"order.create", false, none, "", ""⟩], ["order.create"], none, fun _ _ _ => [], Except.ok, fun _ input => .ok input⟩

instance (shared : Shared) (call : Call) (move : Move) : Decidable (Careful shared call move) :=
  match call, move with
  | .savingDone .., .fail true _ | .savingFailure _ _ _ true, .fail true _ => isFalse id
  | .savingDone .., .fail false _ | .savingFailure _ _ _ true, .fail false _ => isTrue trivial
  | .savingDone .., .next | .savingDone .., .handled _ | .savingDone .., .timeout => isTrue trivial
  | .savingFailure _ _ _ true, .next | .savingFailure _ _ _ true, .handled _ | .savingFailure _ _ _ true, .timeout =>
    isTrue trivial
  | .savingFailure _ _ _ false, _ => isTrue trivial
  | .invoke .., _ | .consuming .., _ | .beginning .., _ | .reading .., _ | .creatingContext .., _ | .handling .., _
  | .queryExecution .., _ | .getting .., _ | .findingByLcid .., _ | .expireOverdue .., _ | .expiring .., _
  | .tick .., _ => isTrue trivial

instance (shared : Shared) (call : Call) : Decidable ((careful orders .postgres).starts shared call) :=
  inferInstanceAs (Decidable (starts shared call))

instance (shared : Shared) (call : Call) (move : Move) : Decidable ((careful orders .postgres).permits shared call move) :=
  inferInstanceAs (Decidable (Careful shared call move))

instance (shared : Shared) (call : Call) : Decidable ((anyhow orders .postgres).starts shared call) :=
  inferInstanceAs (Decidable (starts shared call))

instance (shared : Shared) (call : Call) (move : Move) : Decidable ((anyhow orders .postgres).permits shared call move) :=
  isTrue trivial

def start : World Shared Call := ⟨.initial 0, []⟩

def identity : VerifiedIdentity := ⟨"i1", some "u1", some "lc1", none, none, none⟩

def ordered : ExecutionKey := ⟨"i1", "order.create", "u1", "lc1"⟩

def invoked : Call := .invoke ⟨"order.create", identity, some "lc1", some (some "[1]"), true⟩

def repeated : List (Turn Call Move) :=
  .start invoked :: List.replicate 4 (.advance 1 .next) ++
    [.start (.queryExecution "order.create" identity "lc1" true), .advance 2 .next, .advance 2 .next,
      .start (.tick 604800000), .advance 3 .next, .start .expireOverdue, .advance 4 .next, .advance 4 .next]

end AgentSaas.Proofs.Executions
