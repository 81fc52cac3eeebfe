import AgentSaas.Runs.InvocationStores
import Mathlib.Tactic.ByContra

/-! When the store in memory and the one over the database are the same to a caller. They are, call by
call, but for calls that read or write what the two treat differently. -/

namespace AgentSaas.Proofs.InvocationStores
open Runs AgentSaas.InvocationStores
open ToolInvocations (ToolInvocationStatus Invocation StartToolInvocationInput excluded conflictRow conflictMetadata completion
  cancelOnce releaseDelivery isString handoffReady startStatus terminalError startMetadata)

/-- A record but for the times that the store sets and for the tenant that it puts where none is given. -/
def plain (record : ToolInvocationRecord) : ToolInvocationRecord :=
  { record with
    tenantId := some (record.tenantId.getD defaultTenantId)
    startedAt := 0
    updatedAt := 0
    completedAt := record.completedAt.map fun _ => 0
    cancelRequestedAt := record.cancelRequestedAt.map fun _ => 0
    cancelDeliveredAt := record.cancelDeliveredAt.map fun _ => 0 }

def SameRecord (invocationId : String) (record : Option ToolInvocationRecord) (row : Option Invocation) : Prop :=
  record.map plain = row.map fun row => plain (Pg.rowToRecord invocationId row)

def SameReply (invocationId : String) (first : Reply ToolInvocationRecord) (second : Reply Invocation) : Prop :=
  first.map plain = second.map fun row => plain (Pg.rowToRecord invocationId row)

/-- Both stores answer the same, and have the same records afterwards. -/
def AgreesOn (dates : Dates) (stores : Stores) (turn : Turn) : Prop :=
  SameReply turn.call.invocationId (stores.inMemory dates turn).reply (stores.pg dates turn).reply ∧
    ∀ invocationId, SameRecord invocationId ((stores.next dates turn).invocations invocationId)
      ((stores.next dates turn).rows invocationId)

def AgreesThroughout (dates : Dates) : Stores → List Turn → Prop
  | _, [] => True
  | stores, turn :: rest => AgreesOn dates stores turn ∧ AgreesThroughout dates (stores.next dates turn) rest

/-! The condition, which reads a call and the record that it finds. -/

def KeepsKey (existing patch : Metadata) (key : String) : Prop := patch key = none ∨ patch key = existing key

def startKeys : List String := ["cancelRecovery", "terminalRunStatus"]

def gateKeys : List String := ["workerId", "invokeClaimedAt", "invokeClaimedByWorkerId"]

def StartAgrees (runs : String → Option Run) (input : StartToolInvocationInput) : Option ToolInvocationRecord → Prop
  | none => (runs input.runId).all fun run => !handoffReady run
  | some record =>
    (record.status = .running → (runs input.runId).all fun run => !handoffReady run) ∧
    (record.status ≠ .running → ∀ key ∈ startKeys, KeepsKey record.metadata input.metadata key) ∧
    ((record.metadata "invokeClaimedAt").isSome → isString (record.metadata "invokeClaimedAt") = false →
      ∀ key ∈ gateKeys, KeepsKey record.metadata input.metadata key)

/-- A reason that is given is not empty where it is the first. -/
def RequestAgrees (reason : Option String) (record : ToolInvocationRecord) : Prop :=
  record.cancelReason = none → reason ≠ some ""

def RepeatAgrees (reason : Option String) (metadataPatch : Metadata) (record : ToolInvocationRecord) : Prop :=
  (record.cancelReason = none → reason = none) ∧ ∀ key, KeepsKey record.metadata metadataPatch key

/-- Both stores read the two times of the metadata and come to the same. -/
def DueAlike (dates : Dates) (metadata : Metadata) (now : Int) : Prop :=
  ((Pg.isDue dates metadata "cancelDeliveryNextAttemptAt" now).bind fun due =>
      if due then Pg.isDue dates metadata "cancelDeliveryClaimExpiresAt" now else some false) =
    some (InMemory.isDue dates (metadata "cancelDeliveryNextAttemptAt") now &&
      InMemory.isDue dates (metadata "cancelDeliveryClaimExpiresAt") now)

/-- A lease that ends at no date is refused by one store at once, and by the other where it would be taken. -/
def ClaimAgrees (dates : Dates) (leaseMs now : Int) (existing : Option ToolInvocationRecord) : Prop :=
  if (dates.toISOString (now + leaseMs)).isSome then
    ∀ record ∈ existing, record.cancelRequestedAt.isSome → record.cancelDeliveredAt = none →
      DueAlike dates record.metadata now
  else ∃ record ∈ existing, InMemory.isClaimable dates now record

def MarkAgrees (metadataPatch : Metadata) (claimId : Option String) (record : ToolInvocationRecord) : Prop :=
  (InMemory.isHeldBy claimId record ↔ claimId.all fun claimId => record.metadata.text "cancelDeliveryClaimId" = some claimId) ∧
    (InMemory.isHeldBy claimId record → ∀ key ∈ claimKeys, metadataPatch key = none)

def CallAgrees (dates : Dates) (runs : String → Option Run) (existing : Option ToolInvocationRecord) : Call → Prop
  | .start input => StartAgrees runs input existing
  | .complete .. | .get _ => True
  | .requestCancel _ reason _ => ∀ record ∈ existing, RequestAgrees reason record
  | .requestCancelOnce _ reason metadataPatch =>
    ∀ record ∈ existing,
      if record.cancelRequestedAt.isSome then RepeatAgrees reason metadataPatch record else RequestAgrees reason record
  | .claimCancelDelivery _ _ leaseMs now => ClaimAgrees dates leaseMs now existing
  | .markCancelDeliveryAttempt _ metadataPatch claimId | .markCancelDelivered _ metadataPatch claimId =>
    ∀ record ∈ existing, MarkAgrees metadataPatch claimId record

def Faithful (dates : Dates) (stores : Stores) (turn : Turn) : Prop :=
  CallAgrees dates turn.runs (stores.invocations turn.call.invocationId) turn.call

def FaithfulThroughout (dates : Dates) : Stores → List Turn → Prop
  | _, [] => True
  | stores, turn :: rest => Faithful dates stores turn ∧ FaithfulThroughout dates (stores.next dates turn) rest

/-! The run of an invocation is there and has not ended. -/

def runIds (existing : Option ToolInvocationRecord) : Call → List String
  | .start input => [input.runId]
  | _ => existing.toList.map (·.runId)

def Live (stores : Stores) (turn : Turn) : Prop :=
  ∀ runId ∈ runIds (stores.invocations turn.call.invocationId) turn.call,
    ∃ run, turn.runs runId = some run ∧ run.status.isTerminal = false

def LiveThroughout (dates : Dates) : Stores → List Turn → Prop
  | _, [] => True
  | stores, turn :: rest => Live stores turn ∧ LiveThroughout dates (stores.next dates turn) rest

theorem zeros_eq_iff (first second : Option Int) :
    (first.map fun _ => (0 : Int)) = (second.map fun _ => (0 : Int)) ↔ first.isSome = second.isSome := by
  cases first <;> cases second <;> simp

/-- The fields of a record and its row, as far as they are compared. -/
structure SameFields (invocationId : String) (record : ToolInvocationRecord) (row : Invocation) : Prop where
  id : record.invocationId = invocationId
  runId : record.runId = row.runId
  sessionId : record.sessionId = row.sessionId
  toolCallId : record.toolCallId = row.toolCallId
  toolName : record.toolName = row.toolName
  executionTarget : record.executionTarget = row.executionTarget
  tenant : record.tenantId.getD defaultTenantId = row.tenantId
  status : record.status = row.status
  completed : record.completedAt.isSome = row.completedAt.isSome
  requested : record.cancelRequestedAt.isSome = row.cancelRequestedAt.isSome
  reason : record.cancelReason = row.cancelReason.filter (· ≠ "")
  delivered : record.cancelDeliveredAt.isSome = row.cancelDeliveredAt.isSome
  error : record.error = row.error.filter (· ≠ "")
  metadata : record.metadata = row.metadata

theorem same_iff (invocationId : String) (record : ToolInvocationRecord) (row : Invocation) :
    plain record = plain (Pg.rowToRecord invocationId row) ↔ SameFields invocationId record row := by
  simp only [plain, Pg.rowToRecord, ToolInvocationRecord.mk.injEq, zeros_eq_iff, Option.some.injEq, Option.getD_some, true_and]
  constructor
  · rintro ⟨id, runId, sessionId, toolCallId, toolName, executionTarget, tenant, status, completed, requested, reason,
      delivered, error, metadata⟩
    exact ⟨id, runId, sessionId, toolCallId, toolName, executionTarget, tenant, status, completed, requested, reason,
      delivered, error, metadata⟩
  · intro same
    exact ⟨same.id, same.runId, same.sessionId, same.toolCallId, same.toolName, same.executionTarget, same.tenant,
      same.status, same.completed, same.requested, same.reason, same.delivered, same.error, same.metadata⟩

/-- The last two are what the row does not show: a reason is never empty, and what runs has no error. -/
structure Paired (invocationId : String) (record : ToolInvocationRecord) (row : Invocation) : Prop where
  same : SameFields invocationId record row
  named : row.cancelReason ≠ some ""
  running : row.status = .running → row.error = none

def Related (invocationId : String) : Option ToolInvocationRecord → Option Invocation → Prop
  | none, none => True
  | some record, some row => Paired invocationId record row
  | _, _ => False

theorem filter_eq_self {reason : Option String} (named : reason ≠ some "") : reason.filter (· ≠ "") = reason := by
  cases reason with
  | none => rfl
  | some text =>
    have given : text ≠ "" := fun empty => named (congrArg some empty)
    simp [Option.filter, given]

theorem keepsKey_iff (existing patch : Metadata) (key : String) :
    KeepsKey existing patch key ↔ (patch key).or (existing key) = existing key := by
  unfold KeepsKey
  cases patch key with
  | none => simp
  | some value => simp

section Calls

variable {invocationId : String} {record : ToolInvocationRecord} {row : Invocation}
  {existing found : Option ToolInvocationRecord} {stored hit : Option Invocation}

theorem sameRecord_of_related (related : Related invocationId found hit) : SameRecord invocationId found hit := by
  cases found with
  | none =>
    cases hit with
    | none => rfl
    | some row => exact related.elim
  | some record =>
    cases hit with
    | none => exact related.elim
    | some row => exact congrArg some ((same_iff invocationId record row).mpr related.same)

theorem sameFields_of_some (same : SameRecord invocationId (some record) (some row)) : SameFields invocationId record row :=
  (same_iff invocationId record row).mp (Option.some.inj same)

/-- One call on both stores, with the condition for it. -/
structure Settled (invocationId : String) (first : Answer ToolInvocationRecord) (second : Answer Invocation) (condition : Prop) :
    Prop where
  needed : SameReply invocationId first.reply second.reply → SameRecord invocationId first.stored second.stored → condition
  reply : condition → SameReply invocationId first.reply second.reply
  related : condition → Related invocationId first.stored second.stored

theorem sameReply_record_iff : SameReply invocationId (.record found) (.record hit) ↔ SameRecord invocationId found hit := by
  simp only [SameReply, Reply.map, Reply.record.injEq]
  exact Iff.rfl

theorem related_update (related : Related invocationId existing stored) (changed : Related invocationId found hit) :
    Related invocationId (update existing found).stored (update stored hit).stored := by
  cases found with
  | none =>
    cases hit with
    | none => exact related
    | some row => exact changed.elim
  | some record =>
    cases hit with
    | none => exact changed.elim
    | some row => exact changed

theorem settled_update {condition : Prop} (related : Related invocationId existing stored)
    (needed : SameRecord invocationId found hit → condition) (changed : condition → Related invocationId found hit) :
    Settled invocationId (update existing found) (update stored hit) condition where
  needed same _ := needed (sameReply_record_iff.mp same)
  reply met := sameReply_record_iff.mpr (sameRecord_of_related (changed met))
  related met := related_update related (changed met)

theorem startStatus_running {run : Run} (live : run.status.isTerminal = false) :
    startStatus run = .running ↔ handoffReady run = false := by
  have going : run.status ≠ .cancelled := by
    intro cancelled
    rw [cancelled] at live
    cases live
  unfold startStatus
  rw [if_neg going, live, Bool.false_or]
  cases handoffReady run <;> simp

theorem keepClaim_apply (existing merged : Metadata) (key : String) :
    InMemory.keepClaim existing merged key =
      if isString (existing "invokeClaimedAt") ∧ key ∈ gateKeys then existing key else merged key := by
  have keys : key ∈ gateKeys ↔ key = "workerId" ∨ key = "invokeClaimedAt" ∨ key = "invokeClaimedByWorkerId" := by
    simp [gateKeys]
  unfold InMemory.keepClaim
  by_cases claimed : isString (existing "invokeClaimedAt") = true
  · simp only [keys, claimed, true_and, if_true]
  · rw [if_neg claimed, if_neg fun both => claimed both.1]

theorem merge_apply (metadata patch : Metadata) (key : String) :
    metadata.merge patch key = (patch key).or (metadata key) := rfl

theorem without_apply (metadata : Metadata) (dropped key : String) :
    metadata.without dropped key = if key = dropped then none else metadata key := by
  by_cases same : key = dropped
  · rw [if_pos same, same, Metadata.without_self]
  · rw [if_neg same, Metadata.without_other metadata same]

theorem conflictMetadata_apply (row : Invocation) (patch : Metadata) (key : String) :
    conflictMetadata row patch key =
      if ((row.metadata "invokeClaimedAt").isSome ∧ key ∈ gateKeys) ∨ (row.status ≠ .running ∧ key ∈ startKeys) then
        row.metadata key
      else (patch key).or (row.metadata key) := by
  have gate : key ∈ gateKeys ↔ key = "workerId" ∨ key = "invokeClaimedAt" ∨ key = "invokeClaimedByWorkerId" := by
    simp [gateKeys]
  have start : key ∈ startKeys ↔ key = "cancelRecovery" ∨ key = "terminalRunStatus" := by simp [startKeys]
  unfold conflictMetadata
  simp only [gate, start]
  by_cases claimed : (row.metadata "invokeClaimedAt").isSome = true
  · by_cases running : row.status = .running
    · rw [if_pos claimed, if_pos running, merge_apply]
      grind [without_apply]
    · rw [if_pos claimed, if_neg running, merge_apply]
      grind [without_apply]
  · by_cases running : row.status = .running
    · rw [if_neg claimed, if_pos running, merge_apply]
      grind
    · rw [if_neg claimed, if_neg running, merge_apply]
      grind [without_apply]

theorem isSome_of_isString {field : Option Json} (text : isString field) : field.isSome := by
  cases field with
  | none => cases text
  | some _ => rfl

theorem not_gate_of_start {key : String} (member : key ∈ startKeys) : key ∉ gateKeys := by
  simp only [startKeys, gateKeys, List.mem_cons, List.not_mem_nil, or_false] at member ⊢
  rcases member with rfl | rfl <;> decide

/-- The two merges are the same where the patch does not touch what one of them leaves out. -/
theorem merged_iff (row : Invocation) (patch : Metadata) :
    InMemory.keepClaim row.metadata (row.metadata.merge patch) = conflictMetadata row patch ↔
      (row.status ≠ .running → ∀ key ∈ startKeys, KeepsKey row.metadata patch key) ∧
      ((row.metadata "invokeClaimedAt").isSome → isString (row.metadata "invokeClaimedAt") = false →
        ∀ key ∈ gateKeys, KeepsKey row.metadata patch key) := by
  constructor
  · intro equal
    have at_ (key : String) := congrFun equal key
    simp only [keepClaim_apply, conflictMetadata_apply, merge_apply] at at_
    constructor
    · intro ended key member
      have here := at_ key
      rw [if_neg fun both => not_gate_of_start member both.2, if_pos (.inr ⟨ended, member⟩)] at here
      exact (keepsKey_iff _ _ _).mpr here
    · intro claimed other key member
      have here := at_ key
      rw [if_neg fun both => by rw [other] at both; exact Bool.noConfusion both.1, if_pos (.inl ⟨claimed, member⟩)] at here
      exact (keepsKey_iff _ _ _).mpr here
  · rintro ⟨ended, claimed⟩
    funext key
    rw [keepClaim_apply, conflictMetadata_apply]
    by_cases text : isString (row.metadata "invokeClaimedAt") = true ∧ key ∈ gateKeys
    · rw [if_pos text, if_pos (.inl ⟨isSome_of_isString text.1, text.2⟩)]
    · rw [if_neg text]
      split
      next kept =>
        apply (keepsKey_iff _ _ _).mp
        rcases kept with ⟨there, member⟩ | ⟨ended_, member⟩
        · apply claimed there _ key member
          exact Bool.not_eq_true _ ▸ fun string => text ⟨string, member⟩
        · exact ended ended_ key member
      next => rfl

variable {input : StartToolInvocationInput} {run : Run} {runs : String → Option Run} {clock pgClock : Int}

theorem not_cancelled (live : run.status.isTerminal = false) : run.status ≠ .cancelled := by
  intro cancelled
  rw [cancelled] at live
  cases live

theorem startMetadata_of_live (live : run.status.isTerminal = false) : startMetadata input.metadata run = input.metadata := by
  unfold startMetadata
  simp only [live, Bool.false_eq_true, if_false, if_neg (not_cancelled live)]

/-- A conflict that does not end what runs only touches the metadata, the tenant and the time. -/
theorem conflictRow_of_calm (given : Bool) (proposed : Invocation) (calm : row.status = .running → proposed.status = .running) :
    conflictRow given proposed row =
      { row with
        updatedAt := proposed.updatedAt
        tenantId := if given then proposed.tenantId else row.tenantId
        metadata := conflictMetadata row proposed.metadata } := by
  have stays (status : ToolInvocationStatus) (other : status ≠ .running) :
      ¬ (proposed.status = status ∧ row.status = .running) := by
    rintro ⟨ends, running⟩
    exact other (ends.symm.trans (calm running))
  have ends : ¬ (proposed.status ≠ .running ∧ row.status = .running) := fun ends => ends.1 (calm ends.2)
  unfold conflictRow
  simp only
  rw [if_neg ends, if_neg ends, if_neg (stays .cancelled (by decide)), if_neg (stays .cancelled (by decide)),
    if_neg (stays .failed (by decide))]

theorem settled_written {condition : Prop} (needed : SameFields invocationId record row → condition)
    (paired : condition → Paired invocationId record row) :
    Settled invocationId ⟨.record (some record), some record⟩ ⟨.record (some row), some row⟩ condition where
  needed _ same := needed (sameFields_of_some same)
  reply met := sameReply_record_iff.mpr (sameRecord_of_related (paired met))
  related met := paired met

theorem ready_iff (found : runs input.runId = some run) :
    ((runs input.runId).all fun run => !handoffReady run) = true ↔ handoffReady run = false := by
  rw [found, Option.all_some, Bool.not_eq_true']

theorem paired_excluded (live : run.status.isTerminal = false) (ready : handoffReady run = false)
    (fresh : (InMemory.start none input clock).stored = some record) :
    Paired input.invocationId record (excluded input run pgClock) := by
  obtain rfl := Option.some.inj fresh
  have running : startStatus run = .running := (startStatus_running live).mpr ready
  have error : terminalError run = none := by
    unfold terminalError
    simp only [live, ready, Bool.false_and, Bool.false_eq_true, if_false]
  have going := not_cancelled live
  constructor
  case same =>
    constructor
    case status => exact running.symm
    case completed => simp [excluded, running]
    case requested => simp [excluded, going]
    case reason => simp [excluded, going]
    case error => simp [excluded, error]
    case metadata => exact (startMetadata_of_live live).symm
    all_goals rfl
  case named => simp [excluded, going]
  case running => exact fun _ => error

theorem settled_start (known : runs input.runId = some run) (live : run.status.isTerminal = false)
    (related : Related input.invocationId existing stored) :
    Settled input.invocationId (InMemory.start existing input clock) (Pg.start runs stored input pgClock)
      (StartAgrees runs input existing) := by
  have metadata : (excluded input run pgClock).metadata = input.metadata := startMetadata_of_live live
  unfold Pg.start
  simp only [known]
  cases existing with
  | none =>
    cases stored with
    | some row => exact related.elim
    | none =>
      apply settled_written
      · intro same
        exact (ready_iff known).mpr ((startStatus_running live).mp same.status.symm)
      · intro ready
        exact paired_excluded live ((ready_iff known).mp ready) rfl
  | some record =>
    cases stored with
    | none => exact related.elim
    | some row =>
      have paired : Paired input.invocationId record row := related
      have calm (ready : row.status = .running → handoffReady run = false) :
          conflictRow input.tenantId.isSome (excluded input run pgClock) row =
            { row with
              updatedAt := pgClock
              tenantId := if input.tenantId.isSome then input.tenantId.getD defaultTenantId else row.tenantId
              metadata := conflictMetadata row input.metadata } := by
        rw [conflictRow_of_calm _ _ fun running => (startStatus_running live).mpr (ready running), metadata]
        rfl
      have condition : StartAgrees runs input (some record) ↔ (row.status = .running → handoffReady run = false) ∧
          InMemory.keepClaim row.metadata (row.metadata.merge input.metadata) = conflictMetadata row input.metadata := by
        rw [merged_iff, ← ready_iff known, ← paired.same.status, ← paired.same.metadata]
        exact Iff.rfl
      apply settled_written
      · intro same
        apply condition.mpr
        have ready : row.status = .running → handoffReady run = false := by
          intro running
          apply (startStatus_running live).mp
          by_contra ends
          have ended : (conflictRow input.tenantId.isSome (excluded input run pgClock) row).status = startStatus run :=
            if_pos ⟨ends, running⟩
          have kept : record.status = startStatus run := same.status.trans ended
          exact ends (kept.symm.trans (paired.same.status.trans running))
        rw [Option.elim_some, calm ready] at same
        have equal := same.metadata
        simp only [paired.same.metadata] at equal
        exact ⟨ready, equal⟩
      · intro met
        obtain ⟨ready, equal⟩ := condition.mp met
        rw [Option.elim_some, calm ready]
        constructor
        case same =>
          exact
            { paired.same with
              tenant := by
                cases given : input.tenantId with
                | none => exact paired.same.tenant
                | some tenant => rfl
              metadata := by
                simp only [paired.same.metadata]
                exact equal }
        case named => exact paired.named
        case running => exact paired.running

theorem settled_complete {status : ToolInvocationStatus} (ended : status ≠ .running) (error : Option String)
    (live : ∀ record ∈ existing, ∃ run, runs record.runId = some run ∧ run.status.isTerminal = false)
    (related : Related invocationId existing stored) :
    Settled invocationId (InMemory.complete existing status error clock) (Pg.complete runs stored status error pgClock) True := by
  cases existing with
  | none =>
    cases stored with
    | some row => exact related.elim
    | none => exact settled_update related (fun _ => trivial) fun _ => trivial
  | some record =>
    cases stored with
    | none => exact related.elim
    | some row =>
      have paired : Paired invocationId record row := related
      obtain ⟨run, known, going⟩ := live record rfl
      rw [paired.same.runId] at known
      unfold InMemory.complete Pg.complete
      simp only [known]
      apply settled_update related (fun _ => trivial)
      intro
      by_cases running : row.status = .running
      · have first : (some record).filter (·.status = .running) = some record := by
          simp [Option.filter, paired.same.status, running]
        have second : (some row).filter (completion status error (decide (run.status = .cancelled)) pgClock).hits = some row := by
          simp [Option.filter, completion, running]
        have none : record.error = none := by
          rw [paired.same.error, paired.running running]
          rfl
        rw [Pg.execute, first, second, decide_eq_false (not_cancelled going)]
        constructor
        case same =>
          exact
            { paired.same with
              status := rfl
              completed := rfl
              error := by simp only [none, Option.orElse_eq_orElse, Option.orElse_eq_or, Option.or_none, completion] }
        case named => exact paired.named
        case running => exact fun again => absurd again ended
      · have first : (some record).filter (·.status = .running) = none := by
          simp [Option.filter, paired.same.status, running]
        have second : (some row).filter (completion status error (decide (run.status = .cancelled)) pgClock).hits = none := by
          simp [Option.filter, completion, running]
        rw [Pg.execute, first, second]
        trivial

variable {reason : Option String} {metadataPatch : Metadata}

theorem reason_of_paired (paired : Paired invocationId record row) : record.cancelReason = row.cancelReason := by
  rw [paired.same.reason, filter_eq_self paired.named]

theorem reason_iff (paired : Paired invocationId record row) :
    (record.cancelReason <|> reason) = (row.cancelReason <|> reason).filter (· ≠ "") ↔ RequestAgrees reason record := by
  unfold RequestAgrees
  rw [reason_of_paired paired]
  have named := paired.named
  cases found : row.cancelReason with
  | some text =>
    rw [found] at named
    constructor
    · intro _ absent
      cases absent
    · intro
      exact (filter_eq_self named).symm
  | none =>
    constructor
    · rintro equal - rfl
      cases equal
    · intro given
      exact (filter_eq_self (given rfl)).symm

theorem named_of_agrees (paired : Paired invocationId record row) (agrees : RequestAgrees reason record) :
    (row.cancelReason <|> reason) ≠ some "" := by
  have given := agrees
  unfold RequestAgrees at given
  rw [reason_of_paired paired] at given
  have named := paired.named
  cases found : row.cancelReason with
  | some text =>
    rw [found] at named
    exact named
  | none => exact given found

theorem paired_requested (paired : Paired invocationId record row) (agrees : RequestAgrees reason record) :
    Paired invocationId (InMemory.requested reason metadataPatch clock record)
      { row with
        cancelRequestedAt := row.cancelRequestedAt <|> some pgClock
        cancelReason := row.cancelReason <|> reason
        updatedAt := pgClock
        metadata := row.metadata.merge metadataPatch } where
  same :=
    { paired.same with
      requested := by
        have same := paired.same.requested
        simp only [InMemory.requested, Option.orElse_eq_orElse, Option.orElse_eq_or, Option.isSome_or, Option.isSome_some,
          Bool.or_true]
      reason := (reason_iff paired).mpr agrees
      metadata := congrArg (Metadata.merge · metadataPatch) paired.same.metadata }
  named := named_of_agrees paired agrees
  running := paired.running

theorem settled_requestCancel (related : Related invocationId existing stored) :
    Settled invocationId (InMemory.requestCancel existing reason metadataPatch clock)
      (Pg.requestCancel stored reason metadataPatch pgClock) (∀ record ∈ existing, RequestAgrees reason record) := by
  cases existing with
  | none =>
    cases stored with
    | some row => exact related.elim
    | none =>
      apply settled_update related
      · intro _ record member
        cases member
      · intro
        trivial
  | some record =>
    cases stored with
    | none => exact related.elim
    | some row =>
      have paired : Paired invocationId record row := related
      apply settled_update related
      · intro same other member
        obtain rfl : record = other := Option.some.inj member
        exact (reason_iff paired).mp (sameFields_of_some same).reason
      · intro agrees
        exact paired_requested paired (agrees record rfl)

theorem sameReply_cancellation_iff {first second : Bool} :
    SameReply invocationId (.cancellation (some (record, first))) (.cancellation (some (row, second))) ↔
      SameFields invocationId record row ∧ first = second := by
  rw [← same_iff]
  simp [SameReply, Reply.map]

theorem repeat_iff (paired : Paired invocationId record row) (requested : row.cancelRequestedAt.isSome) :
    SameFields invocationId (InMemory.requested reason metadataPatch clock record) row ↔
      RepeatAgrees reason metadataPatch record := by
  have reasons : (record.cancelReason <|> reason) = row.cancelReason.filter (· ≠ "") ↔
      (record.cancelReason = none → reason = none) := by
    rw [← paired.same.reason]
    cases record.cancelReason <;> simp
  have merged : record.metadata.merge metadataPatch = row.metadata ↔ ∀ key, KeepsKey record.metadata metadataPatch key := by
    rw [← paired.same.metadata]
    constructor
    · intro equal key
      exact (keepsKey_iff _ _ _).mpr (congrFun equal key)
    · intro keeps
      funext key
      exact (keepsKey_iff _ _ _).mp (keeps key)
  constructor
  · intro same
    exact ⟨reasons.mp same.reason, merged.mp same.metadata⟩
  · rintro ⟨named, keeps⟩
    exact
      { paired.same with
        requested := by
          simp only [InMemory.requested, Option.orElse_eq_orElse, Option.orElse_eq_or, Option.isSome_or, Option.isSome_some,
            Bool.or_true, requested]
        reason := reasons.mpr named
        metadata := merged.mpr keeps }

theorem settled_requestCancelOnce (related : Related invocationId existing stored) :
    Settled invocationId (InMemory.requestCancelOnce existing reason metadataPatch clock)
      (Pg.requestCancelOnce stored reason metadataPatch pgClock)
      (∀ record ∈ existing,
        if record.cancelRequestedAt.isSome then RepeatAgrees reason metadataPatch record else RequestAgrees reason record) := by
  cases existing with
  | none =>
    cases stored with
    | some row => exact related.elim
    | none =>
      constructor
      · intro _ _ record member
        cases member
      · intro
        rfl
      · intro
        trivial
  | some record =>
    cases stored with
    | none => exact related.elim
    | some row =>
      have paired : Paired invocationId record row := related
      have condition : (∀ record' ∈ some record,
            if record'.cancelRequestedAt.isSome then RepeatAgrees reason metadataPatch record'
            else RequestAgrees reason record') ↔
          if row.cancelRequestedAt.isSome then RepeatAgrees reason metadataPatch record else RequestAgrees reason record := by
        rw [← paired.same.requested]
        simp
      rw [condition]
      unfold Pg.requestCancelOnce
      by_cases requested : row.cancelRequestedAt.isSome = true
      · have missed : Pg.execute (cancelOnce (fun _ => true) reason metadataPatch pgClock) (some row) = none := by
          obtain ⟨time, at_⟩ := Option.isSome_iff_exists.mp requested
          simp [Pg.execute, Option.filter, cancelOnce, at_]
        have found : (some row).filter (·.cancelRequestedAt.isSome) = some row := Option.filter_some_pos requested
        have created : (some record).all (·.cancelRequestedAt.isNone) = false := by
          simp [← Option.not_isSome, paired.same.requested, requested]
        simp only [missed, found, if_pos requested, InMemory.requestCancelOnce, created]
        constructor
        · intro reply _
          exact (repeat_iff paired requested).mp (sameReply_cancellation_iff.mp reply).1
        · intro agrees
          exact sameReply_cancellation_iff.mpr ⟨(repeat_iff paired requested).mpr agrees, rfl⟩
        · intro agrees
          exact ⟨(repeat_iff paired requested).mpr agrees, paired.named, paired.running⟩
      · have absent : row.cancelRequestedAt = none := Option.not_isSome_iff_eq_none.mp requested
        have wrote : Pg.execute (cancelOnce (fun _ => true) reason metadataPatch pgClock) (some row) =
            some
              { row with
                cancelRequestedAt := row.cancelRequestedAt <|> some pgClock
                cancelReason := row.cancelReason <|> reason
                updatedAt := pgClock
                metadata := row.metadata.merge metadataPatch } := by
          simp [Pg.execute, Option.filter, cancelOnce, absent]
        have created : (some record).all (·.cancelRequestedAt.isNone) = true := by
          simp [← Option.not_isSome, paired.same.requested, absent]
        simp only [wrote, if_neg requested, InMemory.requestCancelOnce, created]
        constructor
        · intro reply _
          exact (reason_iff paired).mp (sameReply_cancellation_iff.mp reply).1.reason
        · intro agrees
          exact sameReply_cancellation_iff.mpr ⟨(paired_requested paired agrees).same, rfl⟩
        · intro agrees
          exact paired_requested paired agrees

variable {dates : Dates} {claimId : Option String}

theorem released_apply (metadata patch : Metadata) (key : String) :
    InMemory.released metadata patch key = if key ∈ claimKeys then none else (patch key).or (metadata key) := by
  unfold InMemory.released
  rw [without_apply, without_apply, merge_apply]
  simp only [claimKeys, List.mem_cons, List.not_mem_nil, or_false]
  grind

theorem releaseDelivery_apply (metadata patch : Metadata) (key : String) :
    releaseDelivery metadata patch key = (patch key).or (if key ∈ claimKeys then none else metadata key) := by
  unfold releaseDelivery
  rw [merge_apply, without_apply, without_apply]
  simp only [claimKeys, List.mem_cons, List.not_mem_nil, or_false]
  grind

theorem released_iff (metadata patch : Metadata) :
    InMemory.released metadata patch = releaseDelivery metadata patch ↔ ∀ key ∈ claimKeys, patch key = none := by
  constructor
  · intro equal key member
    have here := congrFun equal key
    rw [released_apply, releaseDelivery_apply, if_pos member, if_pos member, Option.or_none] at here
    exact here.symm
  · intro absent
    funext key
    rw [released_apply, releaseDelivery_apply]
    split
    next member => rw [absent key member, Option.none_or]
    next => rfl

theorem settled_mark (first : ToolInvocationRecord → ToolInvocationRecord) (second : Invocation → Invocation)
    (related : Related invocationId existing stored)
    (needed : ∀ record row, Paired invocationId record row → SameFields invocationId (first record) (second row) →
      InMemory.released record.metadata metadataPatch = releaseDelivery row.metadata metadataPatch)
    (marked : ∀ record row, Paired invocationId record row →
      InMemory.released record.metadata metadataPatch = releaseDelivery row.metadata metadataPatch →
      Paired invocationId (first record) (second row)) :
    Settled invocationId (update existing ((existing.filter (InMemory.isHeldBy claimId)).map first))
      (update stored ((stored.filter (Pg.isHeldBy claimId)).map second))
      (∀ record ∈ existing, MarkAgrees metadataPatch claimId record) := by
  cases existing with
  | none =>
    cases stored with
    | some row => exact related.elim
    | none =>
      apply settled_update related
      · intro _ record member
        cases member
      · intro
        trivial
  | some record =>
    cases stored with
    | none => exact related.elim
    | some row =>
      have paired : Paired invocationId record row := related
      have held : (claimId.all fun claimId => decide (record.metadata.text "cancelDeliveryClaimId" = some claimId)) =
          Pg.isHeldBy claimId row := by
        rw [paired.same.metadata]
        rfl
      have condition : (∀ other ∈ some record, MarkAgrees metadataPatch claimId other) ↔
          (InMemory.isHeldBy claimId record = Pg.isHeldBy claimId row ∧
            (InMemory.isHeldBy claimId record → ∀ key ∈ claimKeys, metadataPatch key = none)) := by
        simp only [Option.mem_def, Option.some.injEq, forall_eq', MarkAgrees, held, Bool.coe_iff_coe]
      rw [condition]
      apply settled_update related
      · intro same
        cases mine : InMemory.isHeldBy claimId record with
        | true =>
          cases theirs : Pg.isHeldBy claimId row with
          | true =>
            rw [Option.filter_some_pos mine, Option.filter_some_pos theirs] at same
            refine ⟨rfl, fun _ => ?_⟩
            have equal := needed record row paired (sameFields_of_some same)
            rw [paired.same.metadata] at equal
            exact (released_iff _ _).mp equal
          | false =>
            rw [Option.filter_some_pos mine, Option.filter_some_neg theirs] at same
            cases same
        | false =>
          cases theirs : Pg.isHeldBy claimId row with
          | true =>
            rw [Option.filter_some_neg mine, Option.filter_some_pos theirs] at same
            cases same
          | false =>
            refine ⟨rfl, ?_⟩
            intro held
            cases held
      · rintro ⟨alike, absent⟩
        cases mine : InMemory.isHeldBy claimId record with
        | true =>
          rw [Option.filter_some_pos mine, Option.filter_some_pos (alike.symm.trans mine)]
          apply marked record row paired
          rw [paired.same.metadata]
          exact (released_iff _ _).mpr (absent mine)
        | false =>
          rw [Option.filter_some_neg mine,
            Option.filter_some_neg (alike.symm.trans mine)]
          trivial

theorem settled_markCancelDeliveryAttempt (related : Related invocationId existing stored) :
    Settled invocationId (InMemory.markCancelDeliveryAttempt existing metadataPatch claimId clock)
      (Pg.markCancelDeliveryAttempt stored metadataPatch claimId pgClock)
      (∀ record ∈ existing, MarkAgrees metadataPatch claimId record) := by
  apply settled_mark _ _ related
  · intro record row _ same
    exact same.metadata
  · intro record row paired equal
    exact ⟨{ paired.same with metadata := equal }, paired.named, paired.running⟩

theorem settled_markCancelDelivered (related : Related invocationId existing stored) :
    Settled invocationId (InMemory.markCancelDelivered existing metadataPatch claimId clock)
      (Pg.markCancelDelivered stored metadataPatch claimId pgClock)
      (∀ record ∈ existing, MarkAgrees metadataPatch claimId record) := by
  apply settled_mark _ _ related
  · intro record row _ same
    exact same.metadata
  · intro record row paired equal
    have delivered : (row.cancelDeliveredAt <|> some pgClock).isSome = true := by
      simp only [Option.orElse_eq_orElse, Option.orElse_eq_or, Option.isSome_or, Option.isSome_some, Bool.or_true]
    exact ⟨{ paired.same with delivered := delivered.symm, metadata := equal }, paired.named, paired.running⟩

theorem claimable_iff (paired : Paired invocationId record row) (dates : Dates) (now : Int) :
    (∀ other ∈ some record, other.cancelRequestedAt.isSome → other.cancelDeliveredAt = none →
        DueAlike dates other.metadata now) ↔
      Pg.isClaimable dates now row = some (InMemory.isClaimable dates now record) := by
  have undelivered : record.cancelDeliveredAt = none ↔ record.cancelDeliveredAt.isNone = true := Option.isNone_iff_eq_none.symm
  have same : record.cancelDeliveredAt.isNone = row.cancelDeliveredAt.isNone := by
    rw [← Option.not_isSome, ← Option.not_isSome, paired.same.delivered]
  simp only [Option.mem_def, Option.some.injEq, forall_eq', undelivered]
  unfold Pg.isClaimable InMemory.isClaimable DueAlike
  rw [paired.same.requested, same, paired.same.metadata]
  cases row.cancelRequestedAt.isSome with
  | false => simp
  | true =>
    cases row.cancelDeliveredAt.isNone with
    | false => simp
    | true =>
      cases Pg.isDue dates row.metadata "cancelDeliveryNextAttemptAt" now with
      | none => simp
      | some due => cases due <;> simp

theorem claimAgrees_of_date {leaseMs now : Int} (dated : (dates.toISOString (now + leaseMs)).isSome)
    (alike : ∀ record ∈ existing, record.cancelRequestedAt.isSome → record.cancelDeliveredAt = none →
      DueAlike dates record.metadata now) : ClaimAgrees dates leaseMs now existing := by
  unfold ClaimAgrees
  rw [if_pos dated]
  exact alike

theorem settled_claim {claim : String} {leaseMs now : Int} (related : Related invocationId existing stored) :
    Settled invocationId (InMemory.claimCancelDelivery dates existing claim leaseMs now)
      (Pg.claimCancelDelivery dates stored claim leaseMs now) (ClaimAgrees dates leaseMs now existing) := by
  unfold InMemory.claimCancelDelivery Pg.claimCancelDelivery ClaimAgrees
  cases expires : dates.toISOString (now + leaseMs) with
  | none =>
    simp only [Option.isSome_none, Bool.false_eq_true, if_false]
    cases claimable : existing.filter (InMemory.isClaimable dates now) with
    | none =>
      have refused : ¬ ∃ record ∈ existing, InMemory.isClaimable dates now record = true := by
        rintro ⟨record, rfl, claimed⟩
        rw [Option.filter_some_pos claimed] at claimable
        cases claimable
      constructor
      · intro reply
        cases reply
      · intro met
        exact absurd met refused
      · intro met
        exact absurd met refused
    | some record =>
      obtain ⟨there, claimed⟩ := Option.filter_eq_some_iff.mp claimable
      constructor
      · intro _ _
        exact ⟨record, there, claimed⟩
      · intro
        rfl
      · intro
        exact related
  | some text =>
    simp only [Option.isSome_some, if_true]
    cases existing with
    | none =>
      cases stored with
      | some row => exact related.elim
      | none =>
        apply settled_update related
        · intro _ record member
          cases member
        · intro
          trivial
    | some record =>
      cases stored with
      | none => exact related.elim
      | some row =>
        have paired : Paired invocationId record row := related
        have condition := claimable_iff paired dates now
        rw [condition]
        cases theirs : Pg.isClaimable dates now row with
        | none =>
          simp only [theirs]
          constructor
          · intro reply
            cases claimed : InMemory.isClaimable dates now record with
            | true =>
              rw [Option.filter_some_pos claimed] at reply
              cases reply
            | false =>
              rw [Option.filter_some_neg claimed] at reply
              cases reply
          · intro met
            cases met
          · intro met
            cases met
        | some verdict =>
          simp only [theirs]
          cases claimed : InMemory.isClaimable dates now record with
          | false =>
            simp only [Option.filter_some_neg claimed]
            cases verdict with
            | false =>
              apply settled_update related
              · intro
                rfl
              · intro
                trivial
            | true =>
              apply settled_update related
              · intro same
                cases same
              · intro met
                cases met
          | true =>
            simp only [Option.filter_some_pos claimed]
            cases verdict with
            | false =>
              apply settled_update related
              · intro same
                cases same
              · intro met
                cases met
            | true =>
              apply settled_update related
              · intro
                rfl
              · intro
                exact
                  ⟨{ paired.same with metadata := by simp only [paired.same.metadata] }, paired.named, paired.running⟩

end Calls

def AllRelated (stores : Stores) : Prop :=
  ∀ invocationId, Related invocationId (stores.invocations invocationId) (stores.rows invocationId)

theorem allRelated_empty : AllRelated .empty := fun _ => trivial

theorem settled_turn (dates : Dates) {stores : Stores} {turn : Turn} (related : AllRelated stores) (live : Live stores turn) :
    Settled turn.call.invocationId (stores.inMemory dates turn) (stores.pg dates turn) (Faithful dates stores turn) := by
  have here := related turn.call.invocationId
  obtain ⟨call, runs, memoryClock, pgClock⟩ := turn
  cases call with
  | start input =>
    obtain ⟨run, known, going⟩ := live input.runId (List.mem_singleton.mpr rfl)
    exact settled_start known going here
  | complete invocationId status ended error =>
    apply settled_complete ended error _ here
    intro record member
    apply live record.runId
    exact List.mem_map.mpr ⟨record, Option.mem_toList.mpr member, rfl⟩
  | requestCancel invocationId reason metadataPatch => exact settled_requestCancel here
  | requestCancelOnce invocationId reason metadataPatch => exact settled_requestCancelOnce here
  | claimCancelDelivery invocationId claimId leaseMs now => exact settled_claim here
  | markCancelDeliveryAttempt invocationId metadataPatch claimId => exact settled_markCancelDeliveryAttempt here
  | markCancelDelivered invocationId metadataPatch claimId => exact settled_markCancelDelivered here
  | get invocationId =>
    constructor
    · intro _ _
      trivial
    · intro
      exact sameReply_record_iff.mpr (sameRecord_of_related here)
    · intro
      exact here

theorem allRelated_next {dates : Dates} {stores : Stores} {turn : Turn} (related : AllRelated stores) (live : Live stores turn)
    (faithful : Faithful dates stores turn) : AllRelated (stores.next dates turn) := by
  intro invocationId
  by_cases same : invocationId = turn.call.invocationId
  · subst same
    simp only [Stores.next, Function.update_self]
    exact (settled_turn dates related live).related faithful
  · simp only [Stores.next, Function.update_of_ne same]
    exact related invocationId

theorem agreesOn_iff {dates : Dates} {stores : Stores} {turn : Turn} (related : AllRelated stores) (live : Live stores turn) :
    AgreesOn dates stores turn ↔ Faithful dates stores turn := by
  have settled := settled_turn dates related live
  constructor
  · rintro ⟨reply, records⟩
    have record := records turn.call.invocationId
    simp only [Stores.next, Function.update_self] at record
    exact settled.needed reply record
  · intro faithful
    exact ⟨settled.reply faithful, fun invocationId => sameRecord_of_related (allRelated_next related live faithful invocationId)⟩

theorem agreesThroughout_iff {dates : Dates} {stores : Stores} {turns : List Turn} (related : AllRelated stores)
    (live : LiveThroughout dates stores turns) : AgreesThroughout dates stores turns ↔ FaithfulThroughout dates stores turns := by
  induction turns generalizing stores with
  | nil => exact Iff.rfl
  | cons turn rest ih =>
    rw [AgreesThroughout, FaithfulThroughout, agreesOn_iff related live.1]
    constructor
    · rintro ⟨faithful, later⟩
      exact ⟨faithful, (ih (allRelated_next related live.1 faithful) live.2).mp later⟩
    · rintro ⟨faithful, later⟩
      exact ⟨faithful, (ih (allRelated_next related live.1 faithful) live.2).mpr later⟩

/-- The two stores agree on all calls of a sequence exactly if each call is one that they treat alike. -/
theorem stores_agree_iff (dates : Dates) (turns : List Turn) (live : LiveThroughout dates .empty turns) :
    AgreesThroughout dates .empty turns ↔ FaithfulThroughout dates .empty turns :=
  agreesThroughout_iff allRelated_empty live

/-! A run of calls on which they agree, and one on which they do not. -/

def sampleDates : Dates where
  toISOString time :=
    if time = 1785542400000 then some "2026-08-01T00:00:00.000Z"
    else if time = 1785542430000 then some "2026-08-01T00:00:30.000Z"
    else none
  parse text :=
    if text = "2026-08-01T00:00:00.000Z" then some 1785542400000
    else if text = "2026-08-01T00:00:30.000Z" then some 1785542430000
    else none
  timestamptz text :=
    if text = "2026-08-01T00:00:00.000Z" then some 1785542400000
    else if text = "2026-08-01T00:00:30.000Z" then some 1785542430000
    else none

def sampleRun : Run :=
  { pendingRun ⟨"r1", "s1", some "u1", none, none, none, none, none, none, none, .empty⟩ .empty 1 1 with
    status := .running
    workerId := some "w1" }

def sampleInput : StartToolInvocationInput where
  invocationId := "i1"
  runId := "r1"
  sessionId := "s1"
  toolCallId := "c1"
  toolName := "Shell"
  executionTarget := "server-remote"
  tenantId := none
  metadata := Metadata.empty.put "workerId" (.text "w1")

def sampleTurn (call : Call) : Turn where
  call := call
  runs runId := if runId = "r1" then some sampleRun else none
  memoryClock := 1785542400000
  pgClock := 1785542400001

def deliveryCalls : List Call :=
  [.start sampleInput, .requestCancelOnce "i1" (some "stop") .empty,
    .claimCancelDelivery "i1" "w1:1" 30000 1785542400000,
    .markCancelDelivered "i1" (Metadata.empty.put "cancelDelivery" (.text "delivered")) (some "w1:1"), .get "i1"]

theorem live_deliveryCalls : LiveThroughout sampleDates .empty (deliveryCalls.map sampleTurn) := by
  have known (runId : String) (member : runId ∈ ["r1"]) :
      ∃ run, (if runId = "r1" then some sampleRun else none) = some run ∧ run.status.isTerminal = false := by
    rw [List.mem_singleton.mp member, if_pos rfl]
    exact ⟨sampleRun, rfl, rfl⟩
  exact ⟨known, known, known, known, known, trivial⟩

theorem stores_agree_iff_delivery : AgreesThroughout sampleDates .empty (deliveryCalls.map sampleTurn) := by
  apply (stores_agree_iff sampleDates (deliveryCalls.map sampleTurn) live_deliveryCalls).mpr
  refine ⟨rfl, ?_, ?_, ?_, trivial, trivial⟩
  · intro record member
    have requested : record.cancelRequestedAt = none := by
      rw [← Option.some.inj member]
      rfl
    rw [requested]
    intro
    decide
  · have dated : (sampleDates.toISOString (1785542400000 + 30000)).isSome = true := rfl
    apply claimAgrees_of_date dated
    intro record member _ _
    have next : record.metadata "cancelDeliveryNextAttemptAt" = none := by
      rw [← Option.some.inj member]
      rfl
    have expires : record.metadata "cancelDeliveryClaimExpiresAt" = none := by
      rw [← Option.some.inj member]
      rfl
    simp [DueAlike, Pg.isDue, InMemory.isDue, Metadata.text, next, expires]
  · intro record member
    have claimed : record.metadata "cancelDeliveryClaimId" = some (.text "w1:1") := by
      rw [← Option.some.inj member]
      rfl
    constructor
    · simp [InMemory.isHeldBy, Metadata.text, claimed]
    · intro _ key member
      simp only [claimKeys, List.mem_cons, List.not_mem_nil, or_false] at member
      rcases member with rfl | rfl <;> rfl

def repeatedCalls : List Call :=
  [.start sampleInput, .requestCancelOnce "i1" (some "stop") .empty,
    .requestCancelOnce "i1" (some "again") (Metadata.empty.put "requestedBy" (.text "u2"))]

theorem repeated_request_differs :
    LiveThroughout sampleDates .empty (repeatedCalls.map sampleTurn) ∧
      ¬ AgreesThroughout sampleDates .empty (repeatedCalls.map sampleTurn) := by
  have known (runId : String) (member : runId ∈ ["r1"]) :
      ∃ run, (if runId = "r1" then some sampleRun else none) = some run ∧ run.status.isTerminal = false := by
    rw [List.mem_singleton.mp member, if_pos rfl]
    exact ⟨sampleRun, rfl, rfl⟩
  refine ⟨⟨known, known, known, trivial⟩, ?_⟩
  rintro ⟨_, _, ⟨reply, _⟩, _⟩
  have merged := (sameReply_cancellation_iff.mp reply).1.metadata
  have differs := congrFun merged "requestedBy"
  cases differs

end AgentSaas.Proofs.InvocationStores
